import LunarOS.Logic.Blocks
import LunarOS.Logic.Circular
import LunarOS.Logic.Dyadic
import LunarOS.Logic.Loop
import LunarOS.Logic.Rings
import LunarOS.Logic.Run
import LunarOS.Logic.Terminal
import LunarOS.Cpu.Features
import LunarOS.Buddy.Accounting
import LunarOS.Buddy.Coalescing
import LunarOS.Buddy.Completeness
import LunarOS.Buddy.Merging
import LunarOS.Buddy.Nodes
import LunarOS.Buddy.Pointers
import LunarOS.Buddy.Refusal
import LunarOS.Buddy.Safety
import LunarOS.Kernel.Display
import LunarOS.Lib.Buffer
import LunarOS.Lib.Scan
import LunarOS.Lib.Log
import LunarOS.Machine.Bump
import LunarOS.Machine.Sequences
import LunarOS.Multiboot.Report
import LunarOS.Page.Budget
import LunarOS.Page.Contract
import LunarOS.Page.Inverse
import LunarOS.Page.Search
import LunarOS.Scripts.Tables
import LunarOS.Slab.Owner
import LunarOS.Tty.Screen
import LunarOS.Vmm.Assign
import LunarOS.Vmm.DirectMap
import LunarOS.Vmm.Coherence
import LunarOS.Vmm.Entered
import LunarOS.Vmm.Space
