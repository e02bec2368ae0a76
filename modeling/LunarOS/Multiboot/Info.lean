import LunarOS.Lib.Printf
import LunarOS.Page.Layout

/-!
# The boot information block (`multiboot.c`)

The boot loader leaves a block of tags. A pointer into it is its offset from the start of the
block: the block lies in the first 4 GiB and is reached `VMM_KERNEL_START` bytes higher, so no
pointer that the code forms wraps around. A read that is not inside the `total_size` bytes of
the block is a fault. The walk over the tags and the walk over the entries of one tag appear
three times in the source; `tagLoop` and `entryLoop` are these loops with the body left open.
-/

namespace LunarOS

def MULTIBOOT_TAG_TYPE_END : Nat := 0
def MULTIBOOT_TAG_TYPE_CMDLINE : Nat := 1
def MULTIBOOT_TAG_TYPE_BOOT_LOADER_NAME : Nat := 2
def MULTIBOOT_TAG_TYPE_MODULE : Nat := 3
def MULTIBOOT_TAG_TYPE_BASIC_MEMINFO : Nat := 4
def MULTIBOOT_TAG_TYPE_MMAP : Nat := 6

structure BootInfo where
  byte : Nat → UInt8

namespace BootInfo

/-- The little-endian number in the `n` bytes at an offset. -/
def le (b : BootInfo) (off : Nat) : Nat → Nat
  | 0 => 0
  | n + 1 => (b.byte off).toNat + 256 * b.le (off + 1) n

/-- The first word of the block. -/
def totalSize (b : BootInfo) : Nat := b.le 0 4

def read (b : BootInfo) (off n : Nat) : Outcome Nat :=
  if off + n ≤ b.totalSize then .ok (b.le off n) else .error (.fault (.block off))

/-- The characters of a string, up to its terminator. -/
def cstring (b : BootInfo) : Nat → Nat → Outcome (List Char)
  | 0, _ => .error .fuel
  | fuel + 1, off => do
    let c ← b.read off 1
    if c = 0 then pure []
    else pure (Char.ofNat c :: (← b.cstring fuel (off + 1)))

/-! Offsets of the fields of a tag and of an entry of the memory map. -/

def type (b : BootInfo) (tag : Nat) : Outcome Nat := b.read tag 4
def size (b : BootInfo) (tag : Nat) : Outcome Nat := b.read (tag + 4) 4
def entrySize (b : BootInfo) (tag : Nat) : Outcome Nat := b.read (tag + 8) 4
def entries (tag : Nat) : Nat := tag + 16
def entryAddr (b : BootInfo) (mmap : Nat) : Outcome Nat := b.read mmap 8
def entryLen (b : BootInfo) (mmap : Nat) : Outcome Nat := b.read (mmap + 8) 8
def entryType (b : BootInfo) (mmap : Nat) : Outcome Nat := b.read (mmap + 16) 4

/-- `next_tag`: the mask is applied to a 32-bit sum. -/
def nextTag (b : BootInfo) (tag : Nat) : Outcome Nat := do
  pure (tag + ((← b.size tag) + 7) % 2 ^ 32 / 8 * 8)

/-- `next_mmap_tag` -/
def nextMmapTag (b : BootInfo) (mmap tag : Nat) : Outcome Nat := do
  pure (mmap + (← b.entrySize tag))

/-- The `while` loop over the entries of a tag. -/
def entryLoop {σ : Type} (b : BootInfo) (body : σ → Nat → Outcome σ) (tag : Nat) :
    Nat → Nat → σ → Outcome σ
  | 0, _, _ => .error .fuel
  | fuel + 1, mmap, s => do
    if mmap < tag + (← b.size tag) then
      let s ← body s mmap
      entryLoop b body tag fuel (← b.nextMmapTag mmap tag) s
    else pure s

/-- The `for` loop over the tags; the body is given the type of the tag. -/
def tagLoop {σ : Type} (b : BootInfo) (body : σ → Nat → Nat → Outcome σ) :
    Nat → Nat → σ → Outcome σ
  | 0, _, _ => .error .fuel
  | fuel + 1, tag, s => do
    let type ← b.type tag
    if type = MULTIBOOT_TAG_TYPE_END then pure s
    else
      let s ← body s type tag
      tagLoop b body fuel (← b.nextTag tag) s

/-! ## `count_mem_available` -/

def countEntry (b : BootInfo) (areasSz mmap : Nat) : Outcome Nat := do
  if (← b.entryType mmap) = MULTIBOOT_MEMORY_AVAILABLE then pure (areasSz + 1) else pure areasSz

def countTag (b : BootInfo) (fuel areasSz type tag : Nat) : Outcome Nat :=
  if type ≠ MULTIBOOT_TAG_TYPE_MMAP then pure areasSz
  else b.entryLoop b.countEntry tag fuel (entries tag) areasSz

def countMemAvailable (b : BootInfo) (fuel : Nat) : Outcome Nat :=
  b.tagLoop (b.countTag fuel) fuel 8 0

/-! ## `fill_area_info` -/

/-- The loop variable `i` and the array from `areas` on. -/
structure Fill where
  i : Nat
  areas : Nat → MemArea

def Fill.push (s : Fill) (addr len : Nat) : Fill where
  i := s.i + 1
  areas k := if k = s.i then { s.areas k with addr := alignTo addr 8, len } else s.areas k

def fillEntry (b : BootInfo) (s : Fill) (mmap : Nat) : Outcome Fill := do
  if (← b.entryType mmap) = MULTIBOOT_MEMORY_AVAILABLE then
    pure (s.push (← b.entryAddr mmap) (← b.entryLen mmap))
  else pure s

def fillTag (b : BootInfo) (fuel : Nat) (s : Fill) (type tag : Nat) : Outcome Fill :=
  if type ≠ MULTIBOOT_TAG_TYPE_MMAP then pure s
  else b.entryLoop b.fillEntry tag fuel (entries tag) s

def fillAreaInfo (b : BootInfo) (areas : Nat → MemArea) (fuel : Nat) : Outcome (Nat → MemArea) := do
  let s ← b.tagLoop (b.fillTag fuel) fuel 8 ⟨0, areas⟩
  pure s.areas

/-! ## `multiboot_parse_mmap` -/

/-- The result, `*sz`, the array from the result on and the reserved area. -/
structure Parsed where
  areasAt : Nat
  sz : Nat
  areas : Nat → MemArea
  reserved : Reserved

/-- `areas` is what the memory held that the reserved area hands out next, and behind it. -/
def multibootParseMmap (b : BootInfo) (r : Reserved) (areas : Nat → MemArea) (fuel : Nat) :
    Outcome Parsed := do
  let areasSz ← b.countMemAvailable fuel
  match mmReservedAlloc r (mul64 areasSz MemArea.size) with
  | (none, _) => .error (.panic "Not enough memory\n")
  | (some areasAt, reserved) =>
    let zeroed := fun k => if k < areasSz then ⟨0, 0, 0, 0, 0, 0⟩ else areas k
    let areas ← b.fillAreaInfo zeroed fuel
    pure { areasAt, sz := areasSz, areas, reserved }

/-! ## `multiboot_parse_info` -/

/-- The output so far and what one more `printf` puts. -/
def print (out : List Char) (fmt : String) (args : List Arg) : Outcome (List Char) := do
  let (cs, _) ← printf fmt args
  pure (out ++ cs)

def infoEntry (b : BootInfo) (out : List Char) (mmap : Nat) : Outcome (List Char) := do
  let addr ← b.entryAddr mmap
  let len ← b.entryLen mmap
  let type ← b.entryType mmap
  print out " base_addr = %llx, length = %llx, type = %x\n" [.num addr, .num len, .num type]

def infoTag (b : BootInfo) (fuel : Nat) (out : List Char) (type tag : Nat) :
    Outcome (List Char) := do
  if type = MULTIBOOT_TAG_TYPE_CMDLINE then
    let string ← b.cstring fuel (tag + 8)
    print out "Command line = %s\n" [.str (some string)]
  else if type = MULTIBOOT_TAG_TYPE_BOOT_LOADER_NAME then
    let string ← b.cstring fuel (tag + 8)
    print out "Boot loader name = %s\n" [.str (some string)]
  else if type = MULTIBOOT_TAG_TYPE_MODULE then
    let modStart ← b.read (tag + 8) 4
    let modEnd ← b.read (tag + 12) 4
    let cmdline ← b.cstring fuel (tag + 16)
    print out "Module at %x-%x. Command line %s\n" [.num modStart, .num modEnd, .str (some cmdline)]
  else if type = MULTIBOOT_TAG_TYPE_BASIC_MEMINFO then
    let memLower ← b.read (tag + 8) 4
    let memUpper ← b.read (tag + 12) 4
    print out "mem_lower = %uKB, mem_upper = %uKB\n" [.num memLower, .num memUpper]
  else if type = MULTIBOOT_TAG_TYPE_MMAP then
    b.entryLoop b.infoEntry tag fuel (entries tag) out
  else pure out

/-- The characters it prints. -/
def multibootParseInfo (b : BootInfo) (fuel : Nat) : Outcome (List Char) :=
  b.tagLoop (b.infoTag fuel) fuel 8 []

/-! ## Reads -/

theorem le_lt (b : BootInfo) (off n : Nat) : b.le off n < 256 ^ n := by
  induction n generalizing off with
  | zero => exact Nat.one_pos
  | succ n ih =>
    have hByte := (b.byte off).toNat_lt
    have hRest := ih (off + 1)
    unfold le
    rw [Nat.pow_succ]
    omega

theorem read_eq {b : BootInfo} {off n : Nat} (h : off + n ≤ b.totalSize) :
    b.read off n = .ok (b.le off n) := if_pos h

theorem read_eq_ok {b : BootInfo} {off n v : Nat} :
    b.read off n = .ok v ↔ off + n ≤ b.totalSize ∧ v = b.le off n := by
  unfold read
  split
  · next h => simp only [Except.ok.injEq, h, true_and, eq_comm]
  · next h => simp only [h, false_and, reduceCtorEq]

end BootInfo

end LunarOS
