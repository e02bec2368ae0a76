import LunarOS.Boot.Entry
import LunarOS.Vmm.Space

/-!
# From the boot loader to the kernel's address space

`start` ends at `main` with the tables of the boot code in memory, and the kernel goes on from
there: it maps the physical memory, takes over the window that `%rcx` points to and maps pages in
it. The memory at `main` is one that `bootTables` leaves (`Holds.exists_boot`), so what is known of
the address space after `bootTables` is known of every run that starts at the boot loader.
-/

namespace LunarOS

open Logic

/-- The whole image: the array `pages` beside what the boot code uses. -/
structure KernelImage extends EntrySymbols, ImageSymbols where
  pages_stack : pages + PGSIZE ≤ stack ∨ stack + 0x4000 ≤ pages
  pages_gdt : pages ≠ gdt

/-- The kernel's address space in every state after the `main` that the run reaches. -/
structure ReachesSpace (s : KernelImage) (run : Except LongMode.Trap Entered) : Prop where
  main : ∃ args c', run = .ok (.main args c')
  direct : ∀ {args c'}, run = .ok (.main args c') → ∃ st,
    directMapEverything (s.address .pml4) (VMM_KERNEL_START + s.pages) { m := c'.mem } = .ok st
  space : ∀ {args c' st ops w}, run = .ok (.main args c') →
    directMapEverything (s.address .pml4) (VMM_KERNEL_START + s.pages) { m := c'.mem } = .ok st →
    (∀ op ∈ ops, MapOp.Physical op) →
    Run MapStep ⟨vmmInit fun i => st.m (args.rcx - VMM_KERNEL_START + 8 * i), []⟩ ops w →
    AddressSpace s.toImageSymbols s.kernelEnd w.vm
      (w.vm.memory (args.rcx - VMM_KERNEL_START) st.m)

/-- Memory with the tables of the boot code comes from memory with empty tables. -/
theorem Holds.exists_boot {s : BootSymbols} {m : Nat → Nat} {kernelEnd : Nat}
    (hEnd : kernelEnd < 2 ^ 30) (h : Holds s m (finalContents s (kernelEnd / 2 ^ 21 + 1))) :
    ∃ m0, (Holds s m0 fun _ _ => 0) ∧ (∀ a, Elsewhere s a → m0 a = m a) ∧
      bootTables s kernelEnd m0 512 = some m := by
  classical
  have hZero : Holds s (fun a => if Elsewhere s a then m a else 0) fun _ _ => 0 :=
    fun t i hi => if_neg fun hElse => hElse t i hi rfl
  obtain ⟨m', hRun, h'⟩ := bootTables_holds hEnd hZero
  have hSame : m' = m := by
    funext a
    by_cases ha : Elsewhere s a
    · rw [ha.bootTables hEnd hRun, if_pos ha]
    · unfold Elsewhere at ha
      push Not at ha
      obtain ⟨t, i, hi, rfl⟩ := ha
      rw [h' t i hi, h t i hi]
  rw [hSame] at hRun
  exact ⟨_, hZero, fun a ha => if_pos ha, hRun⟩

section

variable {s : KernelImage} {eax ebx edx : Nat} {c c' : BootCpu} {args : MainArgs}

/-- What `main` starts from. -/
theorem EntersMain.loaded (h : EntersMain s.toEntrySymbols eax ebx c args c')
    (hPages : ∀ i < 512, c.mem (s.pages + i * 8) = 0) :
    ∃ m0, s.toImageSymbols.Loaded s.kernelEnd m0 ∧
      bootTables s.toBootSymbols s.kernelEnd m0 512 = some c'.mem := by
  obtain ⟨m0, hZero, hKept, hRun⟩ := h.tables.exists_boot s.kernelEnd_low
  refine ⟨m0, ⟨s.kernelEnd_low, hZero, ?_, s.tables_inside⟩, hRun⟩
  intro i hi
  have hElse := s.toImageSymbols.pages_elsewhere hi
  have hStack := s.pages_stack
  have hGdt : s.pages + i * 8 ≠ s.gdt + 8 := by
    have hPage := s.pages_page
    have hGdtPage := s.gdt_page
    have hOther := s.pages_gdt
    unfold PGSIZE at hPage hGdtPage
    omega
  have hTop : s.pages + i * 8 ≠ s.top := by
    unfold EntrySymbols.top PGSIZE at *
    omega
  exact (hKept _ hElse).trans ((h.frame _ hElse hTop hGdt).trans (hPages i hi))

/-- The run ends at `main` when the processor finds every store of `_start64`. -/
theorem StartEnds.reaches_main {keeps : Nat → Nat → Bool} {result : Except LongMode.Trap Entered}
    (h : StartEnds s.toEntrySymbols keeps eax ebx edx c result) (hLong : edx.testBit 29 = true)
    (hFound : ∀ k < 515, StoreFound s.toBootSymbols keeps k) :
    ∃ args c', result = .ok (.main args c') ∧ EntersMain s.toEntrySymbols eax ebx c args c' := by
  cases h with
  | halted hShort => exact absurd (hLong.symm.trans hShort) (by decide)
  | main _ _ hEnters => exact ⟨_, _, rfl, hEnters⟩
  | @fault k store _ hStore _ hLost =>
    have hk := (List.getElem?_eq_some_iff.mp hStore).1
    rw [length_start64Stores] at hk
    exact absurd (hFound k hk) hLost

/-- On a processor that keeps what the stores of `_start64` need. -/
theorem start_reaches (h : HandedOver s.toEntrySymbols c) (hEax : eax < 2 ^ 32)
    (hEbx : ebx < 2 ^ 32) (hLong : edx.testBit 29 = true)
    (hPages : ∀ i < 512, c.mem (s.pages + i * 8) = 0) {keeps : Nat → Nat → Bool}
    (hFound : ∀ k < 515, StoreFound s.toBootSymbols keeps k) :
    ReachesSpace s (start s.toEntrySymbols keeps eax ebx edx c 512) := by
  obtain ⟨args, c', hStart, hEnters⟩ :=
    (h.ends hEax hEbx edx keeps).reaches_main hLong hFound
  obtain ⟨m0, hLoaded, hRun⟩ := hEnters.loaded hPages
  rw [hStart]
  refine ⟨⟨args, c', rfl⟩, ?_, ?_⟩
  · intro args' d hSame
    obtain ⟨rfl, rfl⟩ := Entered.main.inj (Except.ok.inj hSame)
    exact ⟨_, directMapEverything_eq (hLoaded.ready hRun)⟩
  · intro args' d st ops w hSame hDirect hPhysical hCalls
    obtain ⟨rfl, rfl⟩ := Entered.main.inj (Except.ok.inj hSame)
    have hTable : args.rcx - VMM_KERNEL_START = s.address .pte := by
      rw [hEnters.args_eq]
      dsimp only
      rw [Nat.add_sub_cancel_left]
    rw [hTable] at hCalls ⊢
    have hReach : SpaceReach s.toImageSymbols s.kernelEnd m0 w.vm
        (w.vm.memory (s.address .pte) st.m) := .intro hRun hDirect hPhysical hCalls
    exact hReach.addressSpace hLoaded

end

/-- The two sample images put together: `pages` is behind the stack. -/
def sampleKernel : KernelImage where
  __ := sampleEntry
  __ := sampleImage
  pages_stack := .inr (by decide)
  pages_gdt := by decide

theorem start_reaches_sample : ReachesSpace sampleKernel
    (start sampleEntry (fun _ _ => true) 0x36d76289 0x10000 (2 ^ 29) sampleCpu 512) := by
  apply start_reaches (s := sampleKernel) sampleCpu_handedOver (by decide) (by decide)
    (Nat.testBit_two_pow_self ..)
  · intro i hi
    have hAt : sampleKernel.pages = 0x120000 := rfl
    unfold sampleCpu
    dsimp only
    rw [hAt, if_neg (by omega), if_neg (by omega)]
  · exact fun k _ => .inr fun _ _ _ _ _ => rfl

end LunarOS
