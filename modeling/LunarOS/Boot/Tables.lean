import LunarOS.Logic.Loop
import LunarOS.Logic.Paging
import LunarOS.Machine.Vmm

/-!
# The page tables of the boot code (`boot.S`, `start64.S`)

`boot.S` fills six pages so that the first megabytes are mapped twice, at 0 and at
`VMM_KERNEL_START`. `start64.S` takes the lower mapping away and links its tables as an empty
window of 2 MiB. Memory is a function from the address of a 64-bit word to the word; a register
is its value, and a store of 32 bits keeps the upper half of the word.
-/

namespace LunarOS

open Logic

def MMU_PRESENT : Nat := 1
def MMU_WRITABLE : Nat := 2
def MMU_PD_2MiB : Nat := 2 ^ 7

/-- The pages that `boot.S` reserves. -/
inductive Table
  | pml4 | pdpte2mb | pde2mb | pdpte | pde | pte
  deriving DecidableEq, Repr

/-- Where the linker has put them: on pages of their own in the image, below 1 GiB. -/
structure BootSymbols where
  address : Table → Nat
  aligned : ∀ t, PGSIZE ∣ address t
  injective : Function.Injective address
  low : ∀ t, address t < 2 ^ 30

def movq (m : Nat → Nat) (address value : Nat) : Nat → Nat := Function.update m address value

def movl (m : Nat → Nat) (address value : Nat) : Nat → Nat :=
  Function.update m address (m address / 2 ^ 32 * 2 ^ 32 + value % 2 ^ 32)

section

variable (s : BootSymbols)

def bootPageInit (m : Nat → Nat) : Nat → Nat :=
  let m := movl m (s.address .pml4 + 0) (s.address .pdpte ||| (MMU_PRESENT ||| MMU_WRITABLE))
  let m := movl m (s.address .pml4 + 256 * 8)
    (s.address .pdpte2mb ||| (MMU_PRESENT ||| MMU_WRITABLE))
  let m := movl m (s.address .pdpte + 0) (s.address .pde ||| (MMU_PRESENT ||| MMU_WRITABLE))
  movl m (s.address .pdpte2mb + 0) (s.address .pde2mb ||| (MMU_PRESENT ||| MMU_WRITABLE))

/-- One turn of `L1`, from `%ecx` and the memory. -/
def mmapKernelStep (esi : Nat) : Nat × (Nat → Nat) → Nat × (Nat → Nat) ⊕ (Nat → Nat)
  | (ecx, m) =>
    let eax := 2 ^ 21 * ecx % 2 ^ 32 ||| (MMU_PRESENT ||| MMU_WRITABLE ||| MMU_PD_2MiB)
    let m := movl m (s.address .pde + ecx * 8) eax
    let m := movl m (s.address .pde2mb + ecx * 8) eax
    let ecx := (ecx + 1) % 2 ^ 32
    if ecx ≠ esi then .inl (ecx, m) else .inr m

def bootMmapKernel (kernelEnd : Nat) (m : Nat → Nat) (fuel : Nat) : Option (Nat → Nat) :=
  Loop.run (mmapKernelStep s ((kernelEnd % 2 ^ 32 / 2 ^ 21 + 1) % 2 ^ 32)) fuel (0, m)

/-- The stores of `_start64` before its loop. -/
def reuseTables (m : Nat → Nat) : Nat → Nat :=
  let m := movq m (s.address .pml4 + 257 * 8)
    (s.address .pdpte ||| (MMU_PRESENT ||| MMU_WRITABLE))
  let m := movq m (s.address .pdpte + 0) (s.address .pde ||| (MMU_PRESENT ||| MMU_WRITABLE))
  let m := movq m (s.address .pde + 0) (s.address .pte ||| (MMU_PRESENT ||| MMU_WRITABLE))
  movq m (s.address .pml4 + 0) 0

/-- One turn of `L2`, from `%rcx` and the memory. -/
def unmapStep : Nat × (Nat → Nat) → Nat × (Nat → Nat) ⊕ (Nat → Nat)
  | (rcx, m) =>
    let m := movq m (s.address .pde + rcx * 8) 0
    let rcx := add64 rcx 1
    if rcx ≠ 512 then .inl (rcx, m) else .inr m

def start64 (m : Nat → Nat) (fuel : Nat) : Option (Nat → Nat) :=
  Loop.run (unmapStep s) fuel (1, reuseTables s m)

/-- The tables of the boot code, for a kernel that ends at the physical address `kernelEnd`. -/
def bootTables (kernelEnd : Nat) (m : Nat → Nat) (fuel : Nat) : Option (Nat → Nat) := do
  start64 s (← bootMmapKernel s kernelEnd (bootPageInit s m) fuel) fuel

end

/-! ## The contents of the tables -/

/-- Entries by table and index. -/
abbrev Contents := Table → Nat → Nat

def Contents.set (c : Contents) (t : Table) (i e : Nat) : Contents :=
  fun t' i' => if t' = t ∧ i' = i then e else c t' i'

/-- The memory holds these entries. -/
def Holds (s : BootSymbols) (m : Nat → Nat) (c : Contents) : Prop :=
  ∀ t, ∀ i < 512, m (s.address t + i * 8) = c t i

section

variable {s : BootSymbols} {m : Nat → Nat} {c : Contents}

/-- Entries of different tables or indices are different words. -/
theorem BootSymbols.entry_inj {t t' : Table} {i i' : Nat} (hi : i < 512) (hi' : i' < 512)
    (h : s.address t + i * 8 = s.address t' + i' * 8) : t = t' ∧ i = i' := by
  obtain ⟨f, hf⟩ := s.aligned t
  obtain ⟨f', hf'⟩ := s.aligned t'
  unfold PGSIZE at hf hf'
  have hSame : t = t' := s.injective (by omega)
  subst hSame
  exact ⟨rfl, by omega⟩

theorem Holds.movq (h : Holds s m c) (t : Table) {i : Nat} (hi : i < 512) (e : Nat) :
    Holds s (movq m (s.address t + i * 8) e) (c.set t i e) := by
  intro t' i' hi'
  unfold LunarOS.movq Contents.set
  by_cases hSame : t' = t ∧ i' = i
  · obtain ⟨rfl, rfl⟩ := hSame
    rw [if_pos ⟨rfl, rfl⟩, Function.update_self]
  · have hOther : s.address t' + i' * 8 ≠ s.address t + i * 8 := fun hEq =>
      hSame (s.entry_inj hi' hi hEq)
    rw [if_neg hSame, Function.update_of_ne hOther, h t' i' hi']

/-- A store of 32 bits into an entry whose upper half is clear. -/
theorem Holds.movl (h : Holds s m c) (t : Table) {i e : Nat} (hi : i < 512)
    (hOld : c t i < 2 ^ 32) (he : e < 2 ^ 32) :
    Holds s (movl m (s.address t + i * 8) e) (c.set t i e) := by
  have hWord : m (s.address t + i * 8) / 2 ^ 32 * 2 ^ 32 + e % 2 ^ 32 = e := by
    rw [h t i hi, Nat.div_eq_of_lt hOld, Nat.mod_eq_of_lt he]
    omega
  unfold LunarOS.movl
  rw [hWord]
  exact h.movq t hi e

theorem BootSymbols.link_eq (s : BootSymbols) (t : Table) :
    s.address t ||| (MMU_PRESENT ||| MMU_WRITABLE) = s.address t + 3 := by
  obtain ⟨f, hf⟩ := s.aligned t
  have hPage : s.address t = f * 2 ^ 12 := by
    unfold PGSIZE at hf
    omega
  rw [hPage]
  exact or_eq_add (k := 12) (by decide)

theorem BootSymbols.link_lt (s : BootSymbols) (t : Table) : s.address t + 3 < 2 ^ 32 := by
  have := s.low t
  omega

/-! ### What each stage leaves -/

/-- After `_boot_page_init`, from empty tables. -/
def linkedContents (s : BootSymbols) : Contents :=
  let c : Contents := fun _ _ => 0
  let c := c.set .pml4 0 (s.address .pdpte + 3)
  let c := c.set .pml4 256 (s.address .pdpte2mb + 3)
  let c := c.set .pdpte 0 (s.address .pde + 3)
  c.set .pdpte2mb 0 (s.address .pde2mb + 3)

theorem bootPageInit_holds (h : Holds s m fun _ _ => 0) :
    Holds s (bootPageInit s m) (linkedContents s) := by
  unfold bootPageInit linkedContents
  simp only [BootSymbols.link_eq]
  have h1 := h.movl .pml4 (i := 0) (by omega) (by decide) (s.link_lt .pdpte)
  have h2 := h1.movl .pml4 (i := 256) (by omega) (by simp [Contents.set]) (s.link_lt .pdpte2mb)
  have h3 := h2.movl .pdpte (i := 0) (by omega) (by simp [Contents.set]) (s.link_lt .pde)
  exact h3.movl .pdpte2mb (i := 0) (by omega) (by simp [Contents.set]) (s.link_lt .pde2mb)

/-- The first `k` pages of 2 MiB in both directories. -/
def Contents.withPages (c : Contents) (k : Nat) : Contents :=
  fun t i => if (t = .pde ∨ t = .pde2mb) ∧ i < k then i * 2 ^ 21 + 131 else c t i

theorem Contents.withPages_of_le (c : Contents) {k i : Nat} (hi : k ≤ i) (t : Table) :
    c.withPages k t i = c t i := if_neg (by omega)

theorem Contents.set_of_ne (c : Contents) {t t' : Table} (ht : t' ≠ t) (i i' e : Nat) :
    c.set t i e t' i' = c t' i' := if_neg fun h => ht h.1

theorem Contents.withPages_succ (c : Contents) (k : Nat) :
    ((c.withPages k).set .pde k (k * 2 ^ 21 + 131)).set .pde2mb k (k * 2 ^ 21 + 131) =
      c.withPages (k + 1) := by
  funext t i
  unfold withPages set
  cases t <;> simp only [reduceCtorEq, false_and, true_and, or_false, or_true, if_false]
  · rcases Nat.lt_trichotomy i k with hLess | rfl | hMore
    · rw [if_neg (by omega), if_pos hLess, if_pos (by omega)]
    · rw [if_pos rfl, if_pos (by omega)]
    · rw [if_neg (by omega), if_neg (by omega), if_neg (by omega)]
  · rcases Nat.lt_trichotomy i k with hLess | rfl | hMore
    · rw [if_neg (by omega), if_pos hLess, if_pos (by omega)]
    · rw [if_pos rfl, if_pos (by omega)]
    · rw [if_neg (by omega), if_neg (by omega), if_neg (by omega)]

theorem mmapKernel_holds {n : Nat} (hPos : 0 < n) (hLe : n ≤ 512)
    (hSmall : ∀ i, c .pde i < 2 ^ 32 ∧ c .pde2mb i < 2 ^ 32) (h : Holds s m c) :
    ∃ m', Loop.run (mmapKernelStep s n) 512 (0, m) = some m' ∧ Holds s m' (c.withPages n) := by
  refine Loop.run_of_variant (fun p => p.1 < n ∧ Holds s p.2 (c.withPages p.1))
    (fun p => n - p.1) _ ?_ ⟨hPos, ?_⟩ (by dsimp only; omega)
  · rintro ⟨ecx, m⟩ ⟨hLess, hm⟩
    dsimp only at hLess hm
    have hEax : 2 ^ 21 * ecx % 2 ^ 32 ||| (MMU_PRESENT ||| MMU_WRITABLE ||| MMU_PD_2MiB) =
        ecx * 2 ^ 21 + 131 := by
      rw [Nat.mod_eq_of_lt (by omega), Nat.mul_comm]
      exact or_eq_add (by decide)
    have hOld : c.withPages ecx .pde ecx < 2 ^ 32 := by
      rw [c.withPages_of_le (Nat.le_refl ecx)]
      exact (hSmall ecx).1
    have hOld' : (c.withPages ecx).set .pde ecx (ecx * 2 ^ 21 + 131) .pde2mb ecx < 2 ^ 32 := by
      rw [Contents.set_of_ne _ (by decide), c.withPages_of_le (Nat.le_refl ecx)]
      exact (hSmall ecx).2
    have hBoth := (hm.movl .pde (i := ecx) (by omega) hOld (by omega)).movl .pde2mb (i := ecx)
      (by omega) hOld' (by omega : ecx * 2 ^ 21 + 131 < 2 ^ 32)
    rw [Contents.withPages_succ] at hBoth
    unfold mmapKernelStep
    simp only [hEax, Nat.mod_eq_of_lt (by omega : ecx + 1 < 2 ^ 32)]
    by_cases hLast : ecx + 1 = n
    · subst hLast
      exact .inr ⟨_, if_neg (not_not.mpr rfl), hBoth⟩
    · exact .inl ⟨_, if_pos hLast, ⟨by omega, hBoth⟩, by omega⟩
  · intro t i hi
    rw [c.withPages_of_le (Nat.zero_le i)]
    exact h t i hi

/-- After the stores of `_start64` before its loop. -/
def Contents.reused (c : Contents) (s : BootSymbols) : Contents :=
  let c := c.set .pml4 257 (s.address .pdpte + 3)
  let c := c.set .pdpte 0 (s.address .pde + 3)
  let c := c.set .pde 0 (s.address .pte + 3)
  c.set .pml4 0 0

theorem reuseTables_holds (h : Holds s m c) : Holds s (reuseTables s m) (c.reused s) := by
  unfold reuseTables Contents.reused
  simp only [BootSymbols.link_eq]
  have h1 := h.movq .pml4 (i := 257) (by omega) (s.address .pdpte + 3)
  have h2 := h1.movq .pdpte (i := 0) (by omega) (s.address .pde + 3)
  have h3 := h2.movq .pde (i := 0) (by omega) (s.address .pte + 3)
  exact h3.movq .pml4 (i := 0) (by omega) 0

/-- Entries 1 to `k - 1` of the directory cleared. -/
def Contents.unmapped (c : Contents) (k : Nat) : Contents :=
  fun t i => if t = .pde ∧ 1 ≤ i ∧ i < k then 0 else c t i

theorem unmap_holds (h : Holds s m c) :
    ∃ m', Loop.run (unmapStep s) 512 (1, m) = some m' ∧ Holds s m' (c.unmapped 512) := by
  refine Loop.run_of_variant (fun p => 1 ≤ p.1 ∧ p.1 < 512 ∧ Holds s p.2 (c.unmapped p.1))
    (fun p => 512 - p.1) _ ?_ ⟨by omega, by omega, ?_⟩ (by dsimp only; omega)
  · rintro ⟨rcx, m⟩ ⟨hPos, hLess, hm⟩
    dsimp only at hPos hLess hm
    have hNext := hm.movq .pde (i := rcx) hLess 0
    have hCleared : (c.unmapped rcx).set .pde rcx 0 = c.unmapped (rcx + 1) := by
      funext t i
      unfold Contents.set Contents.unmapped
      by_cases ht : t = .pde
      · rcases Nat.lt_trichotomy i rcx with hi | rfl | hi
        · simp [ht, hi, hi.ne, Nat.lt_succ_of_lt hi]
        · simp [ht, hPos]
        · simp [ht, hi.ne', Nat.not_lt_of_gt hi, Nat.not_lt_of_ge hi]
      · simp [ht]
    rw [hCleared] at hNext
    unfold unmapStep
    simp only [add64_eq (by unfold wordSize; omega : rcx + 1 < wordSize)]
    by_cases hLast : rcx + 1 = 512
    · rw [hLast] at hNext ⊢
      exact .inr ⟨_, if_neg (not_not.mpr rfl), hNext⟩
    · exact .inl ⟨_, if_pos hLast, ⟨by omega, by omega, hNext⟩, by omega⟩
  · intro t i hi
    dsimp only [Contents.unmapped]
    rw [if_neg (by omega)]
    exact h t i hi

/-- Pages of 2 MiB for the kernel. -/
def kernelPages (kernelEnd : Nat) : Nat := kernelEnd / 2 ^ 21 + 1

/-- What the boot code leaves, with `n` pages for the kernel. -/
def finalContents (s : BootSymbols) (n : Nat) : Contents
  | .pml4, i =>
    if i = 256 then s.address .pdpte2mb + 3
    else if i = 257 then s.address .pdpte + 3
    else 0
  | .pdpte2mb, i => if i = 0 then s.address .pde2mb + 3 else 0
  | .pde2mb, i => if i < n then i * 2 ^ 21 + 131 else 0
  | .pdpte, i => if i = 0 then s.address .pde + 3 else 0
  | .pde, i => if i = 0 then s.address .pte + 3 else 0
  | .pte, _ => 0

theorem final_eq (s : BootSymbols) (n : Nat) (t : Table) {i : Nat} (hi : i < 512) :
    (((linkedContents s).withPages n).reused s).unmapped 512 t i = finalContents s n t i := by
  unfold Contents.unmapped Contents.reused Contents.withPages linkedContents Contents.set
  cases t with
  | pml4 =>
    by_cases hZero : i = 0
    · simp [finalContents, hZero]
    · by_cases hWindow : i = 257
      · simp [finalContents, hWindow]
      · simp [finalContents, hZero, hWindow]
  | pdpte2mb => simp [finalContents]
  | pde2mb => simp [finalContents]
  | pdpte =>
    by_cases hZero : i = 0
    · simp [finalContents, hZero]
    · simp [finalContents, hZero]
  | pde =>
    by_cases hZero : i = 0
    · simp [finalContents, hZero]
    · simp [finalContents, hZero, hi, Nat.one_le_iff_ne_zero]
  | pte => simp [finalContents]

/-- After `_boot_mmap_kernel`, from empty tables. -/
theorem bootMmapKernel_holds {kernelEnd : Nat} (hEnd : kernelEnd < 2 ^ 30)
    (h : Holds s m fun _ _ => 0) :
    ∃ m', bootMmapKernel s kernelEnd (bootPageInit s m) 512 = some m' ∧
      Holds s m' ((linkedContents s).withPages (kernelEnd / 2 ^ 21 + 1)) := by
  have hPages : (kernelEnd % 2 ^ 32 / 2 ^ 21 + 1) % 2 ^ 32 = kernelEnd / 2 ^ 21 + 1 := by omega
  have hSmall : ∀ i, linkedContents s .pde i < 2 ^ 32 ∧ linkedContents s .pde2mb i < 2 ^ 32 := by
    intro i
    simp [linkedContents, Contents.set]
  unfold bootMmapKernel
  rw [hPages]
  exact mmapKernel_holds (by omega) (by omega) hSmall (bootPageInit_holds h)

theorem bootTables_holds {kernelEnd : Nat} (hEnd : kernelEnd < 2 ^ 30)
    (h : Holds s m fun _ _ => 0) :
    ∃ m', bootTables s kernelEnd m 512 = some m' ∧
      Holds s m' (finalContents s (kernelEnd / 2 ^ 21 + 1)) := by
  obtain ⟨m1, hRun1, h1⟩ := bootMmapKernel_holds hEnd h
  obtain ⟨m2, hRun2, h2⟩ := unmap_holds (reuseTables_holds h1)
  refine ⟨m2, ?_, ?_⟩
  · unfold bootTables start64
    rw [hRun1, Option.bind_eq_bind, Option.bind_some, hRun2]
  · intro t i hi
    rw [h2 t i hi, final_eq s _ t hi]

/-! ## What they leave alone -/

/-- No word of the tables. -/
def Elsewhere (s : BootSymbols) (a : Nat) : Prop := ∀ t, ∀ i < 512, a ≠ s.address t + i * 8

section

variable {a : Nat}

theorem Elsewhere.movq (h : Elsewhere s a) (t : Table) {i : Nat} (hi : i < 512) (e : Nat) :
    LunarOS.movq m (s.address t + i * 8) e a = m a := Function.update_of_ne (h t i hi) ..

theorem Elsewhere.movl (h : Elsewhere s a) (t : Table) {i : Nat} (hi : i < 512) (e : Nat) :
    LunarOS.movl m (s.address t + i * 8) e a = m a := Function.update_of_ne (h t i hi) ..

theorem Elsewhere.bootPageInit (h : Elsewhere s a) : bootPageInit s m a = m a := by
  unfold LunarOS.bootPageInit
  rw [h.movl .pdpte2mb (i := 0) (by omega), h.movl .pdpte (i := 0) (by omega),
    h.movl .pml4 (i := 256) (by omega), h.movl .pml4 (i := 0) (by omega)]

theorem Elsewhere.reuseTables (h : Elsewhere s a) : reuseTables s m a = m a := by
  unfold LunarOS.reuseTables
  rw [h.movq .pml4 (i := 0) (by omega), h.movq .pde (i := 0) (by omega),
    h.movq .pdpte (i := 0) (by omega), h.movq .pml4 (i := 257) (by omega)]

theorem Elsewhere.bootMmapKernel {kernelEnd fuel : Nat} {m' : Nat → Nat} (h : Elsewhere s a)
    (hEnd : kernelEnd < 2 ^ 30) (hRun : bootMmapKernel s kernelEnd m fuel = some m') :
    m' a = m a := by
  refine Loop.post_of_invariant (fun p => p.1 < kernelEnd / 2 ^ 21 + 1 ∧ p.2 a = m a)
    (fun m' => m' a = m a) ?_ ?_ ⟨by dsimp only; omega, rfl⟩ hRun
  · rintro ⟨ecx, m1⟩ ⟨ecx', m2⟩ ⟨hLess, hSame⟩ hStep
    unfold mmapKernelStep at hStep
    dsimp only at hLess hSame hStep ⊢
    split at hStep
    · obtain ⟨rfl, rfl⟩ := Prod.mk.inj (Sum.inl.inj hStep)
      rw [h.movl .pde2mb (i := ecx) (by omega), h.movl .pde (i := ecx) (by omega)]
      exact ⟨by omega, hSame⟩
    · cases hStep
  · rintro ⟨ecx, m1⟩ m2 ⟨hLess, hSame⟩ hStep
    unfold mmapKernelStep at hStep
    dsimp only at hLess hSame hStep
    split at hStep
    · cases hStep
    · obtain rfl := Sum.inr.inj hStep
      rw [h.movl .pde2mb (i := ecx) (by omega), h.movl .pde (i := ecx) (by omega)]
      exact hSame

theorem Elsewhere.start64 {fuel : Nat} {m' : Nat → Nat} (h : Elsewhere s a)
    (hRun : start64 s m fuel = some m') : m' a = m a := by
  refine Loop.post_of_invariant (fun p => p.1 < 512 ∧ p.2 a = m a)
    (fun m' => m' a = m a) ?_ ?_ ⟨by dsimp only; omega, h.reuseTables⟩ hRun
  · rintro ⟨rcx, m1⟩ ⟨rcx', m2⟩ ⟨hLess, hSame⟩ hStep
    unfold unmapStep at hStep
    dsimp only at hLess hSame hStep ⊢
    rw [add64_eq (by unfold wordSize; omega)] at hStep
    split at hStep
    · obtain ⟨rfl, rfl⟩ := Prod.mk.inj (Sum.inl.inj hStep)
      rw [h.movq .pde (i := rcx) hLess]
      exact ⟨by omega, hSame⟩
    · cases hStep
  · rintro ⟨rcx, m1⟩ m2 ⟨hLess, hSame⟩ hStep
    unfold unmapStep at hStep
    dsimp only at hLess hSame hStep
    split at hStep
    · cases hStep
    · obtain rfl := Sum.inr.inj hStep
      rw [h.movq .pde (i := rcx) hLess]
      exact hSame

/-- The boot code writes nothing but its tables. -/
theorem Elsewhere.bootTables {kernelEnd fuel : Nat} {m' : Nat → Nat} (h : Elsewhere s a)
    (hEnd : kernelEnd < 2 ^ 30) (hRun : bootTables s kernelEnd m fuel = some m') : m' a = m a := by
  unfold LunarOS.bootTables at hRun
  obtain ⟨m1, hMap, hStart⟩ := Option.bind_eq_some_iff.mp hRun
  rw [h.start64 hStart, h.bootMmapKernel hEnd hMap, h.bootPageInit]

end

/-! ## The walk over them -/

theorem Holds.entry (h : Holds s m c) (t : Table) (level v : Nat) :
    m (s.address t + 8 * Paging.slot level v) = c t (Paging.slot level v) := by
  have hSlot : Paging.slot level v < 512 := Nat.mod_lt _ (by omega)
  rw [Nat.mul_comm 8, h t _ hSlot]

/-- A walk through an entry that links a table. -/
theorem Holds.walk_link (h : Holds s m c) (t next : Table) (level : Nat) {v : Nat}
    (hEntry : c t (Paging.slot (level + 1) v) = s.address next + 3) :
    Paging.walk m (level + 1) (s.address t) v = Paging.walk m level (s.address next) v := by
  have hLow := s.low next
  exact Paging.walk_table (s.aligned next) (by omega) (by omega) (by omega)
    ((h.entry t (level + 1) v).trans hEntry)

theorem Holds.walk_zero (h : Holds s m c) {t : Table} {level v : Nat}
    (hEntry : c t (Paging.slot level v) = 0) :
    Paging.walk m level (s.address t) v = none := by
  apply Paging.walk_absent
  rw [h.entry, hEntry]
  decide

/-- The tables below the top are those that the boot code leaves, whatever the window's is. -/
def BelowTop (s : BootSymbols) (n : Nat) (c : Contents) : Prop :=
  ∀ t, t ≠ .pml4 → t ≠ .pte → c t = finalContents s n t

/-- Behind PML4 entry 257 only the entries of `pte` lead on. -/
theorem walk_window {n : Nat} (h : Holds s m c) (hBelow : BelowTop s n c) (v : Nat) :
    Paging.walk m 2 (s.address .pdpte) v =
      if Paging.slot 2 v = 0 ∧ Paging.slot 1 v = 0
      then Paging.walk m 0 (s.address .pte) v else none := by
  have hPdpte := hBelow .pdpte (by decide) (by decide)
  have hPde := hBelow .pde (by decide) (by decide)
  by_cases hTwo : Paging.slot 2 v = 0
  · rw [h.walk_link .pdpte .pde 1 (by rw [hPdpte]; exact if_pos hTwo)]
    by_cases hOne : Paging.slot 1 v = 0
    · rw [h.walk_link .pde .pte 0 (by rw [hPde]; exact if_pos hOne), if_pos ⟨hTwo, hOne⟩]
    · rw [if_neg fun hBoth => hOne hBoth.2]
      exact h.walk_zero (by rw [hPde]; exact if_neg hOne)
  · rw [if_neg fun hBoth => hTwo hBoth.1]
    exact h.walk_zero (by rw [hPdpte]; exact if_neg hTwo)

/-- The tables of PML4 entry 256 map `n` pages of 2 MiB from physical address 0 on. -/
theorem walk_kernel {n : Nat} (hn : n ≤ 512) (h : Holds s m c) (hBelow : BelowTop s n c)
    (v : Nat) : Paging.walk m 2 (s.address .pdpte2mb) v =
      if Paging.slot 2 v = 0 ∧ Paging.slot 1 v < n
      then some (Paging.slot 1 v * 2 ^ 21 + v % 2 ^ 21) else none := by
  have hPdpte := hBelow .pdpte2mb (by decide) (by decide)
  have hPde := hBelow .pde2mb (by decide) (by decide)
  by_cases hTwo : Paging.slot 2 v = 0
  · rw [h.walk_link .pdpte2mb .pde2mb 1 (by rw [hPdpte]; exact if_pos hTwo)]
    by_cases hOne : Paging.slot 1 v < n
    · rw [if_pos ⟨hTwo, hOne⟩]
      have hEntry := (h.entry .pde2mb 1 v).trans ((congrFun hPde _).trans (if_pos hOne))
      exact Paging.walk_page 0 (by decide) (by unfold Paging.width; omega) (by decide)
        (by decide) (by decide) hEntry
    · rw [if_neg fun hBoth => hOne hBoth.2]
      exact h.walk_zero (by rw [hPde]; exact if_neg hOne)
  · rw [if_neg fun hBoth => hTwo hBoth.1]
    exact h.walk_zero (by rw [hPdpte]; exact if_neg hTwo)

/-- The walk from the top: only the addresses of the kernel's pages are translated. -/
theorem translate_eq {n : Nat} (hn : n ≤ 512) (h : Holds s m (finalContents s n)) (v : Nat) :
    Paging.translate m (s.address .pml4) v =
      if VMM_KERNEL_START ≤ v ∧ v < VMM_KERNEL_START + n * 2 ^ 21
      then some (v - VMM_KERNEL_START) else none := by
  unfold Paging.translate VMM_KERNEL_START
  by_cases hCanonical : Paging.Canonical v
  · rw [if_pos hCanonical]
    rcases hCanonical with hLower | ⟨hLow, hHigh⟩
    · have hSlot := Paging.slot_lower hLower
      rw [if_neg (by omega)]
      exact h.walk_zero ((if_neg (by omega)).trans (if_neg (by omega)))
    · have hSplit := Paging.upper_eq hLow hHigh
      have hThree : Paging.slot 3 v < 512 := Nat.mod_lt _ (by omega)
      have hTwo : Paging.slot 2 v < 512 := Nat.mod_lt _ (by omega)
      have hOne : Paging.slot 1 v < 512 := Nat.mod_lt _ (by omega)
      have hOffset : v % 2 ^ 21 < 2 ^ 21 := Nat.mod_lt _ (by omega)
      by_cases hKernel : Paging.slot 3 v = 256
      · rw [h.walk_link .pml4 .pdpte2mb 2 (if_pos hKernel), walk_kernel hn h fun _ _ _ => rfl]
        by_cases hPage : Paging.slot 2 v = 0 ∧ Paging.slot 1 v < n
        · rw [if_pos hPage, if_pos (by omega)]
          exact congrArg some (by omega)
        · rw [if_neg hPage, if_neg (by omega)]
      · rw [if_neg (by omega)]
        by_cases hWindow : Paging.slot 3 v = 257
        · rw [h.walk_link .pml4 .pdpte 2 ((if_neg hKernel).trans (if_pos hWindow)),
            walk_window h (n := n) fun _ _ _ => rfl, h.walk_zero rfl]
          exact ite_self none
        · exact h.walk_zero ((if_neg hKernel).trans (if_neg hWindow))
  · rw [if_neg hCanonical, if_neg]
    unfold Paging.Canonical at hCanonical
    omega

end

/-! ## The kernel's half -/

/-- The tables translate exactly the kernel's pages, as `vmm_virt2phys` does. -/
structure HigherHalf (s : BootSymbols) (m : Nat → Nat) (kernelEnd : Nat) : Prop where
  exact : ∀ v p, Paging.translate m (s.address .pml4) v = some p ↔
    v = VMM_KERNEL_START + p ∧ p < (kernelEnd / 2 ^ 21 + 1) * 2 ^ 21
  image : ∀ p < kernelEnd, Paging.translate m (s.address .pml4) (VMM_KERNEL_START + p) = some p
  software : ∀ v p, Paging.translate m (s.address .pml4) v = some p → vmmVirt2phys v = .ok p
  identity : ∀ v < 2 ^ 47, Paging.translate m (s.address .pml4) v = none
  /-- PML4 entry 257 leads through three present entries to a table without entries. -/
  window : m (s.address .pml4 + 257 * 8) = s.address .pdpte + 3 ∧
    m (s.address .pdpte) = s.address .pde + 3 ∧ m (s.address .pde) = s.address .pte + 3 ∧
    ∀ i < 512, m (s.address .pte + i * 8) = 0

theorem bootTables_higherHalf {s : BootSymbols} {m : Nat → Nat} {kernelEnd : Nat}
    (hEnd : kernelEnd < 2 ^ 30) (hZero : Holds s m fun _ _ => 0) :
    ∃ m' fuel, bootTables s kernelEnd m fuel = some m' ∧ HigherHalf s m' kernelEnd := by
  obtain ⟨m', hRun, h⟩ := bootTables_holds hEnd hZero
  have hTranslate := translate_eq (by omega) h
  have hExact : ∀ v p, Paging.translate m' (s.address .pml4) v = some p ↔
      v = VMM_KERNEL_START + p ∧ p < (kernelEnd / 2 ^ 21 + 1) * 2 ^ 21 := by
    intro v p
    rw [hTranslate]
    split
    · rw [Option.some.injEq]
      omega
    · simp only [reduceCtorEq, false_iff]
      omega
  refine ⟨m', 512, hRun, hExact, fun p hp => (hExact _ p).mpr ⟨rfl, by omega⟩, ?_, ?_, ?_⟩
  · intro v p hv
    obtain ⟨rfl, hp⟩ := (hExact v p).mp hv
    unfold vmmVirt2phys VMM_RESERVED_BOOT_START VMM_RESERVED_BOOT_END VMM_KERNEL_START
    rw [if_pos (by omega), sub64_eq (by omega) (by unfold wordSize; omega)]
    simp
  · intro v hv
    rw [hTranslate]
    unfold VMM_KERNEL_START
    exact if_neg (by omega)
  · exact ⟨h .pml4 257 (by omega), h .pdpte 0 (by omega), h .pde 0 (by omega), h .pte⟩

/-- The six pages one after the other. -/
def sampleSymbols : BootSymbols where
  address
    | .pml4 => 0x103000
    | .pdpte2mb => 0x104000
    | .pde2mb => 0x105000
    | .pdpte => 0x106000
    | .pde => 0x107000
    | .pte => 0x108000
  aligned t := by cases t <;> decide
  injective t t' h := by cases t <;> cases t' <;> first | rfl | simp at h
  low t := by cases t <;> decide

theorem bootTables_sample : ∃ m' fuel,
    bootTables sampleSymbols 0x180000 (fun _ => 0) fuel = some m' ∧
      HigherHalf sampleSymbols m' 0x180000 :=
  bootTables_higherHalf (by decide) fun _ _ _ => rfl

end LunarOS
