import Mathlib.Data.List.Range
import LunarOS.Logic.MemoryType
import LunarOS.Vmm.Map

/-!
# Memory typing (`cpu.c`, `x86.h`)

`cpu_setupmem` makes all memory write-back and clears the variable ranges, so that the bits that
`vmm_assign_map` sets in an entry decide by themselves (`pageType_eq`). It clears ten pairs of
range registers, whatever the number that the processor has (`cpuSetupmem_iff`).
-/

namespace LunarOS

open Logic MemoryType

/-! ## Model-specific registers -/

def IA32_APIC_BASE : Nat := 27
def IA32_MTRRCAP : Nat := 254
def IA32_MTRR_PHYBASE (n : Nat) : Nat := 512 + 2 * n
def IA32_MTRR_PHYSMASK (n : Nat) : Nat := 513 + 2 * n
def IA32_PAT : Nat := 631
def IA32_MTRR_DEF_TYPE : Nat := 767

def MTRR_ENABLE_WB : Nat := 2054

/-- Registers of 64 bits by their number. -/
abbrev Msrs := Nat → Nat

/-- Pairs of variable range registers that the processor has; there are numbers for 40. -/
def vcnt (msrs : Msrs) : Nat := min (msrs IA32_MTRRCAP % 2 ^ 8) 40

/-- The numbers 512 to 591 are those of variable ranges. -/
def Implemented (msrs : Msrs) (reg : Nat) : Prop :=
  512 ≤ reg → reg < 592 → (reg - 512) / 2 < vcnt msrs

instance (msrs : Msrs) (reg : Nat) : Decidable (Implemented msrs reg) :=
  inferInstanceAs (Decidable (_ → _))

/-- The two halves. -/
def rdmsr (msrs : Msrs) (reg : Nat) : Nat × Nat := (msrs reg % 2 ^ 32, msrs reg / 2 ^ 32 % 2 ^ 32)

/-- A general protection fault when there is no such register. The mask of the upper half is
applied without a shift, and `ind` keeps 32 bits of the result. -/
def wrmsr (msrs : Msrs) (reg val : Nat) : Option Msrs :=
  let ina := val &&& 0xFFFFFFFF
  let ind := (val &&& (0xFFFFFFFF * 2 ^ 32)) % 2 ^ 32
  if Implemented msrs reg then some (Function.update msrs reg (ind * 2 ^ 32 + ina)) else none

/-- The writes of `cpu_setupmem` in order. -/
def setupmemWrites : List (Nat × Nat) :=
  (IA32_MTRR_DEF_TYPE, MTRR_ENABLE_WB) ::
    (List.range 10).flatMap fun n => [(IA32_MTRR_PHYBASE n, 0), (IA32_MTRR_PHYSMASK n, 0)]

def wrmsrs (msrs : Msrs) (writes : List (Nat × Nat)) : Option Msrs :=
  writes.foldlM (fun msrs w => wrmsr msrs w.1 w.2) msrs

def cpuSetupmem (msrs : Msrs) : Option Msrs := wrmsrs msrs setupmemWrites

/-! ### Writes -/

/-- What is written is the lower half, whatever the upper one. -/
theorem wrmsr_eq {msrs : Msrs} {reg : Nat} (h : Implemented msrs reg) (val : Nat) :
    wrmsr msrs reg val = some (Function.update msrs reg (val % 2 ^ 32)) := by
  have hLow : val &&& 0xFFFFFFFF = val % 2 ^ 32 := Nat.and_two_pow_sub_one_eq_mod val 32
  have hHigh : (val &&& (0xFFFFFFFF * 2 ^ 32)) % 2 ^ 32 = 0 := by
    apply Nat.eq_of_testBit_eq
    intro i
    rw [Nat.testBit_mod_two_pow, Nat.testBit_and, Nat.testBit_mul_two_pow]
    by_cases hi : i < 32
    · simp [Nat.not_le.mpr hi]
    · simp [hi]
  unfold wrmsr
  rw [if_pos h, hLow, hHigh, Nat.zero_mul, Nat.zero_add]

theorem wrmsr_none {msrs : Msrs} {reg : Nat} (h : ¬ Implemented msrs reg) (val : Nat) :
    wrmsr msrs reg val = none := if_neg h

/-- Writes that leave the capability register alone do not change which registers there are. -/
theorem implemented_update {msrs : Msrs} {reg reg' v : Nat} (hCap : reg ≠ IA32_MTRRCAP) :
    Implemented (Function.update msrs reg v) reg' ↔ Implemented msrs reg' := by
  unfold Implemented vcnt
  rw [Function.update_of_ne hCap.symm]

theorem wrmsrs_iff {writes : List (Nat × Nat)} (hCap : ∀ w ∈ writes, w.1 ≠ IA32_MTRRCAP)
    (msrs : Msrs) : (wrmsrs msrs writes).isSome ↔ ∀ w ∈ writes, Implemented msrs w.1 := by
  induction writes generalizing msrs with
  | nil => simp [wrmsrs]
  | cons w writes ih =>
    have hRest : ∀ w' ∈ writes, w'.1 ≠ IA32_MTRRCAP := fun w' h => hCap w' (List.mem_cons_of_mem w h)
    by_cases hReg : Implemented msrs w.1
    · have hStep : wrmsrs msrs (w :: writes) =
          wrmsrs (Function.update msrs w.1 (w.2 % 2 ^ 32)) writes := by
        unfold wrmsrs
        rw [List.foldlM_cons, wrmsr_eq hReg]
        rfl
      rw [hStep, ih hRest, List.forall_mem_cons]
      simp only [implemented_update (hCap w List.mem_cons_self), hReg, true_and]
    · have hStep : wrmsrs msrs (w :: writes) = none := by
        unfold wrmsrs
        rw [List.foldlM_cons, wrmsr_none hReg]
        rfl
      rw [hStep, List.forall_mem_cons]
      simp only [Option.isSome_none, Bool.false_eq_true, hReg, false_and]

/-- The last write to a register is what it holds. -/
theorem wrmsrs_apply {writes : List (Nat × Nat)} {msrs msrs' : Msrs}
    (hRun : wrmsrs msrs writes = some msrs') (reg : Nat) :
    (reg ∉ writes.map Prod.fst → msrs' reg = msrs reg) ∧
      ∀ v, (∀ w ∈ writes, w.1 = reg → w.2 % 2 ^ 32 = v) → reg ∈ writes.map Prod.fst →
        msrs' reg = v := by
  induction writes generalizing msrs with
  | nil =>
    obtain rfl := Option.some.inj hRun
    exact ⟨fun _ => rfl, fun v _ hMem => absurd hMem List.not_mem_nil⟩
  | cons w writes ih =>
    unfold wrmsrs at hRun
    rw [List.foldlM_cons] at hRun
    obtain ⟨next, hFirst, hRest⟩ := Option.bind_eq_some_iff.mp hRun
    obtain ⟨hOther, hLast⟩ := ih hRest
    by_cases hReg : Implemented msrs w.1
    · rw [wrmsr_eq hReg] at hFirst
      obtain rfl := Option.some.inj hFirst
      rw [List.map_cons]
      constructor
      · intro hNot
        rw [List.mem_cons, not_or] at hNot
        rw [hOther hNot.2, Function.update_of_ne hNot.1]
      · intro v hValue hMem
        by_cases hLater : reg ∈ writes.map Prod.fst
        · exact hLast v (fun w' h => hValue w' (List.mem_cons_of_mem w h)) hLater
        · rcases List.mem_cons.mp hMem with rfl | hMem
          · rw [hOther hLater, Function.update_self]
            exact hValue w List.mem_cons_self rfl
          · exact absurd hMem hLater
    · rw [wrmsr_none hReg] at hFirst
      cases hFirst

/-! ### The writes of `cpu_setupmem` -/

theorem mem_setupmem {w : Nat × Nat} : w ∈ setupmemWrites ↔
    w = (IA32_MTRR_DEF_TYPE, MTRR_ENABLE_WB) ∨
      ∃ n < 10, w = (IA32_MTRR_PHYBASE n, 0) ∨ w = (IA32_MTRR_PHYSMASK n, 0) := by
  unfold setupmemWrites
  simp only [List.mem_cons, List.mem_flatMap, List.mem_range, List.not_mem_nil, or_false]

theorem mem_setupmem_fst {reg : Nat} : reg ∈ setupmemWrites.map Prod.fst ↔
    reg = IA32_MTRR_DEF_TYPE ∨ ∃ n < 10, reg = IA32_MTRR_PHYBASE n ∨ reg = IA32_MTRR_PHYSMASK n := by
  rw [List.mem_map]
  constructor
  · rintro ⟨w, hw, rfl⟩
    rcases mem_setupmem.mp hw with rfl | ⟨n, hn, rfl | rfl⟩
    · exact .inl rfl
    · exact .inr ⟨n, hn, .inl rfl⟩
    · exact .inr ⟨n, hn, .inr rfl⟩
  · rintro (rfl | ⟨n, hn, rfl | rfl⟩)
    · exact ⟨_, mem_setupmem.mpr (.inl rfl), rfl⟩
    · exact ⟨_, mem_setupmem.mpr (.inr ⟨n, hn, .inl rfl⟩), rfl⟩
    · exact ⟨_, mem_setupmem.mpr (.inr ⟨n, hn, .inr rfl⟩), rfl⟩

/-- `cpu_setupmem` writes only to the default register and to twenty range registers. -/
theorem setupmem_range {w : Nat × Nat} (hw : w ∈ setupmemWrites) :
    w.1 = IA32_MTRR_DEF_TYPE ∧ w.2 = MTRR_ENABLE_WB ∨ 512 ≤ w.1 ∧ w.1 < 532 ∧ w.2 = 0 := by
  rcases mem_setupmem.mp hw with rfl | ⟨n, hn, rfl | rfl⟩
  · exact .inl ⟨rfl, rfl⟩
  · unfold IA32_MTRR_PHYBASE
    exact .inr ⟨by omega, by omega, rfl⟩
  · unfold IA32_MTRR_PHYSMASK
    exact .inr ⟨by omega, by omega, rfl⟩

theorem setupmem_not_cap {w : Nat × Nat} (hw : w ∈ setupmemWrites) : w.1 ≠ IA32_MTRRCAP := by
  unfold IA32_MTRRCAP
  rcases setupmem_range hw with ⟨hDefault, -⟩ | ⟨hGe, -, -⟩
  · rw [hDefault]
    decide
  · omega

/-- A processor with fewer than ten pairs faults. -/
theorem cpuSetupmem_iff (msrs : Msrs) : (cpuSetupmem msrs).isSome ↔ 10 ≤ vcnt msrs := by
  unfold cpuSetupmem
  rw [wrmsrs_iff fun w hw => setupmem_not_cap hw]
  constructor
  · intro h
    have hLast := h _ (mem_setupmem.mpr (.inr ⟨9, by omega, .inl rfl⟩))
    unfold Implemented IA32_MTRR_PHYBASE at hLast
    have := hLast (by omega) (by omega)
    omega
  · intro h w hw
    rcases setupmem_range hw with ⟨hDefault, -⟩ | ⟨hGe, hLt, -⟩
    · rw [hDefault]
      intro _ hLess
      exact absurd hLess (by decide)
    · intro _ _
      omega

section

variable {msrs msrs' : Msrs}

theorem cpuSetupmem_default (hRun : cpuSetupmem msrs = some msrs') :
    msrs' IA32_MTRR_DEF_TYPE = MTRR_ENABLE_WB := by
  apply (wrmsrs_apply hRun _).2
  · intro w hw hReg
    rcases setupmem_range hw with ⟨-, hValue⟩ | ⟨-, hLt, -⟩
    · rw [hValue]
      rfl
    · rw [hReg] at hLt
      exact absurd hLt (by decide)
  · exact mem_setupmem_fst.mpr (.inl rfl)

theorem cpuSetupmem_cleared (hRun : cpuSetupmem msrs = some msrs') {n : Nat} (hn : n < 10) :
    msrs' (IA32_MTRR_PHYSMASK n) = 0 := by
  apply (wrmsrs_apply hRun _).2
  · intro w hw hReg
    rcases setupmem_range hw with ⟨hDefault, -⟩ | ⟨-, -, hValue⟩
    · rw [hReg] at hDefault
      unfold IA32_MTRR_PHYSMASK IA32_MTRR_DEF_TYPE at hDefault
      omega
    · rw [hValue, Nat.zero_mod]
  · exact mem_setupmem_fst.mpr (.inr ⟨n, hn, .inr rfl⟩)

/-- No other register changes. -/
theorem cpuSetupmem_other (hRun : cpuSetupmem msrs = some msrs') {reg : Nat}
    (hDefault : reg ≠ IA32_MTRR_DEF_TYPE) (hRange : ¬ (512 ≤ reg ∧ reg < 532)) :
    msrs' reg = msrs reg := by
  apply (wrmsrs_apply hRun reg).1
  intro hMem
  obtain ⟨w, hw, rfl⟩ := List.mem_map.mp hMem
  rcases setupmem_range hw with ⟨hReg, -⟩ | ⟨hGe, hLt, -⟩
  · exact hDefault hReg
  · exact hRange ⟨hGe, hLt⟩

end

/-! ## What the processor makes of them -/

/-- Fixed ranges of 64, 16 and 4 KiB, eight in a register. -/
def fixedKind (msrs : Msrs) (a : Nat) : Option Kind :=
  let entry reg i := Kind.ofRange? (msrs reg / 2 ^ (8 * i) % 2 ^ 8)
  if a < 0x80000 then entry 0x250 (a / 0x10000)
  else if a < 0xC0000 then entry (0x258 + (a - 0x80000) / 0x20000) ((a - 0x80000) / 0x4000 % 8)
  else entry (0x268 + (a - 0xC0000) / 0x8000) ((a - 0xC0000) / 0x1000 % 8)

def mtrrRange (msrs : Msrs) (n : Nat) : Range :=
  ⟨msrs (IA32_MTRR_PHYBASE n), msrs (IA32_MTRR_PHYSMASK n)⟩

def mtrrs (msrs : Msrs) : Mtrrs where
  default := msrs IA32_MTRR_DEF_TYPE
  fixed := fixedKind msrs
  ranges := (List.range (vcnt msrs)).map (mtrrRange msrs)

/-- The type of the page that an entry of a last-level table maps. -/
def pageType (msrs : Msrs) (pmax e : Nat) : Option Kind := do
  let range ← (mtrrs msrs).typeOf pmax (e / PGSIZE % 2 ^ 40 * PGSIZE)
  let page ← patEntry (msrs IA32_PAT) (patIndex e)
  pure (effective range page)

/-- In no range from the eleventh on. -/
def Ranged10 (msrs : Msrs) (pmax a : Nat) : Prop :=
  ∀ n, 10 ≤ n → n < vcnt msrs → (mtrrRange msrs n).Valid → ¬ (mtrrRange msrs n).Matches pmax a

/-- The type that is asked for. -/
def Ppt.kind : Ppt → Kind
  | .uc => .uc
  | .wc => .wc
  | .wt => .wt
  | .wb => .wb
  | .wp => .wp

section

variable {msrs msrs' : Msrs}

/-- Whatever the ranges were, memory is write-back where no further range is. -/
theorem cpuSetupmem_writeBack (hRun : cpuSetupmem msrs = some msrs') {pmax a : Nat}
    (h : Ranged10 msrs pmax a) : (mtrrs msrs').typeOf pmax a = some .wb := by
  have hDefault : (mtrrs msrs').default = MTRR_ENABLE_WB := cpuSetupmem_default hRun
  have hCap : vcnt msrs' = vcnt msrs := by
    unfold vcnt
    rw [cpuSetupmem_other hRun (by decide) (by decide)]
  rw [Mtrrs.typeOf_default]
  · rw [hDefault]
    decide
  · rw [hDefault]
    decide
  · rw [hDefault]
    decide
  · intro r hr hValid
    obtain ⟨n, hn, rfl⟩ := List.mem_map.mp hr
    rw [List.mem_range, hCap] at hn
    by_cases hTen : n < 10
    · unfold Range.Valid mtrrRange at hValid
      dsimp only at hValid
      rw [cpuSetupmem_cleared hRun hTen] at hValid
      exact absurd hValid (by decide)
    · have hSame : mtrrRange msrs' n = mtrrRange msrs n := by
        have hPairs : n < 40 := by
          unfold vcnt at hn
          omega
        unfold mtrrRange IA32_MTRR_PHYBASE IA32_MTRR_PHYSMASK
        rw [cpuSetupmem_other hRun, cpuSetupmem_other hRun]
        · unfold IA32_MTRR_DEF_TYPE
          omega
        · omega
        · unfold IA32_MTRR_DEF_TYPE
          omega
        · omega
      rw [hSame] at hValid ⊢
      exact h n (by omega) hn hValid

/-- The three bits of an entry are those of its memory type. -/
theorem patIndex_entryOf (addr : Nat) {bits : Nat} (hBits : bits = 0 ∨ bits = 8 ∨ bits = 152) :
    patIndex (entryOf addr bits) = patIndex bits := by
  have hFlags : (3 ||| bits) / 2 ^ 3 % 2 = bits / 2 ^ 3 % 2 ∧
      (3 ||| bits) / 2 ^ 4 % 2 = bits / 2 ^ 4 % 2 ∧
        (3 ||| bits) / 2 ^ 7 % 2 = bits / 2 ^ 7 % 2 ∧ 3 ||| bits < 2 ^ 12 := by
    rcases hBits with rfl | rfl | rfl <;> decide
  unfold patIndex entryOf PGSIZE
  omega

/-- The page table's selection is the effective type. -/
theorem pageType_eq (hRun : cpuSetupmem msrs = some msrs') {pmax addr type bits : Nat}
    (hType : memoryType type = .ok bits)
    (h : Ranged10 msrs pmax (addr / PGSIZE % 2 ^ 40 * PGSIZE)) :
    pageType msrs' pmax (entryOf addr bits) =
      (patEntry (msrs IA32_PAT) (patIndex bits)).map (effective .wb) := by
  have hBits := memoryType_bits hType
  have hPat : msrs' IA32_PAT = msrs IA32_PAT := cpuSetupmem_other hRun (by decide) (by decide)
  unfold pageType
  rw [(entryOf_present addr hBits).2, cpuSetupmem_writeBack hRun h, hPat, patIndex_entryOf addr hBits]
  cases patEntry (msrs IA32_PAT) (patIndex bits) with
  | none => rfl
  | some page => rfl

end

/-- A request in its encoding, and what becomes of it with the reset value of the PAT. -/
def granted : Ppt → Kind
  | .uc => .uc
  | .wt => .wt
  | .wc => .wb
  | .wp => .wb
  | .wb => .wb

theorem granted_of_type {type bits : Nat} (h : memoryType type = .ok bits) :
    ∃ ppt, Ppt.ofNat? type = some ppt ∧
      (patEntry patReset (patIndex bits)).map (effective .wb) = some (granted ppt) := by
  unfold memoryType at h
  cases hPpt : Ppt.ofNat? type with
  | none =>
    rw [hPpt] at h
    cases h
  | some ppt =>
    rw [hPpt] at h
    refine ⟨ppt, rfl, ?_⟩
    cases ppt <;> (obtain rfl := Except.ok.inj h; decide)

/-- What `cpu_setupmem` is for: the type of a page is the one its entry selects. With the PAT
as after a reset, that is what was asked for unless it was `PPT_WC` or `PPT_WP`. -/
structure MemoryTyping (msrs msrs' : Msrs) (pmax : Nat) : Prop where
  writeBack : ∀ a, Ranged10 msrs pmax a → (mtrrs msrs').typeOf pmax a = some .wb
  page : ∀ addr type bits, memoryType type = .ok bits →
    Ranged10 msrs pmax (addr / PGSIZE % 2 ^ 40 * PGSIZE) →
      pageType msrs' pmax (entryOf addr bits) =
        (patEntry (msrs IA32_PAT) (patIndex bits)).map (effective .wb)
  reset : msrs IA32_PAT = patReset → ∀ addr type bits, memoryType type = .ok bits →
    Ranged10 msrs pmax (addr / PGSIZE % 2 ^ 40 * PGSIZE) →
      ∃ ppt, Ppt.ofNat? type = some ppt ∧
        pageType msrs' pmax (entryOf addr bits) = some (granted ppt) ∧
          (granted ppt = ppt.kind ↔ ppt ≠ .wc ∧ ppt ≠ .wp)

theorem cpuSetupmem_typing (msrs : Msrs) : ((cpuSetupmem msrs).isSome ↔ 10 ≤ vcnt msrs) ∧
    ∀ msrs', cpuSetupmem msrs = some msrs' → ∀ pmax, MemoryTyping msrs msrs' pmax := by
  refine ⟨cpuSetupmem_iff msrs, fun msrs' hRun pmax => ?_⟩
  constructor
  · intro a h
    exact cpuSetupmem_writeBack hRun h
  · intro addr type bits hType h
    exact pageType_eq hRun hType h
  · intro hReset addr type bits hType h
    obtain ⟨ppt, hPpt, hGranted⟩ := granted_of_type hType
    refine ⟨ppt, hPpt, ?_, ?_⟩
    · rw [pageType_eq hRun hType h, hReset]
      exact hGranted
    · cases ppt <;> decide

end LunarOS
