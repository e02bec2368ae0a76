import LunarOS.Logic.Paging
import Mathlib.Data.Nat.Bitwise

/-!
# How an x86-64 processor gets into 64-bit mode

The control registers with the rules that a write to them has to keep, the descriptors of a
global descriptor table, and the far jump that loads one. A write or a jump that breaks a rule
is a fault. Without paging an address stands for itself, with paging it goes through the four
levels of long mode.
-/

namespace LunarOS.Logic.LongMode

inductive Trap
  | protection
  | notPresent
  | page (v : Nat)
  /-- Code of the other width is run. -/
  | width
  deriving DecidableEq, Repr

theorem ok_bind {α β : Type} (a : α) (f : α → Except Trap β) : (Except.ok a >>= f) = f a := rfl

theorem testBit_set_self (n i : Nat) : (n ||| 2 ^ i).testBit i = true := by
  rw [Nat.testBit_or, Nat.testBit_two_pow_self, Bool.or_true]

/-- The other bits are as they were. -/
theorem testBit_set {i j : Nat} (h : i ≠ j) (n : Nat) :
    (n ||| 2 ^ i).testBit j = n.testBit j := by
  rw [Nat.testBit_or, Nat.testBit_two_pow_of_ne h, Bool.or_false]

/-! ## Control registers -/

/-- Positions in `%cr0`, `%cr4` and `IA32_EFER`. -/
def PE : Nat := 0
def PG : Nat := 31
def PAE : Nat := 5
def LME : Nat := 8
def LMA : Nat := 10

structure Control where
  cr0 : Nat
  cr3 : Nat
  cr4 : Nat
  efer : Nat

namespace Control

def Paging (c : Control) : Prop := c.cr0.testBit PG = true

/-- Long mode is active. -/
def Active (c : Control) : Prop := c.efer.testBit LMA = true

instance (c : Control) : Decidable c.Paging := inferInstanceAs (Decidable (_ = _))
instance (c : Control) : Decidable c.Active := inferInstanceAs (Decidable (_ = _))

/-- A write outside 64-bit mode. Paging needs protected mode, and with `LME` also `PAE`; it
decides whether long mode is active. -/
def setCr0 (c : Control) (v : Nat) : Except Trap Control :=
  if v.testBit PG then
    if ¬ v.testBit PE then .error .protection
    else if c.Paging then .ok { c with cr0 := v }
    else if ¬ c.efer.testBit LME then .ok { c with cr0 := v }
    else if c.cr4.testBit PAE then .ok { c with cr0 := v, efer := c.efer ||| 2 ^ LMA }
    else .error .protection
  else if c.Active then .ok { c with cr0 := v, efer := c.efer ^^^ 2 ^ LMA }
  else .ok { c with cr0 := v }

/-- `PAE` stays as long as long mode is active. -/
def setCr4 (c : Control) (v : Nat) : Except Trap Control :=
  if c.Active ∧ ¬ v.testBit PAE then .error .protection else .ok { c with cr4 := v }

/-- `LME` cannot change under paging. `LMA` is not for software to change. -/
def setEfer (c : Control) (v : Nat) : Except Trap Control :=
  if c.Paging ∧ v.testBit LME ≠ c.efer.testBit LME then .error .protection
  else .ok { c with efer := if v.testBit LMA = c.efer.testBit LMA then v else v ^^^ 2 ^ LMA }

/-- The physical address of an access. -/
def translate (c : Control) (m : Nat → Nat) (v : Nat) : Option Nat :=
  if c.Paging then Paging.translate m c.cr3 v else some v

section

variable {c : Control} {v : Nat}

theorem translate_on (h : c.Paging) (m : Nat → Nat) (v : Nat) :
    c.translate m v = Paging.translate m c.cr3 v := if_pos h

theorem translate_off (h : ¬ c.Paging) (m : Nat → Nat) (v : Nat) :
    c.translate m v = some v := if_neg h

theorem setCr4_inactive (h : ¬ c.Active) (v : Nat) : c.setCr4 v = .ok { c with cr4 := v } :=
  if_neg fun hBoth => h hBoth.1

theorem setEfer_lme (h : ¬ c.Paging) :
    c.setEfer (c.efer ||| 2 ^ LME) = .ok { c with efer := c.efer ||| 2 ^ LME } := by
  have hKept : (c.efer ||| 2 ^ LME).testBit LMA = c.efer.testBit LMA :=
    testBit_set (by decide) c.efer
  unfold setEfer
  rw [if_neg fun hBoth => h hBoth.1, if_pos hKept]

/-- Switching paging on is what makes long mode active. -/
theorem setCr0_activates (h : ¬ c.Paging) (hPg : v.testBit PG = true) (hPe : v.testBit PE = true)
    (hLme : c.efer.testBit LME = true) (hPae : c.cr4.testBit PAE = true) :
    c.setCr0 v = .ok { c with cr0 := v, efer := c.efer ||| 2 ^ LMA } := by
  unfold setCr0
  rw [if_pos hPg, if_neg (not_not.mpr hPe), if_neg h, if_neg (not_not.mpr hLme), if_pos hPae]

/-- The order that enters long mode: `PAE` and `LME` before `PG`. -/
theorem activate {cr4 : Nat} (hPaging : ¬ c.Paging) (hActive : ¬ c.Active)
    (hPg : v.testBit PG = true) (hPe : v.testBit PE = true) (hPae : cr4.testBit PAE = true) :
    (do
      let c ← c.setCr4 cr4
      let c ← c.setEfer (c.efer ||| 2 ^ LME)
      c.setCr0 v) =
    .ok { c with cr0 := v, cr4 := cr4, efer := c.efer ||| 2 ^ LME ||| 2 ^ LMA } := by
  obtain ⟨cr0, cr3, cr4', efer⟩ := c
  have hLme : (efer ||| 2 ^ LME).testBit LME = true := testBit_set_self efer LME
  have hEfer : setEfer ⟨cr0, cr3, cr4, efer⟩ (efer ||| 2 ^ LME) =
      .ok ⟨cr0, cr3, cr4, efer ||| 2 ^ LME⟩ := setEfer_lme hPaging
  have hCr0 : setCr0 ⟨cr0, cr3, cr4, efer ||| 2 ^ LME⟩ v =
      .ok ⟨v, cr3, cr4, efer ||| 2 ^ LME ||| 2 ^ LMA⟩ :=
    setCr0_activates hPaging hPg hPe hLme hPae
  rw [setCr4_inactive hActive]
  change (setEfer ⟨cr0, cr3, cr4, efer⟩ (efer ||| 2 ^ LME) >>= fun c => c.setCr0 v) = _
  rw [hEfer]
  exact hCr0

end

end Control

/-! ## Descriptors -/

/-- The bits of a field in a descriptor. -/
def field (d start width : Nat) : Nat := d / 2 ^ start % 2 ^ width

def base (d : Nat) : Nat := field d 16 24 + field d 56 8 * 2 ^ 24

def limit (d : Nat) : Nat := field d 0 16 + field d 48 4 * 2 ^ 16

def access (d : Nat) : Nat := field d 40 8

def flags (d : Nat) : Nat := field d 52 4

/-- Bits of the access byte -/
def Present (d : Nat) : Prop := (access d).testBit 7 = true
def Code (d : Nat) : Prop := (access d).testBit 4 = true ∧ (access d).testBit 3 = true
def Conforming (d : Nat) : Prop := (access d).testBit 2 = true
def dpl (d : Nat) : Nat := access d / 2 ^ 5 % 4

/-- Flags -/
def Long (d : Nat) : Prop := (flags d).testBit 1 = true
def Big (d : Nat) : Prop := (flags d).testBit 2 = true

instance (d : Nat) : Decidable (Present d) := inferInstanceAs (Decidable (_ = _))
instance (d : Nat) : Decidable (Code d) := inferInstanceAs (Decidable (_ ∧ _))
instance (d : Nat) : Decidable (Conforming d) := inferInstanceAs (Decidable (_ = _))
instance (d : Nat) : Decidable (Long d) := inferInstanceAs (Decidable (_ = _))
instance (d : Nat) : Decidable (Big d) := inferInstanceAs (Decidable (_ = _))

/-- `%gdtr` -/
structure TableRegister where
  base : Nat
  limit : Nat

/-- What `%cs` holds besides the selector. -/
structure CodeSegment where
  descriptor : Nat
  cpl : Nat

/-- In long mode the segment decides between 64-bit and compatibility mode. -/
def SixtyFour (c : Control) (cs : CodeSegment) : Prop := c.Active ∧ Long cs.descriptor

instance (c : Control) (cs : CodeSegment) : Decidable (SixtyFour c cs) :=
  inferInstanceAs (Decidable (_ ∧ _))

/-- The privilege that a jump without a gate needs. -/
def Allowed (cpl rpl d : Nat) : Prop :=
  if Conforming d then dpl d ≤ cpl else rpl ≤ cpl ∧ dpl d = cpl

instance (cpl rpl d : Nat) : Decidable (Allowed cpl rpl d) :=
  inferInstanceAs (Decidable (if Conforming d then dpl d ≤ cpl else rpl ≤ cpl ∧ dpl d = cpl))

/-- The descriptor that a jump loads, with the checks in the processor's order. -/
def loadCode (c : Control) (cpl rpl d : Nat) : Except Trap CodeSegment :=
  if ¬ Code d then .error .protection
  else if c.Active ∧ Long d ∧ Big d then .error .protection
  else if ¬ Allowed cpl rpl d then .error .protection
  else if ¬ Present d then .error .notPresent
  else .ok ⟨d, cpl⟩

/-- A far jump to a selector of the global table: the segment, and the memory with the
descriptor marked as accessed. -/
def farJump (c : Control) (gdtr : TableRegister) (cs : CodeSegment) (m : Nat → Nat)
    (selector : Nat) : Except Trap (CodeSegment × (Nat → Nat)) :=
  let offset := selector / 8 * 8
  if offset = 0 ∨ selector / 4 % 2 = 1 ∨ gdtr.limit < offset + 7 then .error .protection
  else match c.translate m (gdtr.base + offset) with
    | none => .error (.page (gdtr.base + offset))
    | some p => (loadCode c cs.cpl (selector % 4) (m p)).map fun cs =>
        (cs, Function.update m p (m p ||| 2 ^ 40))

section

variable {c : Control} {cpl rpl d : Nat}

theorem loadCode_ok (hCode : Code d) (hWidth : ¬ (c.Active ∧ Long d ∧ Big d))
    (hAllowed : Allowed cpl rpl d) (hPresent : Present d) :
    loadCode c cpl rpl d = .ok ⟨d, cpl⟩ := by
  unfold loadCode
  rw [if_neg (not_not.mpr hCode), if_neg hWidth, if_neg (not_not.mpr hAllowed),
    if_neg (not_not.mpr hPresent)]

theorem loadCode_eq_ok {cs : CodeSegment} : loadCode c cpl rpl d = .ok cs ↔
    (Code d ∧ ¬ (c.Active ∧ Long d ∧ Big d) ∧ Allowed cpl rpl d ∧ Present d) ∧
      cs = ⟨d, cpl⟩ := by
  constructor
  · intro h
    unfold loadCode at h
    split at h
    · cases h
    · next hCode =>
      split at h
      · cases h
      · next hWidth =>
        split at h
        · cases h
        · next hAllowed =>
          split at h
          · cases h
          · next hPresent =>
            exact ⟨⟨not_not.mp hCode, hWidth, not_not.mp hAllowed, not_not.mp hPresent⟩,
              (Except.ok.inj h).symm⟩
  · rintro ⟨⟨hCode, hWidth, hAllowed, hPresent⟩, rfl⟩
    exact loadCode_ok hCode hWidth hAllowed hPresent

theorem farJump_eq {gdtr : TableRegister} {cs : CodeSegment} {m : Nat → Nat} {selector p : Nat}
    (hOffset : selector / 8 * 8 ≠ 0) (hTable : selector / 4 % 2 = 0)
    (hLimit : selector / 8 * 8 + 7 ≤ gdtr.limit)
    (hAddress : c.translate m (gdtr.base + selector / 8 * 8) = some p) :
    farJump c gdtr cs m selector = (loadCode c cs.cpl (selector % 4) (m p)).map fun cs =>
      (cs, Function.update m p (m p ||| 2 ^ 40)) := by
  unfold farJump
  dsimp only
  rw [if_neg (by omega), hAddress]

end

end LunarOS.Logic.LongMode
