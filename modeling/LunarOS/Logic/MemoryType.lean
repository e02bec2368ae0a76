import Mathlib.Data.List.Basic
import Mathlib.Data.Nat.Bitwise
import Mathlib.Tactic.Cases

/-!
# Memory types of an x86-64 processor

Two mechanisms say how an access is cached: range registers by physical address (MTRRs) and a
table of eight types (PAT) that three bits of a page table entry select from. The effective type
is made of both.
-/

namespace LunarOS.Logic.MemoryType

inductive Kind
  | uc | wc | wt | wp | wb | ucMinus
  deriving DecidableEq, Repr

/-- The encodings that are not reserved. -/
def Kind.ofNat? : Nat → Option Kind
  | 0 => some .uc
  | 1 => some .wc
  | 4 => some .wt
  | 5 => some .wp
  | 6 => some .wb
  | 7 => some .ucMinus
  | _ => none

/-- A range register has no encoding for `ucMinus`. -/
def Kind.ofRange? (n : Nat) : Option Kind := (Kind.ofNat? n).filter (· ≠ .ucMinus)

/-! ## Range registers -/

/-- A pair of variable range registers. -/
structure Range where
  base : Nat
  mask : Nat

namespace Range

/-- Bit 11 of the mask register -/
def Valid (r : Range) : Prop := r.mask / 2 ^ 11 % 2 = 1

/-- Bits 12 to `pmax - 1` -/
def field (pmax x : Nat) : Nat := x / 2 ^ 12 % 2 ^ (pmax - 12)

def Matches (pmax : Nat) (r : Range) (a : Nat) : Prop :=
  field pmax a &&& field pmax r.mask = field pmax r.base &&& field pmax r.mask

def kind (r : Range) : Option Kind := Kind.ofRange? (r.base % 2 ^ 8)

instance (r : Range) : Decidable r.Valid := inferInstanceAs (Decidable (_ = _))
instance (pmax : Nat) (r : Range) (a : Nat) : Decidable (r.Matches pmax a) :=
  inferInstanceAs (Decidable (_ = _))

end Range

/-- The default register, the fixed ranges below 1 MiB by address, and the variable ranges. -/
structure Mtrrs where
  default : Nat
  fixed : Nat → Option Kind
  ranges : List Range

/-- Two ranges that overlap: equal types stay, `uc` wins, `wt` wins over `wb`, and nothing else
is defined. -/
def overlap (k k' : Option Kind) : Option Kind :=
  if k = k' then k
  else if k = some .uc ∨ k' = some .uc then some .uc
  else if (k = some .wt ∨ k' = some .wt) ∧ (k = some .wb ∨ k' = some .wb) then some .wt
  else none

namespace Mtrrs

/-- The variable ranges that an address is in. -/
def covering (t : Mtrrs) (pmax a : Nat) : List Range :=
  t.ranges.filter fun r => r.Valid ∧ r.Matches pmax a

/-- Bit 11 of the default register enables all ranges, bit 10 the fixed ones. -/
def typeOf (t : Mtrrs) (pmax a : Nat) : Option Kind :=
  if t.default / 2 ^ 11 % 2 ≠ 1 then some .uc
  else if t.default / 2 ^ 10 % 2 = 1 ∧ a < 2 ^ 20 then t.fixed a
  else
    match t.covering pmax a with
    | [] => Kind.ofRange? (t.default % 2 ^ 8)
    | r :: rs => rs.foldl (fun k r => overlap k r.kind) r.kind

/-- Where no valid range matches the default type holds. -/
theorem typeOf_default {t : Mtrrs} {pmax a : Nat} (hEnabled : t.default / 2 ^ 11 % 2 = 1)
    (hFixed : t.default / 2 ^ 10 % 2 ≠ 1)
    (hNone : ∀ r ∈ t.ranges, r.Valid → ¬ r.Matches pmax a) :
    t.typeOf pmax a = Kind.ofRange? (t.default % 2 ^ 8) := by
  have hCovering : t.covering pmax a = [] := by
    apply List.filter_eq_nil_iff.mpr
    intro r hr hBoth
    obtain ⟨hValid, hMatches⟩ := of_decide_eq_true hBoth
    exact hNone r hr hValid hMatches
  unfold typeOf
  rw [if_neg (not_not.mpr hEnabled), if_neg fun h => hFixed h.1, hCovering]

end Mtrrs

/-! ## The page attribute table -/

/-- Entry `i` of the table. -/
def patEntry (pat i : Nat) : Option Kind := Kind.ofNat? (pat / 2 ^ (8 * i) % 8)

/-- What an entry of a last-level table selects: bit 3, bit 4 and bit 7. -/
def patIndex (e : Nat) : Nat := e / 2 ^ 3 % 2 + 2 * (e / 2 ^ 4 % 2) + 4 * (e / 2 ^ 7 % 2)

/-- The table after a reset: WB, WT, UC-, UC, and the same again. -/
def patReset : Nat := 0x0007040600070406

/-- The type of the ranges against the one of the page. -/
def effective : Kind → Kind → Kind
  | _, .uc => .uc
  | _, .wc => .wc
  | .uc, _ => .uc
  | .wc, .ucMinus => .wc
  | .wc, .wb => .wc
  | .wc, _ => .uc
  | .wt, .ucMinus => .uc
  | .wt, .wp => .wp
  | .wt, _ => .wt
  | .wp, .ucMinus => .wc
  | .wp, .wt => .wt
  | .wp, _ => .wp
  | .wb, .ucMinus => .uc
  | .wb, k => k
  | .ucMinus, _ => .uc

end LunarOS.Logic.MemoryType
