import Mathlib.Data.Int.Log
import Mathlib.Data.Rat.Floor
import Mathlib.Tactic.FieldSimp
import Mathlib.Tactic.Positivity

/-!
# Binary floating point

The finite values of a `Double` are rationals. `roundDouble` takes a rational to the nearest one
that 53 bits and the exponents of the format can hold, ties to even, and to an infinity beyond
the largest of them. Small integers are held exactly (`roundDouble_natCast`) and everything from
`2^1024` on is an infinity (`roundDouble_of_le`). The sign of a zero is left out.
-/

namespace LunarOS.Logic

inductive Double
  | finite (value : ℚ)
  | inf (negative : Bool)
  deriving DecidableEq

/-- The nearest integer, the even one of two. -/
def roundHalfEven (q : ℚ) : ℤ :=
  let f := ⌊q⌋
  if q - f < 1 / 2 then f
  else if 1 / 2 < q - f then f + 1
  else if f % 2 = 0 then f
  else f + 1

/-- The place of the last bit of a number of the size of `q`. -/
def lastPlace (q : ℚ) : ℤ := max (Int.log 2 q - 52) (-1074)

/-- The magnitude of the double nearest to a magnitude. -/
def roundMagnitude (q : ℚ) : ℚ := roundHalfEven (q / 2 ^ lastPlace q) * 2 ^ lastPlace q

def roundDouble (negative : Bool) (q : ℚ) : Double :=
  if 2 ^ 1024 ≤ roundMagnitude q then .inf negative
  else .finite (if negative then -roundMagnitude q else roundMagnitude q)

theorem roundHalfEven_intCast (n : ℤ) : roundHalfEven n = n := by
  have hHalf : (n : ℚ) - (n : ℚ) < 1 / 2 := by norm_num
  unfold roundHalfEven
  dsimp only
  rw [Int.floor_intCast, if_pos hHalf]

theorem le_roundHalfEven {n : ℤ} {q : ℚ} (h : n ≤ q) : n ≤ roundHalfEven q := by
  have hFloor : n ≤ ⌊q⌋ := Int.le_floor.mpr h
  unfold roundHalfEven
  dsimp only
  split
  · exact hFloor
  · split
    · omega
    · split <;> omega

/-- Integers below `2^53` are doubles. -/
theorem roundMagnitude_natCast {n : Nat} (h : n < 2 ^ 53) : roundMagnitude n = n := by
  have hLog : Nat.log 2 n ≤ 52 := by
    rcases Nat.eq_zero_or_pos n with rfl | hPos
    · simp
    · have := Nat.log_lt_of_lt_pow hPos.ne' h
      omega
  have hPlace : lastPlace n = -((52 - Nat.log 2 n : Nat) : ℤ) := by
    unfold lastPlace
    rw [Int.log_natCast]
    omega
  have hScaled : (n : ℚ) / 2 ^ lastPlace n = ((n * 2 ^ (52 - Nat.log 2 n) : Nat) : ℤ) := by
    rw [hPlace, zpow_neg, div_inv_eq_mul, zpow_natCast]
    push_cast
    rfl
  unfold roundMagnitude
  rw [hScaled, roundHalfEven_intCast, ← hScaled]
  exact div_mul_cancel₀ _ (zpow_ne_zero _ (by norm_num))

theorem roundDouble_natCast {n : Nat} (h : n < 2 ^ 53) : roundDouble false n = .finite n := by
  have hSmall : ¬ (2 ^ 1024 : ℚ) ≤ n := by
    rw [not_le]
    calc (n : ℚ) < 2 ^ 53 := by exact_mod_cast h
      _ ≤ 2 ^ 1024 := pow_le_pow_right₀ (by norm_num) (by norm_num)
  unfold roundDouble
  rw [roundMagnitude_natCast h, if_neg hSmall]
  rfl

/-- Too large for the format. -/
theorem roundDouble_of_le {q : ℚ} (negative : Bool) (h : 2 ^ 1024 ≤ q) :
    roundDouble negative q = .inf negative := by
  have hPos : 0 < q := lt_of_lt_of_le (by positivity) h
  have hCast : (2 : ℚ) ^ (1024 : ℤ) = 2 ^ 1024 := zpow_natCast 2 1024
  have hLog : 1024 ≤ Int.log 2 q :=
    (Int.zpow_le_iff_le_log (by norm_num) hPos).mp (by exact_mod_cast h)
  have hPlace : lastPlace q = Int.log 2 q - 52 := by
    unfold lastPlace
    omega
  have hBit : (0 : ℚ) < 2 ^ lastPlace q := zpow_pos (by norm_num) _
  have hBinade : (2 : ℚ) ^ Int.log 2 q ≤ q := Int.zpow_log_le_self (by norm_num) hPos
  -- the leading bit of the scaled number has place 52
  have hLead : ((2 ^ 52 : ℤ) : ℚ) * 2 ^ lastPlace q = 2 ^ Int.log 2 q := by
    calc ((2 ^ 52 : ℤ) : ℚ) * 2 ^ lastPlace q = 2 ^ (52 + lastPlace q) := by
          rw [zpow_add₀ (by norm_num)]
          norm_num
      _ = 2 ^ Int.log 2 q := by rw [hPlace, add_sub_cancel]
  have hScaled : ((2 ^ 52 : ℤ) : ℚ) ≤ q / 2 ^ lastPlace q := by
    rw [le_div_iff₀ hBit, hLead]
    exact hBinade
  have hRound : ((2 ^ 52 : ℤ) : ℚ) ≤ roundHalfEven (q / 2 ^ lastPlace q) := by
    exact_mod_cast le_roundHalfEven hScaled
  have hLarge : (2 ^ 1024 : ℚ) ≤ roundMagnitude q := by
    calc (2 ^ 1024 : ℚ) = 2 ^ (1024 : ℤ) := hCast.symm
      _ ≤ 2 ^ Int.log 2 q := zpow_le_zpow_right₀ (by norm_num) hLog
      _ = ((2 ^ 52 : ℤ) : ℚ) * 2 ^ lastPlace q := hLead.symm
      _ ≤ roundMagnitude q := mul_le_mul_of_nonneg_right hRound hBit.le
  exact if_pos hLarge

/-- A positive number with an exponent of four digits. -/
theorem roundDouble_exponent {m e : Nat} (negative : Bool) (hm : 0 < m) (he : 1000 ≤ e) :
    roundDouble negative (m * 10 ^ e) = .inf negative := by
  apply roundDouble_of_le
  have hNat (n : Nat) (h : n ≤ 3 * e) : 2 ^ n ≤ m * 10 ^ e :=
    calc 2 ^ n ≤ 2 ^ (3 * e) := Nat.pow_le_pow_right (by omega) h
      _ = (2 ^ 3) ^ e := Nat.pow_mul ..
      _ ≤ 10 ^ e := Nat.pow_le_pow_left (by omega) _
      _ ≤ m * 10 ^ e := Nat.le_mul_of_pos_left _ hm
  exact_mod_cast hNat 1024 (by omega)

end LunarOS.Logic
