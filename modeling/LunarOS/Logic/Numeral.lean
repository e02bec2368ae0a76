import Mathlib.Algebra.Group.Nat.Defs
import Mathlib.Data.List.Induction
import Mathlib.Data.Nat.Log

/-!
# Numbers written with digits

A character stands for a digit of a base up to 16 (`digitOf`), small and capital letters alike,
and `readDigits` is the number that a list of characters writes. `Numeral base n cs` says that
`cs` is the number `n` in the base, written without leading zeros. `Nat.toDigits` gives one for
every number (`numeral_toDigits`), so the digits of two numbers differ (`toDigits_inj`).
-/

namespace LunarOS.Logic

/-- The value of a digit, and 16 for what is none. -/
def digitOf (c : Char) : Nat :=
  if '0' ≤ c ∧ c ≤ '9' then c.toNat - '0'.toNat
  else if 'a' ≤ c ∧ c ≤ 'f' then c.toNat - 'a'.toNat + 10
  else if 'A' ≤ c ∧ c ≤ 'F' then c.toNat - 'A'.toNat + 10
  else 16

/-- The number that the characters write after `n`. -/
def readOn (base n : Nat) (cs : List Char) : Nat :=
  cs.foldl (fun n c => n * base + digitOf c) n

def readDigits (base : Nat) (cs : List Char) : Nat := readOn base 0 cs

structure Numeral (base n : Nat) (cs : List Char) : Prop where
  digits : ∀ c ∈ cs, digitOf c < base
  reads : readDigits base cs = n
  ne_nil : cs ≠ []
  lead : cs.head? = some '0' → cs = ['0']

theorem Numeral.not_mem {base n : Nat} {cs : List Char} (h : Numeral base n cs) (hLow : base ≤ 16)
    {c : Char} (hc : digitOf c = 16) : c ∉ cs := by
  intro hMem
  have hDigit := h.digits c hMem
  omega

/-! ## Reading -/

theorem digitOf_digitChar {d : Nat} (h : d < 16) : digitOf (Nat.digitChar d) = d := by
  revert h d
  decide

theorem readOn_append (base n : Nat) (cs cs' : List Char) :
    readOn base n (cs ++ cs') = readOn base (readOn base n cs) cs' := List.foldl_append

theorem readDigits_concat (base : Nat) (cs : List Char) (c : Char) :
    readDigits base (cs ++ [c]) = readDigits base cs * base + digitOf c := List.foldl_append

theorem readOn_eq (base n : Nat) (cs : List Char) :
    readOn base n cs = n * base ^ cs.length + readDigits base cs := by
  induction cs using List.reverseRecOn with
  | nil => simp [readOn, readDigits]
  | append_singleton cs c ih =>
    have hLast : readOn base n (cs ++ [c]) = readOn base n cs * base + digitOf c :=
      List.foldl_append
    rw [hLast, readDigits_concat, ih, List.length_append, List.length_singleton, Nat.pow_succ,
      Nat.add_mul, Nat.mul_assoc]
    omega

theorem readDigits_append (base : Nat) (cs cs' : List Char) :
    readDigits base (cs ++ cs') =
      readDigits base cs * base ^ cs'.length + readDigits base cs' := by
  unfold readDigits
  rw [readOn_append, readOn_eq]
  rfl

theorem readDigits_mono {base base' : Nat} (h : base ≤ base') (cs : List Char) :
    readDigits base cs ≤ readDigits base' cs := by
  induction cs using List.reverseRecOn with
  | nil => exact Nat.le_refl 0
  | append_singleton cs c ih =>
    rw [readDigits_concat, readDigits_concat]
    exact Nat.add_le_add_right (Nat.mul_le_mul ih h) _

theorem readDigits_zeros (base k : Nat) : readDigits base (List.replicate k '0') = 0 := by
  induction k with
  | zero => rfl
  | succ k ih =>
    rw [List.replicate_succ', readDigits_concat, ih, Nat.zero_mul]
    rfl

theorem readDigits_pos {base : Nat} (hBase : 0 < base) {c : Char} (hc : 0 < digitOf c)
    (cs : List Char) : 0 < readDigits base (c :: cs) := by
  have hFirst : readDigits base [c] = digitOf c := by
    have hOne := readDigits_concat base [] c
    rwa [List.nil_append, show readDigits base [] = 0 from rfl, Nat.zero_mul, Nat.zero_add] at hOne
  have hSplit := readDigits_append base [c] cs
  rw [hFirst, List.singleton_append] at hSplit
  have hPlace : 0 < digitOf c * base ^ cs.length := Nat.mul_pos hc (Nat.pow_pos hBase)
  omega

/-! ## The digits of a number -/

/-- Every character of `Nat.toDigits` is the digit of a number below the base. -/
theorem mem_toDigits {base n : Nat} (hBase : 1 < base) {c : Char}
    (h : c ∈ Nat.toDigits base n) : ∃ d, d < base ∧ c = Nat.digitChar d := by
  induction n using Nat.strongRecOn with
  | ind n ih =>
    rw [Nat.toDigits_eq_if hBase] at h
    split at h
    · next hLess => exact ⟨n, hLess, List.mem_singleton.mp h⟩
    · rcases List.mem_append.mp h with h | h
      · exact ih (n / base) (Nat.div_lt_self (by omega) hBase) h
      · exact ⟨n % base, Nat.mod_lt _ (by omega), List.mem_singleton.mp h⟩

theorem readDigits_toDigits {base : Nat} (hBase : 1 < base) (hLow : base ≤ 16) (n : Nat) :
    readDigits base (Nat.toDigits base n) = n := by
  induction n using Nat.strongRecOn with
  | ind n ih =>
    rw [Nat.toDigits_eq_if hBase]
    split
    · next hLess =>
      have hDigit := digitOf_digitChar (Nat.lt_of_lt_of_le hLess hLow)
      have hZero : 0 * base + digitOf n.digitChar = n := by rw [hDigit, Nat.zero_mul, Nat.zero_add]
      exact hZero
    · have hDigit : n % base < 16 := Nat.lt_of_lt_of_le (Nat.mod_lt _ (by omega)) hLow
      rw [readDigits_concat, ih _ (Nat.div_lt_self (by omega) hBase), digitOf_digitChar hDigit]
      exact Nat.div_add_mod' n base

/-- The first digit does not depend on the last one. -/
theorem toDigits_head_div {base n : Nat} (hBase : 1 < base) (h : base ≤ n) :
    (Nat.toDigits base n).head? = (Nat.toDigits base (n / base)).head? := by
  obtain ⟨c, hc⟩ := Option.ne_none_iff_exists'.mp
    (mt List.head?_eq_none_iff.mp (Nat.toDigits_ne_nil (n := n / base) (b := base)))
  rw [Nat.toDigits_of_base_le hBase h, List.head?_append, hc, Option.some_or]

/-- The first digit after `k` divisions. -/
theorem toDigits_head_pow {base k n : Nat} (hBase : 1 < base) (h : base ^ k ≤ n) :
    (Nat.toDigits base n).head? = (Nat.toDigits base (n / base ^ k)).head? := by
  induction k generalizing n with
  | zero => rw [Nat.pow_zero, Nat.div_one]
  | succ k ih =>
    have hOne : base ≤ n := (Nat.le_self_pow (Nat.succ_ne_zero k) base).trans h
    have hRest : base ^ k ≤ n / base := by
      rw [Nat.le_div_iff_mul_le (by omega), ← Nat.pow_succ]
      exact h
    rw [toDigits_head_div hBase hOne, ih hRest, Nat.div_div_eq_div_mul, Nat.pow_succ']

theorem toDigits_head {base n : Nat} (hBase : 1 < base)
    (h : (Nat.toDigits base n).head? = some '0') : n = 0 := by
  induction n using Nat.strongRecOn with
  | ind n ih =>
    by_cases hLess : n < base
    · rw [Nat.toDigits_of_lt_base hLess] at h
      exact Nat.digitChar_eq_zero.mp (Option.some.inj h)
    · rw [toDigits_head_div hBase (by omega)] at h
      have hNone := ih _ (Nat.div_lt_self (by omega) hBase) h
      have hSome : 0 < n / base := Nat.div_pos (by omega) (by omega)
      omega

/-- What the first digits of a number write is not zero, in any base. -/
theorem readDigits_prefix_pos {base base' n : Nat} (hBase : 1 < base) (hLow : base ≤ 16)
    (hBase' : 0 < base') (hn : 0 < n) {cs rest : List Char} (hSome : cs ≠ [])
    (h : Nat.toDigits base n = cs ++ rest) : 0 < readDigits base' cs := by
  obtain ⟨c, cs, rfl⟩ := List.exists_cons_of_ne_nil hSome
  apply readDigits_pos hBase'
  by_contra hZero
  obtain ⟨d, hd, rfl⟩ := mem_toDigits hBase (by rw [h]; simp : c ∈ Nat.toDigits base n)
  rw [digitOf_digitChar (by omega)] at hZero
  have hFirst : (Nat.toDigits base n).head? = some '0' := by
    rw [h, Nat.digitChar_eq_zero.mpr (by omega : d = 0)]
    rfl
  have hNone := toDigits_head hBase hFirst
  omega

/-- A multiple of a power of the base ends with zeros. -/
theorem toDigits_mul_pow {base n : Nat} (hBase : 1 < base) (h : 0 < n) (k : Nat) :
    Nat.toDigits base (n * base ^ k) = Nat.toDigits base n ++ List.replicate k '0' := by
  induction k with
  | zero => simp
  | succ k ih =>
    have hZero := Nat.toDigits_append_toDigits hBase
      (Nat.mul_pos h (Nat.pow_pos (by omega : 0 < base)) : 0 < n * base ^ k)
      (by omega : 0 < base)
    rw [Nat.pow_succ, ← Nat.mul_assoc, Nat.mul_comm _ base, List.replicate_succ',
      ← List.append_assoc, ← ih, ← Nat.add_zero (base * _), ← hZero, Nat.toDigits_zero]

theorem numeral_toDigits {base : Nat} (hBase : 1 < base) (hLow : base ≤ 16) (n : Nat) :
    Numeral base n (Nat.toDigits base n) where
  digits := by
    intro c hc
    obtain ⟨d, hd, rfl⟩ := mem_toDigits hBase hc
    rwa [digitOf_digitChar (by omega)]
  reads := readDigits_toDigits hBase hLow n
  ne_nil := Nat.toDigits_ne_nil
  lead := by
    intro h
    rw [toDigits_head hBase h, Nat.toDigits_zero]

theorem toDigits_inj {base : Nat} (hBase : 1 < base) (hLow : base ≤ 16) {n m : Nat} :
    Nat.toDigits base n = Nat.toDigits base m ↔ n = m := by
  constructor
  · intro h
    rw [← readDigits_toDigits hBase hLow n, h, readDigits_toDigits hBase hLow m]
  · rintro rfl
    rfl

/-- The number of digits. -/
theorem toDigits_length {base : Nat} (hBase : 1 < base) (n : Nat) :
    (Nat.toDigits base n).length = Nat.log base n + 1 := by
  apply Nat.le_antisymm
  · rw [Nat.length_toDigits_le_iff hBase (Nat.succ_pos _)]
    exact Nat.lt_pow_succ_log_self hBase n
  · have hFits := (Nat.length_toDigits_le_iff hBase Nat.length_toDigits_pos).mp
      (Nat.le_refl (Nat.toDigits base n).length)
    exact Nat.log_lt_of_lt_pow' Nat.length_toDigits_pos.ne' hFits

end LunarOS.Logic
