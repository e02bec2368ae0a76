import Mathlib.Data.List.Basic
import Mathlib.Data.Nat.Bitwise

/-!
# Bytes in memory

`little n v` are the `n` bytes of a number, the lowest first, and `value` reads them back.
`At l off part` says that a part of `l` begins at an offset; a record that stands at an offset
has its fields at the offsets behind each other (`At.left`, `At.right`).
-/

namespace LunarOS.Logic

/-! ## Little-endian numbers -/

def little : Nat → Nat → List UInt8
  | 0, _ => []
  | n + 1, v => .ofNat v :: little n (v / 256)

def value : List UInt8 → Nat
  | [] => 0
  | c :: cs => c.toNat + 256 * value cs

@[simp]
theorem length_little (n v : Nat) : (little n v).length = n := by
  induction n generalizing v with
  | zero => rfl
  | succ n ih => simp [little, ih]

theorem value_little {n v : Nat} (h : v < 256 ^ n) : value (little n v) = v := by
  induction n generalizing v with
  | zero =>
    rw [Nat.pow_zero] at h
    unfold little value
    omega
  | succ n ih =>
    rw [Nat.pow_succ] at h
    unfold little value
    rw [ih (by omega), UInt8.toNat_ofNat']
    omega

/-! ## Parts -/

/-- `part` begins at `off`. -/
def At {α : Type*} (l : List α) (off : Nat) (part : List α) : Prop :=
  ∃ before after, l = before ++ part ++ after ∧ before.length = off

namespace At

variable {α : Type*} {l part part' : List α} {off : Nat}

theorem all (l : List α) : At l 0 l := ⟨[], [], by simp, rfl⟩

theorem left (h : At l off (part ++ part')) : At l off part := by
  obtain ⟨before, after, rfl, hOff⟩ := h
  exact ⟨before, part' ++ after, by simp, hOff⟩

theorem right (h : At l off (part ++ part')) : At l (off + part.length) part' := by
  obtain ⟨before, after, rfl, hOff⟩ := h
  exact ⟨before ++ part, after, by simp, by simp [hOff]⟩

theorem le (h : At l off part) : off + part.length ≤ l.length := by
  obtain ⟨before, after, rfl, rfl⟩ := h
  simp only [List.length_append]
  omega

theorem head {a : α} (h : At l off (a :: part)) : l[off]? = some a := by
  obtain ⟨before, after, rfl, rfl⟩ := h
  simp

theorem tail {a : α} (h : At l off (a :: part)) : At l (off + 1) part :=
  right (show At l off ([a] ++ part) from h)

end At

/-- Bytes up to the next multiple of `k`. -/
def padding (k n : Nat) : List UInt8 := List.replicate ((k - n % k) % k) 0

theorem length_padding {k : Nat} (hk : 0 < k) (n : Nat) :
    n + (padding k n).length = (n + (k - 1)) / k * k := by
  unfold padding
  rw [List.length_replicate]
  have hSplit := Nat.div_add_mod n k
  have hLess := Nat.mod_lt n hk
  rcases Nat.eq_zero_or_pos (n % k) with hZero | hPos
  · rw [hZero, Nat.sub_zero, Nat.mod_self]
    have hDiv : (n + (k - 1)) / k = n / k := by
      apply Nat.div_eq_of_lt_le
      · rw [Nat.mul_comm]
        omega
      · rw [Nat.succ_mul, Nat.mul_comm]
        omega
    rw [hDiv, Nat.mul_comm]
    omega
  · rw [Nat.mod_eq_of_lt (by omega : k - n % k < k)]
    have hDiv : (n + (k - 1)) / k = n / k + 1 := by
      apply Nat.div_eq_of_lt_le
      · rw [Nat.succ_mul, Nat.mul_comm]
        omega
      · rw [Nat.succ_mul, Nat.succ_mul, Nat.mul_comm]
        omega
    rw [hDiv, Nat.succ_mul, Nat.mul_comm]
    omega

end LunarOS.Logic
