import Mathlib.Data.Nat.Basic
import Mathlib.Tactic.NormNum
import Mathlib.Tactic.Ring

/-!
# Machine words

The kernel computes on 64-bit unsigned words (`size_t`, `uint64_t`, `uintptr_t`). A word
is a natural number below `wordSize`, addresses included, and every operation of the source that
can wrap is written with an explicit `% wordSize`. The exceptions to 64-bit arithmetic are the literals
`1 <<` of `buddy.c`: their type is `int`, so `intShl` shifts 32 bits, with the count taken
modulo 32 as the x86-64 shift instruction does, and sign-extends the result.

The last part holds the arithmetic macros and inline functions of `kernel.h` and `page.h`.
-/

namespace LunarOS

/-- Number of values of a 64-bit word. -/
def wordSize : Nat := 2 ^ 64

def add64 (a b : Nat) : Nat := (a + b) % wordSize

def sub64 (a b : Nat) : Nat := (a + wordSize - b) % wordSize

def mul64 (a b : Nat) : Nat := (a * b) % wordSize

def shl64 (a k : Nat) : Nat := (a * 2 ^ (k % 64)) % wordSize

def shr64 (a k : Nat) : Nat := a / 2 ^ (k % 64)

/-- `1 << k` on `int`, converted to a 64-bit word: bit 31 is the sign. -/
def intShl (k : Nat) : Nat :=
  if k % 32 = 31 then wordSize - 2 ^ 31 else 2 ^ (k % 32)

theorem add64_eq {a b : Nat} (h : a + b < wordSize) : add64 a b = a + b :=
  Nat.mod_eq_of_lt h

theorem sub64_eq {a b : Nat} (hle : b ≤ a) (ha : a < wordSize) : sub64 a b = a - b := by
  unfold sub64
  rw [show a + wordSize - b = (a - b) + wordSize by omega, Nat.add_mod_right]
  exact Nat.mod_eq_of_lt (by omega)

/-- A subtraction that borrows. -/
theorem sub64_borrow {a b : Nat} (hlt : a < b) (hb : b ≤ wordSize) :
    sub64 a b = wordSize - (b - a) := by
  unfold sub64
  rw [show a + wordSize - b = wordSize - (b - a) by omega]
  exact Nat.mod_eq_of_lt (by omega)

theorem mul64_eq {a b : Nat} (h : a * b < wordSize) : mul64 a b = a * b :=
  Nat.mod_eq_of_lt h

theorem shl64_eq {a k : Nat} (hk : k < 64) (h : a * 2 ^ k < wordSize) :
    shl64 a k = a * 2 ^ k := by
  unfold shl64
  rw [Nat.mod_eq_of_lt hk]
  exact Nat.mod_eq_of_lt h

theorem shr64_eq {a k : Nat} (hk : k < 64) : shr64 a k = a / 2 ^ k := by
  unfold shr64
  rw [Nat.mod_eq_of_lt hk]

theorem add64_lt (a b : Nat) : add64 a b < wordSize := Nat.mod_lt _ (by decide)

theorem sub64_lt (a b : Nat) : sub64 a b < wordSize := Nat.mod_lt _ (by decide)

theorem intShl_eq {k : Nat} (hk : k ≤ 30) : intShl k = 2 ^ k := by
  unfold intShl
  rw [Nat.mod_eq_of_lt (by omega : k < 32), if_neg (by omega)]

/-- Apart from the sign bit, the shift loses bits only. -/
theorem intShl_le {k : Nat} (hk : k < 63) (hSign : k ≠ 31) : intShl k ≤ 2 ^ k := by
  unfold intShl
  rw [if_neg (by omega)]
  exact Nat.pow_le_pow_right (by omega) (Nat.mod_le k 32)

theorem intShl_pos (k : Nat) : 0 < intShl k := by
  unfold intShl
  split
  · decide
  · exact Nat.two_pow_pos _

theorem intShl_lt (k : Nat) : intShl k < wordSize := by
  unfold intShl
  split
  · decide
  · exact Nat.pow_lt_pow_right (by omega) (by omega)

/-- The low 32 bits of an `int`, converted to a 64-bit word. -/
def sext32 (n : Nat) : Nat :=
  if n % 2 ^ 32 < 2 ^ 31 then n % 2 ^ 32 else n % 2 ^ 32 + (wordSize - 2 ^ 32)

theorem sext32_eq {n : Nat} (h : n < 2 ^ 31) : sext32 n = n := by
  unfold sext32
  rw [Nat.mod_eq_of_lt (by omega), if_pos h]

/-- The bits of a multiple of `2^k` and those of a number below it do not meet. -/
theorem or_eq_add {a b k : Nat} (h : b < 2 ^ k) : a * 2 ^ k ||| b = a * 2 ^ k + b := by
  rw [Nat.mul_comm]
  exact (Nat.two_pow_add_eq_or_of_lt h a).symm

/-! ## `kernel.h` -/

/-- Trailing zeros of the low `fuel` bits. -/
def ctz : Nat → Nat → Nat
  | 0, _ => 0
  | fuel + 1, n => if n % 2 = 1 then 0 else ctz fuel (n / 2) + 1

/-- `__builtin_ctzll`. -/
def ctzll (n : Nat) : Nat := ctz 64 n

def log2 (n : Nat) : Nat := if n = 0 then 0 else ctzll n

theorem ctz_two_pow {fuel m : Nat} (h : m < fuel) : ctz fuel (2 ^ m) = m := by
  induction fuel generalizing m with
  | zero => omega
  | succ fuel ih =>
    cases m with
    | zero => simp [ctz]
    | succ m =>
      have hEven : 2 ^ (m + 1) % 2 = 0 := by rw [Nat.pow_succ]; omega
      have hHalf : 2 ^ (m + 1) / 2 = 2 ^ m := by rw [Nat.pow_succ]; omega
      simp only [ctz, hEven, hHalf, zero_ne_one, if_false]
      rw [ih (by omega)]

theorem log2_two_pow {m : Nat} (h : m < 64) : log2 (2 ^ m) = m := by
  unfold log2 ctzll
  rw [if_neg (Nat.two_pow_pos m).ne', ctz_two_pow h]

/-- `ALIGN_TO(n, b)`: the new value of `n`. -/
def alignTo (n b : Nat) : Nat := if n % b ≠ 0 then add64 n (b - n % b) else n

/-! ## `page.h` -/

def PGSIZE : Nat := 4096

/-- `PGROUNDUP(sz, PGSIZE)`: the mask `~(PGSIZE - 1)` clears the low twelve bits. -/
def pgroundup (sz : Nat) : Nat :=
  let n := sub64 (add64 sz PGSIZE) 1
  n - n % PGSIZE

/-- `PGROUNDDOWN(sz, PGSIZE)` -/
def pgrounddown (sz : Nat) : Nat := sz - sz % PGSIZE

def pfn (addr : Nat) : Nat := addr / PGSIZE

theorem alignTo_of_fits {n : Nat} (h : n + 7 < wordSize) :
    n ≤ alignTo n 8 ∧ alignTo n 8 ≤ n + 7 ∧ alignTo n 8 % 8 = 0 := by
  unfold alignTo
  split
  · rw [add64_eq (by omega)]
    omega
  · omega

theorem alignTo_eq {n : Nat} (h : n + 7 < wordSize) : alignTo n 8 = (n + 7) / 8 * 8 := by
  obtain ⟨hLow, hHigh, hMod⟩ := alignTo_of_fits h
  omega

/-- Rounding up in 64 bits, also where it wraps. -/
theorem alignTo_mod {n : Nat} (h : n < wordSize) : alignTo n 8 = (n + 7) / 8 * 8 % wordSize := by
  unfold alignTo add64
  unfold wordSize at *
  split <;> omega

theorem pgroundup_eq {sz : Nat} (h : sz + 4096 < wordSize) :
    pgroundup sz = (sz + 4095) / 4096 * 4096 := by
  unfold pgroundup PGSIZE
  rw [add64_eq h, sub64_eq (by omega) h]
  dsimp only
  omega

end LunarOS
