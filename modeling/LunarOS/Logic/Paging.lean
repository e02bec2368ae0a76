import Mathlib.Logic.Function.Basic
import Mathlib.Tactic.Ring

/-!
# Four-level paging

The translation that an x86-64 processor makes, over a memory of 64-bit words given by their
physical address. A table is a page of 512 entries; the walk goes from level 3 (PML4) down to
level 0, each level using nine bits of the address. An entry translates when it is present, and
ends the walk early when it is marked as a large page on level 2 (1 GiB) or 1 (2 MiB). The
attribute bits other than these two play no part.
-/

namespace LunarOS.Logic.Paging

/-- Bits of the offset in a page that an entry of the level maps. -/
def width (level : Nat) : Nat := 12 + 9 * level

/-- The entry that an address selects in a table of the level. -/
def slot (level v : Nat) : Nat := v / 2 ^ width level % 512

def Present (e : Nat) : Prop := e % 2 = 1

/-- Bit 7 -/
def Large (e : Nat) : Prop := e / 128 % 2 = 1

instance (e : Nat) : Decidable (Present e) := inferInstanceAs (Decidable (_ = _))
instance (e : Nat) : Decidable (Large e) := inferInstanceAs (Decidable (_ = _))

/-- Bits `k` to 51 of an entry, as an address. -/
def frame (k e : Nat) : Nat := e / 2 ^ k % 2 ^ (52 - k) * 2 ^ k

/-- The bits below the frame of a large page, from bit 13 on, are reserved. -/
def Reserved (level e : Nat) : Prop := e / 2 ^ 13 % 2 ^ (width level - 13) ≠ 0

instance (level e : Nat) : Decidable (Reserved level e) := inferInstanceAs (Decidable (_ ≠ _))

/-- The upper bits repeat bit 47. -/
def Canonical (v : Nat) : Prop := v < 2 ^ 47 ∨ 2 ^ 64 - 2 ^ 47 ≤ v ∧ v < 2 ^ 64

instance (v : Nat) : Decidable (Canonical v) := inferInstanceAs (Decidable (_ ∨ _))

/-- The walk from a table of the level. -/
def walk (m : Nat → Nat) : Nat → Nat → Nat → Option Nat
  | 0, table, v =>
    let e := m (table + 8 * slot 0 v)
    if Present e then some (frame 12 e + v % 2 ^ 12) else none
  | level + 1, table, v =>
    let e := m (table + 8 * slot (level + 1) v)
    if ¬ Present e then none
    else if Large e then
      if level = 2 ∨ Reserved (level + 1) e then none
      else some (frame (width (level + 1)) e + v % 2 ^ width (level + 1))
    else walk m level (frame 12 e) v

def translate (m : Nat → Nat) (cr3 v : Nat) : Option Nat :=
  if Canonical v then walk m 3 cr3 v else none

/-- On the way to the address, the entry of level 2 is marked as a large page, of 1 GiB. -/
def Gib (m : Nat → Nat) (cr3 v : Nat) : Prop :=
  Large (m (frame 12 (m (cr3 + 8 * slot 3 v)) + 8 * slot 2 v))

instance (m : Nat → Nat) (cr3 v : Nat) : Decidable (Gib m cr3 v) :=
  inferInstanceAs (Decidable (Large _))

/-! ## One level -/

section

variable {m : Nat → Nat} {level table v : Nat}

theorem walk_absent (h : ¬ Present (m (table + 8 * slot level v))) :
    walk m level table v = none := by
  cases level with
  | zero => exact if_neg h
  | succ level => exact if_pos h

theorem walk_next (hPresent : Present (m (table + 8 * slot (level + 1) v)))
    (hSmall : ¬ Large (m (table + 8 * slot (level + 1) v))) :
    walk m (level + 1) table v =
      walk m level (frame 12 (m (table + 8 * slot (level + 1) v))) v := by
  rw [walk]
  rw [if_neg (not_not.mpr hPresent), if_neg hSmall]

theorem walk_large (hPresent : Present (m (table + 8 * slot (level + 1) v)))
    (hLarge : Large (m (table + 8 * slot (level + 1) v))) (hLevel : level ≠ 2)
    (hReserved : ¬ Reserved (level + 1) (m (table + 8 * slot (level + 1) v))) :
    walk m (level + 1) table v = some (frame (width (level + 1))
      (m (table + 8 * slot (level + 1) v)) + v % 2 ^ width (level + 1)) := by
  rw [walk]
  rw [if_neg (not_not.mpr hPresent), if_pos hLarge,
    if_neg (not_or.mpr ⟨hLevel, hReserved⟩)]

end

/-! ## Entries made of a frame and flags -/

theorem frame_add {k f flags : Nat} (hFrame : f < 2 ^ (52 - k))
    (hFlags : flags < 2 ^ k) : frame k (f * 2 ^ k + flags) = f * 2 ^ k := by
  unfold frame
  rw [Nat.add_comm, Nat.add_mul_div_right _ _ (Nat.two_pow_pos k), Nat.div_eq_of_lt hFlags,
    Nat.zero_add, Nat.mod_eq_of_lt hFrame]

/-- An address of a page, with the flags of a present entry that points to a table. -/
theorem walk_table {m : Nat → Nat} {level table v next flags : Nat} (hPage : 2 ^ 12 ∣ next)
    (hNext : next < 2 ^ 52) (hFlags : flags < 128) (hOdd : flags % 2 = 1)
    (hEntry : m (table + 8 * slot (level + 1) v) = next + flags) :
    walk m (level + 1) table v = walk m level next v := by
  obtain ⟨f, rfl⟩ := hPage
  have hPresent : Present (2 ^ 12 * f + flags) := by
    unfold Present
    omega
  have hSmall : ¬ Large (2 ^ 12 * f + flags) := by
    unfold Large
    omega
  have hFrame : frame 12 (2 ^ 12 * f + flags) = 2 ^ 12 * f := by
    rw [Nat.mul_comm]
    exact frame_add (by omega) (by omega)
  rw [← hEntry] at hPresent hSmall hFrame
  rw [walk_next hPresent hSmall, hFrame]

/-- A large page: its frame, with flags below the reserved bits. -/
theorem walk_page {m : Nat → Nat} (level : Nat) {table v f flags : Nat} (hLevel : level ≠ 2)
    (hFrame : f < 2 ^ (52 - width (level + 1))) (hFlags : flags < 2 ^ 13) (hOdd : flags % 2 = 1)
    (hLarge : flags / 128 % 2 = 1)
    (hEntry : m (table + 8 * slot (level + 1) v) = f * 2 ^ width (level + 1) + flags) :
    walk m (level + 1) table v =
      some (f * 2 ^ width (level + 1) + v % 2 ^ width (level + 1)) := by
  have hWidth : 13 ≤ width (level + 1) := by
    unfold width
    omega
  have hSplit : f * 2 ^ width (level + 1) = f * 2 ^ (width (level + 1) - 13) * 2 ^ 13 := by
    rw [Nat.mul_assoc, ← Nat.pow_add, Nat.sub_add_cancel hWidth]
  have hPage := frame_add hFrame (Nat.lt_of_lt_of_le hFlags (Nat.pow_le_pow_right (by omega) hWidth))
  have hReserved : ¬ Reserved (level + 1) (f * 2 ^ width (level + 1) + flags) := by
    unfold Reserved
    rw [hSplit, Nat.add_comm, Nat.add_mul_div_right _ _ (by omega), Nat.div_eq_of_lt hFlags,
      Nat.zero_add, Nat.mul_mod_left]
    exact not_not.mpr rfl
  have hPresent : Present (f * 2 ^ width (level + 1) + flags) := by
    unfold Present
    omega
  have hBit : Large (f * 2 ^ width (level + 1) + flags) := by
    unfold Large
    omega
  rw [← hEntry] at hPage hReserved hPresent hBit
  rw [walk_large hPresent hBit hLevel hReserved, hPage]

/-! ## Addresses by their slots -/

/-- An address of the upper half is made of its slots and offset. -/
theorem upper_eq {v : Nat} (hLow : 2 ^ 64 - 2 ^ 47 ≤ v) (hHigh : v < 2 ^ 64) :
    v = 2 ^ 64 - 2 ^ 48 + slot 3 v * 2 ^ 39 + slot 2 v * 2 ^ 30 + slot 1 v * 2 ^ 21 +
      v % 2 ^ 21 := by
  unfold slot width
  omega

theorem slot_lower {v : Nat} (h : v < 2 ^ 47) : slot 3 v < 256 := by
  unfold slot width
  omega

end LunarOS.Logic.Paging
