import Mathlib.Data.Fin.Basic
import Mathlib.Logic.Function.Basic

/-!
# Terminals

A grid of cells with a cursor on it. Writing runs from left to right and from line to line;
past the last line the grid is blanked and the cursor goes home. `Rendered` relates the grid
to a memory that holds its rows one after the other:

* `Rendered.set`, `Rendered.blank`: what one write and a blanked grid do to the memory;
* `Rendered.set_inv`: the memory is right after a write only if the right value was written.
-/

namespace LunarOS.Logic

/-- A screen of `h` lines and `w` columns. -/
structure Terminal (h w : Nat) (α : Type*) where
  cell : Fin h → Fin w → α
  row : Fin h
  column : Fin w

namespace Terminal

variable {h w : Nat} {α β : Type*}

/-- The place of a cell when the lines are laid end to end. -/
def place (r : Fin h) (c : Fin w) : Nat := r * w + c

theorem place_lt (r : Fin h) (c : Fin w) : place r c < h * w := by
  have hRows : (r + 1) * w ≤ h * w := Nat.mul_le_mul_right w r.isLt
  rw [Nat.add_mul, Nat.one_mul] at hRows
  have := c.isLt
  unfold place
  omega

theorem place_inj {r r' : Fin h} {c c' : Fin w} (hEq : place r c = place r' c') :
    r = r' ∧ c = c' := by
  unfold place at hEq
  have hRow : ∀ (x : Fin h) (y : Fin w), (x * w + y : Nat) / w = x := by
    intro x y
    rw [Nat.mul_comm, Nat.mul_add_div y.pos, Nat.div_eq_of_lt y.isLt, Nat.add_zero]
  have hr : (r : Nat) = r' := by rw [← hRow r c, ← hRow r' c', hEq]
  rw [hr] at hEq
  exact ⟨Fin.ext hr, Fin.ext (by omega)⟩

/-- Every place of the grid is a cell. -/
theorem exists_place {i : Nat} (hi : i < h * w) : ∃ (r : Fin h) (c : Fin w), place r c = i := by
  have hw : 0 < w := Nat.pos_of_ne_zero fun hZero => by simp [hZero] at hi
  refine ⟨⟨i / w, Nat.div_lt_of_lt_mul (by rwa [Nat.mul_comm])⟩, ⟨i % w, Nat.mod_lt _ hw⟩, ?_⟩
  unfold place
  rw [Nat.mul_comm]
  exact Nat.div_add_mod i w

def clear (blank : α) (t : Terminal h w α) : Terminal h w α :=
  { t with cell := fun _ _ => blank }

def set (x : α) (t : Terminal h w α) : Terminal h w α :=
  { t with cell := fun r c => if r = t.row ∧ c = t.column then x else t.cell r c }

/-- The start of the next line, or of a blank screen. -/
def newline (blank : α) (t : Terminal h w α) : Terminal h w α :=
  if hRow : t.row + 1 < h then
    { t with row := ⟨t.row + 1, hRow⟩, column := ⟨0, t.column.pos⟩ }
  else { cell := fun _ _ => blank, row := ⟨0, t.row.pos⟩, column := ⟨0, t.column.pos⟩ }

/-- One cell to the right. -/
def advance (blank : α) (t : Terminal h w α) : Terminal h w α :=
  if hColumn : t.column + 1 < w then { t with column := ⟨t.column + 1, hColumn⟩ }
  else t.newline blank

def put (blank x : α) (t : Terminal h w α) : Terminal h w α := (t.set x).advance blank

/-- The cursor is on the last cell of the last line. -/
def Last (t : Terminal h w α) : Prop := t.row + 1 = h ∧ t.column + 1 = w

instance (t : Terminal h w α) : Decidable t.Last := inferInstanceAs (Decidable (_ ∧ _))

theorem newline_below {t : Terminal h w α} (hRow : t.row + 1 < h) (blank : α) :
    t.newline blank = { t with row := ⟨t.row + 1, hRow⟩, column := ⟨0, t.column.pos⟩ } :=
  dif_pos hRow

theorem newline_off {t : Terminal h w α} (hRow : ¬ t.row + 1 < h) (blank : α) :
    t.newline blank = ⟨fun _ _ => blank, ⟨0, t.row.pos⟩, ⟨0, t.column.pos⟩⟩ :=
  dif_neg hRow

theorem advance_right {t : Terminal h w α} (hColumn : t.column + 1 < w) (blank : α) :
    t.advance blank = { t with column := ⟨t.column + 1, hColumn⟩ } :=
  dif_pos hColumn

theorem advance_wrap {t : Terminal h w α} (hColumn : ¬ t.column + 1 < w) (blank : α) :
    t.advance blank = t.newline blank :=
  dif_neg hColumn

/-- Moving on keeps the cells, except off the end of the screen. -/
theorem advance_cell {t : Terminal h w α} (hInside : ¬ t.Last) (blank : α) :
    (t.advance blank).cell = t.cell := by
  by_cases hColumn : t.column + 1 < w
  · rw [advance_right hColumn]
  · have hRow : t.row + 1 < h := by
      unfold Last at hInside
      have := t.row.isLt
      have := t.column.isLt
      omega
    rw [advance_wrap hColumn, newline_below hRow]

/-- The memory `m` holds the cells of `t`, each as its image under `f`. -/
def Rendered (f : α → β) (m : Nat → β) (t : Terminal h w α) : Prop :=
  ∀ r c, m (place r c) = f (t.cell r c)

theorem Rendered.set {f : α → β} {m : Nat → β} {t : Terminal h w α} (hm : Rendered f m t)
    (x : α) : Rendered f (Function.update m (place t.row t.column) (f x)) (t.set x) := by
  intro r c
  unfold Terminal.set
  dsimp only
  split
  · next hHere =>
    rw [hHere.1, hHere.2, Function.update_self]
  · next hElse =>
    rw [Function.update_of_ne fun hEq => hElse (place_inj hEq)]
    exact hm r c

/-- What stands at the cursor after a write is what was written. -/
theorem Rendered.set_inv {f : α → β} {m : Nat → β} {t : Terminal h w α} {x : α} {v : β}
    (hm : Rendered f (Function.update m (place t.row t.column) v) (t.set x)) : v = f x := by
  have hHere := hm t.row t.column
  rw [Function.update_self] at hHere
  rw [hHere]
  simp [Terminal.set]

theorem Rendered.blank {f : α → β} {m : Nat → β} {t : Terminal h w α} {blank : α}
    (hBlank : ∀ i < h * w, m i = f blank) (hCell : ∀ r c, t.cell r c = blank) :
    Rendered f m t := by
  intro r c
  rw [hBlank _ (place_lt r c), hCell]

end Terminal

end LunarOS.Logic
