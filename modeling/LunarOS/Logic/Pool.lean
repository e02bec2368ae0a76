import Mathlib.Data.List.Nodup
import Mathlib.Data.List.Range

/-!
# An array as a pool of objects

An array `a` of `n` slots and an index `i`: the slots from `i` on hold the free objects, and
the slots below `i` hold whatever was there when their object was handed out. Taking an object
moves the index up, giving one back writes it below the index and moves the index down.
`Balanced` says that the free objects and those handed out are together all objects, each
once; both operations keep it, in whatever order objects come back.
-/

namespace LunarOS.Logic.Pool

variable {α : Type*}

/-- The free objects, the next one first. -/
def free (a : Nat → α) (i n : Nat) : List α := (List.range' i (n - i)).map a

theorem free_length (a : Nat → α) (i n : Nat) : (free a i n).length = n - i := by simp [free]

theorem free_of_lt (a : Nat → α) {i n : Nat} (h : i < n) :
    free a i n = a i :: free a (i + 1) n := by
  unfold free
  rw [show n - i = n - (i + 1) + 1 by omega, List.range'_succ]
  rfl

theorem mem_free {a : Nat → α} {i n : Nat} {x : α} :
    x ∈ free a i n ↔ ∃ k, i ≤ k ∧ k < n ∧ a k = x := by
  simp only [free, List.mem_map, List.mem_range'_1]
  constructor
  · rintro ⟨k, hk, rfl⟩
    exact ⟨k, by omega, by omega, rfl⟩
  · rintro ⟨k, hGe, hLt, rfl⟩
    exact ⟨k, by omega, rfl⟩

/-- Slots that are not free do not matter. -/
theorem free_congr {a a' : Nat → α} {i n : Nat} (h : ∀ k, i ≤ k → a' k = a k) :
    free a' i n = free a i n := by
  unfold free
  apply List.map_congr_left
  intro k hk
  exact h k (List.mem_range'_1.mp hk).1

structure Balanced (a : Nat → α) (i n : Nat) (live all : List α) : Prop where
  index_le : i ≤ n
  perm : (free a i n ++ live).Perm all

namespace Balanced

variable {a : Nat → α} {i n : Nat} {live all : List α}

theorem init (hAll : all = free a 0 n) : Balanced a 0 n [] all := by
  refine ⟨Nat.zero_le n, ?_⟩
  rw [hAll, List.append_nil]

theorem take (h : Balanced a i n live all) (hlt : i < n) :
    Balanced a (i + 1) n (a i :: live) all := by
  refine ⟨hlt, ?_⟩
  have hPerm := h.perm
  rw [free_of_lt a hlt] at hPerm
  exact List.perm_middle.trans hPerm

theorem mem_all (h : Balanced a i n live all) (hlt : i < n) : a i ∈ all :=
  h.perm.subset (List.mem_append_left _ (mem_free.mpr ⟨i, Nat.le_refl i, hlt, rfl⟩))

/-- The next object is not among those handed out. -/
theorem not_mem_live (h : Balanced a i n live all) (hAll : all.Nodup) (hlt : i < n) :
    a i ∉ live := by
  have hBoth := h.perm.nodup_iff.mpr hAll
  rw [free_of_lt a hlt] at hBoth
  intro hMem
  exact (List.nodup_cons.mp hBoth).1 (List.mem_append_right _ hMem)

/-- An object is left exactly when not all are handed out. -/
theorem lt_iff (h : Balanced a i n live all) (hAll : all.Nodup) :
    i < n ↔ ∃ x ∈ all, x ∉ live := by
  constructor
  · intro hlt
    exact ⟨a i, h.mem_all hlt, h.not_mem_live hAll hlt⟩
  · rintro ⟨x, hx, hNot⟩
    rcases List.mem_append.mp (h.perm.symm.subset hx) with hFree | hLive
    · obtain ⟨k, hGe, hLt, -⟩ := mem_free.mp hFree
      omega
    · exact absurd hLive hNot

theorem live_subset (h : Balanced a i n live all) : live ⊆ all := fun _ hx =>
  h.perm.subset (List.mem_append_right _ hx)

theorem index_eq (h : Balanced a i n live all) (hAll : all.length = n) : i = live.length := by
  have hLength := h.perm.length_eq
  have hLe := h.index_le
  rw [List.length_append, free_length] at hLength
  omega

variable [DecidableEq α]

theorem give (h : Balanced a i n live all) {x : α} (hPos : 0 < i) (hx : x ∈ live) :
    Balanced (fun k => if k = i - 1 then x else a k) (i - 1) n (live.erase x) all := by
  have hLe := h.index_le
  refine ⟨by omega, ?_⟩
  rw [free_of_lt _ (by omega : i - 1 < n), if_pos rfl, show i - 1 + 1 = i by omega,
    free_congr (a := a) fun k hk => if_neg (by omega)]
  exact (List.perm_middle.symm.trans
    (List.Perm.append_left _ (List.perm_cons_erase hx).symm)).trans h.perm

end Balanced

end LunarOS.Logic.Pool
