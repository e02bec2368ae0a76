import Mathlib.Data.Nat.Bitwise
import Mathlib.Order.Interval.Finset.Nat
import Mathlib.Tactic.Ring

/-!
# Heap-ordered binary trees and spans of bytes

`nodeOf k j` is the number of the `j`-th node of level `k` when the nodes of a complete
binary tree are numbered level by level from the root `0`. The first part moves the usual
index arithmetic (`2 i + 1`, `2 i + 2`, `(i - 1) / 2`, `((i - 1) ^^^ 1) + 1`) to the pair
`(k, j)`.

A `Span` is a run of bytes. `Span.Apart` is disjointness, and `sum_len_le` bounds the total
length of pairwise disjoint spans inside another one.
-/

namespace LunarOS.Logic

/-! ## Nodes -/

def nodeOf (k j : Nat) : Nat := 2 ^ k - 1 + j

@[simp] theorem nodeOf_zero_zero : nodeOf 0 0 = 0 := rfl

theorem nodeOf_left (k j : Nat) : nodeOf k j * 2 + 1 = nodeOf (k + 1) (2 * j) := by
  have hPos := Nat.two_pow_pos k
  unfold nodeOf
  rw [Nat.pow_succ]
  omega

theorem nodeOf_right (k j : Nat) : nodeOf k j * 2 + 2 = nodeOf (k + 1) (2 * j + 1) := by
  have hPos := Nat.two_pow_pos k
  unfold nodeOf
  rw [Nat.pow_succ]
  omega

theorem nodeOf_parent (k j : Nat) : (nodeOf (k + 1) j - 1) / 2 = nodeOf k (j / 2) := by
  have hPos := Nat.two_pow_pos k
  unfold nodeOf
  rw [Nat.pow_succ]
  omega

theorem xor_one_eq (n : Nat) : n ^^^ 1 = if n % 2 = 0 then n + 1 else n - 1 := by
  split
  · next h => exact Nat.xor_one_of_even (Nat.even_iff.mpr h)
  · next h => exact Nat.xor_one_of_odd (Nat.odd_iff.mpr (by omega))

theorem nodeOf_sibling (k j : Nat) :
    ((nodeOf (k + 1) j - 1) ^^^ 1) + 1 = nodeOf (k + 1) (j ^^^ 1) := by
  have hPos := Nat.two_pow_pos k
  unfold nodeOf
  rw [Nat.pow_succ, xor_one_eq, xor_one_eq]
  split <;> split <;> omega

theorem nodeOf_lt {k j : Nat} (hj : j < 2 ^ k) : nodeOf k j < 2 ^ (k + 1) - 1 := by
  unfold nodeOf
  rw [Nat.pow_succ]
  omega

/-- The nodes of a level are numbered from `2^k - 1` on. -/
theorem exists_nodeOf {k n : Nat} (hLow : 2 ^ k - 1 ≤ n) (hHigh : n < 2 ^ (k + 1) - 1) :
    ∃ j, j < 2 ^ k ∧ n = nodeOf k j := by
  rw [Nat.pow_succ] at hHigh
  unfold nodeOf
  exact ⟨n - (2 ^ k - 1), by omega, by omega⟩

theorem nodeOf_pos {k : Nat} (hk : 0 < k) (j : Nat) : 0 < nodeOf k j := by
  have hTwo : 2 ^ 1 ≤ 2 ^ k := Nat.pow_le_pow_right (by omega) hk
  unfold nodeOf
  omega

/-- The level of a node is determined by its number. -/
theorem nodeOf_inj {k k' j j' : Nat} (hj : j < 2 ^ k) (hj' : j' < 2 ^ k')
    (h : nodeOf k j = nodeOf k' j') : k = k' ∧ j = j' := by
  have hLevel : k = k' := by
    rcases Nat.lt_trichotomy k k' with hlt | heq | hgt
    · have hPow : 2 ^ (k + 1) ≤ 2 ^ k' := Nat.pow_le_pow_right (by omega) hlt
      have := nodeOf_lt hj
      unfold nodeOf at h this
      omega
    · exact heq
    · have hPow : 2 ^ (k' + 1) ≤ 2 ^ k := Nat.pow_le_pow_right (by omega) hgt
      have := nodeOf_lt hj'
      unfold nodeOf at h this
      omega
  subst hLevel
  unfold nodeOf at h
  exact ⟨rfl, by omega⟩

theorem xor_one_lt {k j : Nat} (hj : j < 2 ^ (k + 1)) : j ^^^ 1 < 2 ^ (k + 1) := by
  rw [xor_one_eq]
  rw [Nat.pow_succ] at hj ⊢
  split <;> omega

/-! ## Spans -/

/-- The bytes `[start, start + len)`. -/
structure Span where
  start : Nat
  len : Nat
  deriving DecidableEq, Repr

namespace Span

def Apart (a b : Span) : Prop := a.start + a.len ≤ b.start ∨ b.start + b.len ≤ a.start

instance (a b : Span) : Decidable (a.Apart b) := inferInstanceAs (Decidable (_ ∨ _))

def Within (a b : Span) : Prop := b.start ≤ a.start ∧ a.start + a.len ≤ b.start + b.len

theorem Apart.symm {a b : Span} (h : a.Apart b) : b.Apart a := Or.symm h

/-- A nonempty part of a span is not apart from it. -/
theorem Within.not_apart {a b : Span} (h : a.Within b) (hLen : 0 < a.len) : ¬ a.Apart b := by
  unfold Within at h
  unfold Apart
  omega

def bytes (a : Span) : Finset Nat := Finset.Ico a.start (a.start + a.len)

theorem card_bytes (a : Span) : a.bytes.card = a.len := by simp [bytes]

theorem Apart.disjoint {a b : Span} (h : a.Apart b) : Disjoint a.bytes b.bytes := by
  rw [Finset.disjoint_left]
  intro x hx hx'
  simp only [bytes, Finset.mem_Ico] at hx hx'
  unfold Apart at h
  omega

theorem Within.subset {a b : Span} (h : a.Within b) : a.bytes ⊆ b.bytes := by
  intro x hx
  simp only [bytes, Finset.mem_Ico] at hx ⊢
  unfold Within at h
  omega

/-- Every byte of any of the spans. -/
def union (l : List Span) : Finset Nat := l.foldr (fun a rest => a.bytes ∪ rest) ∅

theorem mem_union {l : List Span} {x : Nat} : x ∈ union l ↔ ∃ a ∈ l, x ∈ a.bytes := by
  induction l with
  | nil => simp [union]
  | cons a l ih =>
    have hCons : union (a :: l) = a.bytes ∪ union l := rfl
    simp [hCons, ih]

theorem card_union {l : List Span} (h : l.Pairwise Apart) :
    (union l).card = (l.map len).sum := by
  induction l with
  | nil => rfl
  | cons a l ih =>
    obtain ⟨hHead, hTail⟩ := List.pairwise_cons.mp h
    have hDisjoint : Disjoint a.bytes (union l) := by
      rw [Finset.disjoint_left]
      intro x hx hx'
      obtain ⟨b, hb, hxb⟩ := mem_union.mp hx'
      exact Finset.disjoint_left.mp (hHead b hb).disjoint hx hxb
    have hCons : union (a :: l) = a.bytes ∪ union l := rfl
    rw [hCons, Finset.card_union_of_disjoint hDisjoint, card_bytes, ih hTail]
    rfl

/-- Pairwise disjoint spans inside `b` have no more bytes than `b`. -/
theorem sum_len_le {l : List Span} {b : Span} (h : l.Pairwise Apart)
    (hIn : ∀ a ∈ l, a.Within b) : (l.map len).sum ≤ b.len := by
  rw [← card_union h, ← card_bytes b]
  apply Finset.card_le_card
  intro x hx
  obtain ⟨a, ha, hxa⟩ := mem_union.mp hx
  exact (hIn a ha).subset hxa

end Span

end LunarOS.Logic
