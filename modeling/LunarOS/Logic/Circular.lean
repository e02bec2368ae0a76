import Mathlib.Data.List.Basic
import Mathlib.Data.List.Nodup
import Mathlib.Data.List.Infix

/-!
# Circular doubly linked lists

A heap maps addresses to nodes; an address without a node is not accessible. `Links h l`
says that consecutive members of `l` point at each other, and `Circular h head xs` that `xs`
is the sequence hanging off `head`. `Visits h head x` is weaker: it is what a traversal
along `next` meets, whether or not the nodes form a ring.
-/

namespace LunarOS.Logic

variable {α : Type*}

/-- A node of a doubly linked list. -/
structure Link (α : Type*) where
  prev : α
  next : α
  deriving DecidableEq, Repr

/-- Consecutive members are linked both ways. -/
def Links (h : α → Option (Link α)) : List α → Prop
  | x :: y :: rest =>
    (∃ c, h x = some c ∧ c.next = y) ∧ (∃ c, h y = some c ∧ c.prev = x) ∧ Links h (y :: rest)
  | _ => True

/-- `xs` is the circular list at `head`, in `next` order. -/
def Circular (h : α → Option (Link α)) (head : α) (xs : List α) : Prop :=
  Links h (head :: xs ++ [head]) ∧ (head :: xs).Nodup

/-- The addresses a traversal along `next` meets before it is back at `head`. -/
inductive Visits (h : α → Option (Link α)) (head : α) : α → Prop
  | first {c : Link α} : h head = some c → c.next ≠ head → Visits h head c.next
  | next {x : α} {c : Link α} : Visits h head x → h x = some c → c.next ≠ head →
      Visits h head c.next

theorem circular_nil {h : α → Option (Link α)} {head : α}
    (hc : h head = some ⟨head, head⟩) : Circular h head [] :=
  ⟨⟨⟨_, hc, rfl⟩, ⟨_, hc, rfl⟩, trivial⟩, by simp⟩

theorem circular_singleton {h : α → Option (Link α)} {head x : α} (hne : head ≠ x)
    (hh : h head = some ⟨x, x⟩) (hx : h x = some ⟨head, head⟩) : Circular h head [x] :=
  ⟨⟨⟨_, hh, rfl⟩, ⟨_, hx, rfl⟩, ⟨_, hx, rfl⟩, ⟨_, hh, rfl⟩, trivial⟩, by simpa using hne⟩

/-- The successor of the head of a ring points back at the head. -/
theorem Circular.head_next_prev {h : α → Option (Link α)} {head : α} {xs : List α}
    (hc : Circular h head xs) {c c' : Link α} (hh : h head = some c)
    (hn : h c.next = some c') : c'.prev = head := by
  obtain ⟨hLinks, _⟩ := hc
  cases xs with
  | nil =>
    obtain ⟨⟨d, hd, hdn⟩, ⟨e, he, hep⟩, _⟩ := hLinks
    obtain rfl := Option.some.inj (hh.symm.trans hd)
    rw [hdn, he] at hn
    exact Option.some.inj hn ▸ hep
  | cons x xs =>
    obtain ⟨⟨d, hd, hdn⟩, ⟨e, he, hep⟩, _⟩ := hLinks
    obtain rfl := Option.some.inj (hh.symm.trans hd)
    rw [hdn, he] at hn
    exact Option.some.inj hn ▸ hep

/-- A traversal that comes back after one node has met that node only. -/
theorem visits_one {h : α → Option (Link α)} {head x : α} {c d : Link α}
    (hh : h head = some c) (hn : c.next = x) (hx : h x = some d) (hd : d.next = head)
    (hne : x ≠ head) (y : α) : Visits h head y ↔ y = x := by
  constructor
  · intro hv
    induction hv with
    | first hc _ =>
      obtain rfl := Option.some.inj (hh.symm.trans hc)
      exact hn
    | next _ hc hStay ih =>
      subst ih
      obtain rfl := Option.some.inj (hx.symm.trans hc)
      exact absurd hd hStay
  · rintro rfl
    have hFirst := Visits.first hh (by rw [hn]; exact hne)
    rwa [hn] at hFirst

end LunarOS.Logic
