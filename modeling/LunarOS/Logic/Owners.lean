import Mathlib.Data.Set.Basic
import Mathlib.Logic.Function.Basic

/-!
# Owners found by key

A store has one owner for each key, and an item leads to the owner of its key. A block of items
is given away by writing the owner at the key of its first item alone, so the other items lead
to the same owner only if they have the same key. The results say when every item of every
block still leads to the owner of its block:

* `Owners.give_iff`: after one more block has been given to a new owner;
* `Owners.clear_iff`: after the owner at a key has been replaced by nobody.
-/

namespace LunarOS.Logic

variable {α κ τ : Type*}

/-- The owner at each key and, as a ghost, the blocks given so far, by their first items. -/
structure Owners (α κ τ : Type*) where
  owner : κ → τ
  given : List (τ × α)

namespace Owners

section

variable (key : α → Option κ) (block : α → Set α)

/-- The item leads to the owner. -/
def LeadsTo (s : Owners α κ τ) (x : α) (t : τ) : Prop := ∃ k, key x = some k ∧ s.owner k = t

/-- Every item of a block leads to the owner of the block. -/
def Kept (s : Owners α κ τ) : Prop := ∀ t p, (t, p) ∈ s.given → ∀ x ∈ block p, s.LeadsTo key x t

/-- The items of the block have one key. -/
def OneKey (p : α) : Prop := ∀ x ∈ block p, key x = key p

/-- What the results start from. -/
structure Sorted (s : Owners α κ τ) : Prop where
  oneKey : ∀ t p, (t, p) ∈ s.given → OneKey key block p
  kept : s.Kept key block

theorem sorted_nil (owner : κ → τ) : Sorted key block ⟨owner, ([] : List (τ × α))⟩ where
  oneKey _ _ h := by cases h
  kept _ _ h := by cases h

end

section

variable [DecidableEq κ]

/-- `t` gets the block at `p`, whose key is `k`. -/
def give (s : Owners α κ τ) (t : τ) (p : α) (k : κ) : Owners α κ τ :=
  ⟨Function.update s.owner k t, (t, p) :: s.given⟩

/-- The owner at `k` is replaced by `t`, who gets no block. -/
def clear (s : Owners α κ τ) (k : κ) (t : τ) : Owners α κ τ :=
  ⟨Function.update s.owner k t, s.given⟩

variable {key : α → Option κ} {block : α → Set α} {s : Owners α κ τ} {t : τ} {p x : α} {k : κ}

/-- An item with another key leads where it led before. -/
theorem leadsTo_update (u : τ) (hKey : key x ≠ some k) {given : List (τ × α)} :
    LeadsTo key ⟨Function.update s.owner k t, given⟩ x u ↔ s.LeadsTo key x u := by
  unfold LeadsTo
  constructor
  · rintro ⟨k', hk', hOwner⟩
    have hNe : k' ≠ k := fun hSame => hKey (hSame ▸ hk')
    exact ⟨k', hk', (Function.update_of_ne hNe ..).symm.trans hOwner⟩
  · rintro ⟨k', hk', hOwner⟩
    have hNe : k' ≠ k := fun hSame => hKey (hSame ▸ hk')
    exact ⟨k', hk', (Function.update_of_ne hNe ..).trans hOwner⟩

/-- What an item with that key leads to is known. -/
theorem leadsTo_written {u : τ} (hKey : key x = some k) {given : List (τ × α)} :
    LeadsTo key ⟨Function.update s.owner k t, given⟩ x u ↔ t = u := by
  unfold LeadsTo
  constructor
  · rintro ⟨k', hk', hOwner⟩
    obtain rfl := Option.some.inj (hKey.symm.trans hk')
    exact (Function.update_self ..).symm.trans hOwner
  · intro hSame
    exact ⟨k, hKey, (Function.update_self ..).trans hSame⟩

/-- The blocks that have another key stay with their owners. -/
theorem Sorted.others (h : Sorted key block s)
    (hApart : ∀ u q, (u, q) ∈ s.given → key q ≠ some k) {u : τ} {q : α} (hq : (u, q) ∈ s.given)
    {given : List (τ × α)} (hx : x ∈ block q) :
    LeadsTo key ⟨Function.update s.owner k t, given⟩ x u := by
  have hKey : key x ≠ some k := h.oneKey u q hq x hx ▸ hApart u q hq
  exact (leadsTo_update u hKey).mpr (h.kept u q hq x hx)

theorem Sorted.give (h : Sorted key block s) (hKey : key p = some k) (hOne : OneKey key block p)
    (hApart : ∀ u q, (u, q) ∈ s.given → key q ≠ some k) : Sorted key block (s.give t p k) where
  oneKey u q hq := by
    rcases List.mem_cons.mp hq with hHead | hOld
    · cases hHead
      exact hOne
    · exact h.oneKey u q hOld
  kept u q hq x hx := by
    rcases List.mem_cons.mp hq with hHead | hOld
    · cases hHead
      exact (leadsTo_written ((hOne x hx).trans hKey)).mpr rfl
    · exact h.others hApart hOld hx

/-- A block can be given to a new owner exactly when its items have one key and no block given
before has it. -/
theorem give_iff (h : Sorted key block s) (hSelf : ∀ p, p ∈ block p)
    (hNew : ∀ x, ¬ s.LeadsTo key x t) (hKey : key p = some k) :
    (s.give t p k).Kept key block ↔
      OneKey key block p ∧ ∀ u q, (u, q) ∈ s.given → key q ≠ some k := by
  constructor
  · intro hKept
    constructor
    · intro x hx
      by_contra hNe
      have hLeads := hKept t p List.mem_cons_self x hx
      exact hNew x ((leadsTo_update t (hKey ▸ hNe)).mp hLeads)
    · intro u q hq hSame
      have hLeads := hKept u q (List.mem_cons_of_mem _ hq) q (hSelf q)
      obtain rfl := (leadsTo_written hSame).mp hLeads
      exact hNew q (h.kept t q hq q (hSelf q))
  · rintro ⟨hOne, hApart⟩
    exact (h.give hKey hOne hApart).kept

theorem Sorted.clear (h : Sorted key block s)
    (hApart : ∀ u q, (u, q) ∈ s.given → key q ≠ some k) : Sorted key block (s.clear k t) :=
  ⟨h.oneKey, fun _ _ hq _ hx => h.others hApart hq hx⟩

/-- The owner at a key can be replaced exactly when no block has the key. -/
theorem clear_iff (h : Sorted key block s) (hSelf : ∀ p, p ∈ block p)
    (hNobody : ∀ p, (t, p) ∉ s.given) :
    (s.clear k t).Kept key block ↔ ∀ u q, (u, q) ∈ s.given → key q ≠ some k := by
  constructor
  · intro hKept u q hq hSame
    obtain rfl := (leadsTo_written hSame).mp (hKept u q hq q (hSelf q))
    exact hNobody q hq
  · intro hApart
    exact (h.clear hApart).kept

end

end Owners

end LunarOS.Logic
