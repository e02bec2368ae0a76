import LunarOS.Logic.Circular
import Mathlib.Data.List.Chain
import Mathlib.Logic.Function.Basic

/-!
# Families of rings

`Rings h L` says that `L` names circular lists with pairwise disjoint nodes in the heap `h`: the
list at head `l` is `L l`. A change of the heap is described by what it does to the two links:

* `Circular.append`: an entry linked in before the head;
* `Circular.remove`: an entry cut out, wherever it stands;
* `Circular.frame`: a ring none of whose nodes is changed.

`Rings.update` carries the change of one list to the family.
-/

namespace LunarOS.Logic

variable {α : Type*}

def nextOf (h : α → Option (Link α)) (x : α) : Option α := (h x).map Link.next

def prevOf (h : α → Option (Link α)) (x : α) : Option α := (h x).map Link.prev

/-- `x` is followed by `y`. -/
def Follows (h : α → Option (Link α)) (x y : α) : Prop :=
  nextOf h x = some y ∧ prevOf h y = some x

theorem links_iff_isChain {h : α → Option (Link α)} {l : List α} :
    Links h l ↔ l.IsChain (Follows h) := by
  induction l with
  | nil => simp [Links]
  | cons x l ih =>
    cases l with
    | nil => simp [Links]
    | cons y rest =>
      rw [List.isChain_cons_cons, ← ih]
      simp [Links, Follows, nextOf, prevOf, and_assoc]

/-- A chain only reads `next` before its last member and `prev` after its first. -/
theorem isChain_congr {h h' : α → Option (Link α)} {l : List α}
    (hNext : ∀ x ∈ l.dropLast, nextOf h' x = nextOf h x)
    (hPrev : ∀ x ∈ l.tail, prevOf h' x = prevOf h x) (hc : l.IsChain (Follows h)) :
    l.IsChain (Follows h') := by
  induction l with
  | nil => exact List.isChain_nil
  | cons x l ih =>
    cases l with
    | nil => exact List.isChain_singleton x
    | cons y rest =>
      obtain ⟨⟨hxy, hyx⟩, hRest⟩ := List.isChain_cons_cons.mp hc
      refine List.isChain_cons_cons.mpr ⟨⟨?_, ?_⟩, ih (fun z hz => ?_) (fun z hz => ?_) hRest⟩
      · rw [hNext x (by simp), hxy]
      · rw [hPrev y (by simp), hyx]
      · exact hNext z (by simpa using Or.inr hz)
      · exact hPrev z (List.mem_cons_of_mem _ hz)

namespace Circular

variable {h h' : α → Option (Link α)} {l e : α} {xs as bs : List α}

theorem chain (hc : Circular h l xs) : (l :: xs ++ [l]).IsChain (Follows h) :=
  links_iff_isChain.mp hc.1

theorem frame (hc : Circular h l xs) (hSame : ∀ x ∈ l :: xs, h' x = h x) : Circular h' l xs := by
  have hNodes : ∀ x ∈ l :: xs ++ [l], h' x = h x := by
    intro x hx
    rcases List.mem_append.mp hx with hx | hx
    · exact hSame x hx
    · exact hSame x (List.mem_singleton.mp hx ▸ List.mem_cons_self)
  refine ⟨links_iff_isChain.mpr (isChain_congr (fun x hx => ?_) (fun x hx => ?_) hc.chain), hc.2⟩
  · unfold nextOf
    rw [hNodes x (List.mem_of_mem_dropLast hx)]
  · unfold prevOf
    rw [hNodes x (List.mem_of_mem_tail hx)]

/-- The ring is closed by its last member. -/
theorem last (hc : Circular h l xs) {as : List α} {p : α} (hLast : l :: xs = as ++ [p]) :
    (as ++ [p]).IsChain (Follows h) ∧ Follows h p l := by
  have hChain := hc.chain
  rw [hLast, List.append_assoc, List.singleton_append, List.isChain_append_cons_cons] at hChain
  exact ⟨hChain.1, hChain.2.1⟩

/-- The two neighbours of an entry. -/
theorem neighbours (hc : Circular h l (as ++ e :: bs)) {as' bs' : List α} {p n : α}
    (hPrev : l :: as = as' ++ [p]) (hNext : bs ++ [l] = n :: bs') :
    (as' ++ [p]).IsChain (Follows h) ∧ Follows h p e ∧ Follows h e n ∧
      (n :: bs').IsChain (Follows h) := by
  have hChain := hc.chain
  rw [← List.cons_append, hPrev, List.append_assoc, List.cons_append, hNext, List.append_assoc,
    List.singleton_append, List.isChain_append_cons_cons, List.isChain_cons_cons] at hChain
  exact ⟨hChain.1, hChain.2.1, hChain.2.2.1, hChain.2.2.2⟩

/-- `e` linked in between the last member `p` and the head. -/
theorem append (hc : Circular h l xs) (hFresh : e ∉ l :: xs) {p : α} (hp : prevOf h l = some p)
    (hEntry : h' e = some ⟨p, l⟩) (hNextP : nextOf h' p = some e) (hPrevL : prevOf h' l = some e)
    (hNext : ∀ x, x ≠ e → x ≠ p → nextOf h' x = nextOf h x)
    (hPrev : ∀ x, x ≠ e → x ≠ l → prevOf h' x = prevOf h x) : Circular h' l (xs ++ [e]) := by
  obtain ⟨as, q, hLast⟩ := (List.eq_nil_or_concat (l :: xs)).resolve_left (by simp)
  rw [List.concat_eq_append] at hLast
  obtain ⟨hChain, -, hql⟩ := hc.last hLast
  obtain rfl := Option.some.inj (hql.symm.trans hp)
  have hNodup : (as ++ [q]).Nodup := hLast ▸ hc.2
  rw [List.nodup_append] at hNodup
  constructor
  · rw [links_iff_isChain, ← List.cons_append, hLast, List.append_assoc, List.append_assoc,
      List.singleton_append, List.singleton_append, List.isChain_append_cons_cons,
      List.isChain_cons_cons]
    refine ⟨isChain_congr (fun x hx => ?_) (fun x hx => ?_) hChain, ⟨hNextP, ?_⟩, ⟨?_, hPrevL⟩,
      List.isChain_singleton l⟩
    · rw [List.dropLast_concat] at hx
      apply hNext
      · rintro rfl
        exact hFresh (hLast ▸ List.mem_append_left _ hx)
      · exact fun hEq => hNodup.2.2 x hx q (List.mem_singleton.mpr rfl) hEq
    · rw [← hLast] at hx
      apply hPrev
      · rintro rfl
        exact hFresh (List.mem_of_mem_tail hx)
      · rintro rfl
        exact (List.nodup_cons.mp hc.2).1 hx
    · simp [prevOf, hEntry]
    · simp [nextOf, hEntry]
  · rw [← List.cons_append, List.nodup_append]
    refine ⟨hc.2, by simp, ?_⟩
    rintro x hx y hy rfl
    exact hFresh (List.mem_singleton.mp hy ▸ hx)

/-- `e` cut out from between `p` and `n`. -/
theorem remove (hc : Circular h l (as ++ e :: bs)) {p n : α} (he : h e = some ⟨p, n⟩)
    (hNextP : nextOf h' p = some n) (hPrevN : prevOf h' n = some p)
    (hNext : ∀ x, x ≠ e → x ≠ p → nextOf h' x = nextOf h x)
    (hPrev : ∀ x, x ≠ e → x ≠ n → prevOf h' x = prevOf h x) : Circular h' l (as ++ bs) := by
  obtain ⟨as', q, hBefore⟩ := (List.eq_nil_or_concat (l :: as)).resolve_left (by simp)
  rw [List.concat_eq_append] at hBefore
  obtain ⟨m, bs', hAfter⟩ := List.exists_cons_of_ne_nil (l := bs ++ [l]) (by simp)
  obtain ⟨hFront, ⟨-, hpe⟩, ⟨hen, -⟩, hBack⟩ := hc.neighbours hBefore hAfter
  obtain rfl : p = q := by simpa [prevOf, he] using hpe
  obtain rfl : n = m := by simpa [nextOf, he] using hen
  have hNodup := hc.2
  rw [← List.cons_append, List.nodup_append, List.nodup_cons (a := e)] at hNodup
  obtain ⟨hAs, ⟨heBs, hBs⟩, hApart⟩ := hNodup
  have hHead : l ∉ bs := fun hl => hApart l List.mem_cons_self l (List.mem_cons_of_mem _ hl) rfl
  have hNe : ∀ x ∈ l :: as, x ≠ e := fun x hx => hApart x hx e List.mem_cons_self
  have hFrontNodup : (as' ++ [p]).Nodup := hBefore ▸ hAs
  have hBackNodup : (n :: bs').Nodup := by
    rw [← hAfter, List.nodup_append]
    refine ⟨hBs, by simp, ?_⟩
    rintro x hx y hy rfl
    exact hHead (List.mem_singleton.mp hy ▸ hx)
  have hpFront : p ∈ l :: as := hBefore ▸ List.mem_append_right _ (List.mem_singleton.mpr rfl)
  have hnBack : n ∈ bs ∨ n = l := by
    have hMem : n ∈ bs ++ [l] := hAfter ▸ List.mem_cons_self
    simpa using hMem
  constructor
  · rw [links_iff_isChain, ← List.cons_append, hBefore, List.append_assoc, hAfter,
      List.append_assoc, List.singleton_append, List.isChain_append_cons_cons]
    refine ⟨isChain_congr (fun x hx => ?_) (fun x hx => ?_) hFront, ⟨hNextP, hPrevN⟩,
      isChain_congr (fun x hx => ?_) (fun x hx => ?_) hBack⟩
    · rw [List.dropLast_concat] at hx
      refine hNext x (hNe x (hBefore ▸ List.mem_append_left _ hx)) fun hEq => ?_
      exact (List.nodup_append.mp hFrontNodup).2.2 x hx p (List.mem_singleton.mpr rfl) hEq
    · rw [← hBefore] at hx
      have hxAs : x ∈ as := hx
      refine hPrev x (hNe x (List.mem_cons_of_mem _ hxAs)) ?_
      rintro rfl
      rcases hnBack with hIn | rfl
      · exact hApart x (List.mem_cons_of_mem _ hxAs) x (List.mem_cons_of_mem _ hIn) rfl
      · exact (List.nodup_cons.mp hAs).1 hxAs
    · rw [← hAfter, List.dropLast_concat] at hx
      refine hNext x (fun hEq => heBs (hEq ▸ hx)) ?_
      rintro rfl
      exact hApart x hpFront x (List.mem_cons_of_mem _ hx) rfl
    · have hxTail : x ∈ bs' := hx
      refine hPrev x ?_ fun hEq => (List.nodup_cons.mp hBackNodup).1 (hEq ▸ hxTail)
      have hMem : x ∈ bs ++ [l] := hAfter ▸ List.mem_cons_of_mem _ hxTail
      rcases List.mem_append.mp hMem with hIn | hl
      · exact fun hEq => heBs (hEq ▸ hIn)
      · exact List.mem_singleton.mp hl ▸ hNe l List.mem_cons_self
  · rw [← List.cons_append, List.nodup_append]
    exact ⟨hAs, hBs, fun x hx y hy => hApart x hx y (List.mem_cons_of_mem _ hy)⟩

end Circular

/-! ## Families -/

/-- The circular lists of a heap, by their heads. -/
structure Rings (h : α → Option (Link α)) (L : α → Option (List α)) : Prop where
  ring : ∀ {l xs}, L l = some xs → Circular h l xs
  apart : ∀ {l xs m ys}, L l = some xs → L m = some ys → l ≠ m →
    List.Disjoint (l :: xs) (m :: ys)

/-- `e` is a node of no list. -/
def Free (L : α → Option (List α)) (e : α) : Prop := ∀ l xs, L l = some xs → e ∉ l :: xs

namespace Rings

variable {h h' : α → Option (Link α)} {L : α → Option (List α)}

/-- An entry is on one list only. -/
theorem unique (hR : Rings h L) {l m e : α} {xs ys : List α} (hl : L l = some xs)
    (hm : L m = some ys) (hx : e ∈ l :: xs) (hy : e ∈ m :: ys) : l = m := by
  by_contra hne
  exact hR.apart hl hm hne hx hy

/-- One list is replaced, and the nodes of the others are left alone. -/
theorem update [DecidableEq α] (hR : Rings h L) {l : α} {ys : List α} (hRing : Circular h' l ys)
    (hFrame : ∀ m zs, m ≠ l → L m = some zs → ∀ x ∈ m :: zs, h' x = h x)
    (hApart : ∀ m zs, m ≠ l → L m = some zs → List.Disjoint (l :: ys) (m :: zs)) :
    Rings h' (Function.update L l (some ys)) := by
  constructor
  · intro m zs hm
    by_cases hml : m = l
    · subst hml
      rw [Function.update_self] at hm
      exact Option.some.inj hm ▸ hRing
    · rw [Function.update_of_ne hml] at hm
      exact (hR.ring hm).frame (hFrame m zs hml hm)
  · intro a xs m zs ha hm hne
    by_cases hal : a = l <;> by_cases hml : m = l
    · exact absurd (hal.trans hml.symm) hne
    · subst hal
      rw [Function.update_self] at ha
      rw [Function.update_of_ne hml] at hm
      exact Option.some.inj ha ▸ hApart m zs hml hm
    · subst hml
      rw [Function.update_self] at hm
      rw [Function.update_of_ne hal] at ha
      exact Option.some.inj hm ▸ fun x hx hy => hApart a xs hal ha hy hx
    · rw [Function.update_of_ne hal] at ha
      rw [Function.update_of_ne hml] at hm
      exact hR.apart ha hm hne

/-- Erasing an entry from every list changes the one it is on. -/
theorem erase_eq [DecidableEq α] (hR : Rings h L) {l e : α} {as bs : List α}
    (hl : L l = some (as ++ e :: bs)) : (fun m => (L m).map (·.erase e)) =
      Function.update L l (some (as ++ bs)) := by
  have heAs : e ∉ as := by
    have hNodup := (List.nodup_cons.mp (hR.ring hl).2).2
    exact fun hIn => (List.nodup_append.mp hNodup).2.2 e hIn e List.mem_cons_self rfl
  funext m
  by_cases hml : m = l
  · subst hml
    rw [Function.update_self, hl, Option.map_some, List.erase_append_right _ heAs,
      List.erase_cons_head]
  · rw [Function.update_of_ne hml]
    cases hm : L m with
    | none => rfl
    | some zs =>
      rw [Option.map_some, List.erase_of_not_mem fun hIn => hml ?_]
      exact hR.unique hm hl (List.mem_cons_of_mem _ hIn) (by simp)

end Rings

end LunarOS.Logic
