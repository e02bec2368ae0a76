import LunarOS.Logic.Rings
import LunarOS.Logic.Run
import LunarOS.Machine.List

/-!
# Intrusive lists as sequences

A run works on the lists of one heap with `list_init`, `list_pushback`, `list_remove` and
`list_pop`. `list_sequences` says what holds after every run: the lists are still apart and
well formed, a traversal meets the entries in order, and whatever call comes next does to the
sequences what its name says.
-/

namespace LunarOS

open Logic

/-- The entries `list_for_each` meets from `cursor` on. -/
def listForEach (h : Heap) (head : Nat) : Nat → Nat → Outcome (List Nat)
  | 0, _ => .error .fuel
  | fuel + 1, cursor =>
    if cursor = head then pure []
    else do
      let rest ← listForEach h head fuel (← h.read cursor).next
      pure (cursor :: rest)

/-- `list_for_each(cursor, head)` -/
def listVisits (h : Heap) (head fuel : Nat) : Outcome (List Nat) := do
  listForEach h head fuel (← h.read head).next

/-! ## Operations on sequences -/

/-- The sequence at each head. -/
abbrev Lists := Nat → Option (List Nat)

inductive ListAct
  | init (lst : Nat)
  | pushback (lst entry : Nat)
  | remove (entry : Nat)
  | pop (lst : Nat)
  deriving DecidableEq, Repr

/-- The call, with what it returns. -/
def ListAct.run (h : Heap) : ListAct → Outcome (Option Nat × Heap)
  | .init lst => .ok (none, listInit h lst)
  | .pushback lst entry => do pure (none, ← listPushback h lst entry)
  | .remove entry => do pure (none, ← listRemove h entry)
  | .pop lst => listPop h lst

/-- What the call means for the sequences. -/
def ListAct.spec (L : Lists) : ListAct → Option Nat × Lists
  | .init lst => (none, Function.update L lst (some []))
  | .pushback lst entry => (none, Function.update L lst ((L lst).map (· ++ [entry])))
  | .remove entry => (none, fun l => (L l).map (·.erase entry))
  | .pop lst => ((L lst).bind List.getLast?, Function.update L lst ((L lst).map List.dropLast))

/-- The lists a call is about. -/
def ListAct.Touches (L : Lists) (m : Nat) : ListAct → Prop
  | .init lst => m = lst
  | .pushback lst _ => m = lst
  | .remove entry => ∃ xs, L m = some xs ∧ entry ∈ xs
  | .pop lst => m = lst

structure ListState where
  heap : Heap
  lists : Lists

/-- A new head or entry is on no list, a removed entry is on one. -/
def Permitted (s : ListState) : ListAct → Prop
  | .init lst => (s.heap lst).isSome ∧ Free s.lists lst
  | .pushback lst entry => (s.lists lst).isSome ∧ (s.heap entry).isSome ∧ Free s.lists entry
  | .remove entry => ∃ l xs, s.lists l = some xs ∧ entry ∈ xs
  | .pop lst => (s.lists lst).isSome

def ListStep (s : ListState) (act : ListAct) (s' : ListState) : Prop :=
  ∃ r, act.run s.heap = .ok (r, s'.heap) ∧ s'.lists = (act.spec s.lists).2

/-- The call has done what it means, and nothing else. -/
structure Performed (s : ListState) (act : ListAct) (r : Option Nat) (h' : Heap) : Prop where
  result : r = (act.spec s.lists).1
  rings : Rings h' (act.spec s.lists).2
  others : ∀ m xs, s.lists m = some xs → ¬ act.Touches s.lists m →
    (act.spec s.lists).2 m = some xs ∧ ∀ x ∈ m :: xs, h' x = s.heap x
  alone : ∀ e, act = .remove e ∨ (∃ l, act = .pop l) ∧ r = some e → h' e = some ⟨e, e⟩
  nodes : SameNodes s.heap h'

/-- The lists are sequences, and stay so with the next call. -/
structure Sequences (s : ListState) : Prop where
  rings : Rings s.heap s.lists
  visits : ∀ l xs, s.lists l = some xs → Returns (listVisits s.heap l) xs
  next : ∀ act, Permitted s act → ∃ r h', act.run s.heap = .ok (r, h') ∧ Performed s act r h'

/-! ## Traversal -/

theorem isSome_of_nextOf {h : Heap} {x y : Nat} (hx : nextOf h x = some y) : (h x).isSome := by
  unfold nextOf at hx
  simpa using Option.isSome_of_mem hx

theorem isSome_of_prevOf {h : Heap} {x y : Nat} (hx : prevOf h x = some y) : (h x).isSome := by
  unfold prevOf at hx
  simpa using Option.isSome_of_mem hx

theorem read_next {h : Heap} {x y : Nat} (hx : nextOf h x = some y) :
    ∃ c, h.read x = .ok c ∧ c.next = y := by
  obtain ⟨c, hc⟩ := Option.isSome_iff_exists.mp (isSome_of_nextOf hx)
  refine ⟨c, Heap.read_of_some hc, ?_⟩
  simpa [nextOf, hc] using hx

/-- A cursor inside a ring meets the rest of it. -/
theorem listForEach_chain {h : Heap} {head : Nat} {rest : List Nat} (hHead : head ∉ rest)
    (hc : (rest ++ [head]).IsChain (Follows h)) {cursor : Nat} {tail : List Nat}
    (hCursor : rest ++ [head] = cursor :: tail) :
    listForEach h head (rest.length + 1) cursor = .ok rest := by
  induction rest generalizing cursor tail with
  | nil =>
    obtain ⟨rfl, -⟩ := List.cons.inj hCursor
    simp [listForEach, pure, Except.pure]
  | cons x rest ih =>
    obtain ⟨rfl, -⟩ := List.cons.inj hCursor
    obtain ⟨y, tail', hNext⟩ := List.exists_cons_of_ne_nil (l := rest ++ [head]) (by simp)
    rw [List.cons_append, hNext] at hc
    obtain ⟨⟨hxy, -⟩, hRest⟩ := List.isChain_cons_cons.mp hc
    obtain ⟨c, hRead, rfl⟩ := read_next hxy
    have hNe : x ≠ head := fun hEq => hHead (hEq ▸ List.mem_cons_self)
    unfold listForEach
    rw [if_neg hNe, hRead, ok_bind_eq, List.length_cons,
      ih (fun hIn => hHead (List.mem_cons_of_mem _ hIn)) (hNext ▸ hRest) hNext, ok_bind_eq]
    rfl

/-- `list_for_each` visits the entries once each, in order. -/
theorem listVisits_ring {h : Heap} {l : Nat} {xs : List Nat} (hc : Circular h l xs) :
    Returns (listVisits h l) xs := by
  obtain ⟨y, tail, hNext⟩ := List.exists_cons_of_ne_nil (l := xs ++ [l]) (by simp)
  have hChain := hc.chain
  rw [List.cons_append, hNext] at hChain
  obtain ⟨⟨hly, -⟩, hRest⟩ := List.isChain_cons_cons.mp hChain
  obtain ⟨c, hRead, rfl⟩ := read_next hly
  refine ⟨xs.length + 1, ?_⟩
  unfold listVisits
  rw [hRead, ok_bind_eq]
  exact listForEach_chain (List.nodup_cons.mp hc.2).1 (hNext ▸ hRest) hNext

/-! ## The links after a call -/

section

variable {h : Heap} {lst entry prev x : Nat} {c v : ListT}

theorem linked_next (hx : x ≠ entry) : nextOf (linked h lst entry prev) x =
    (h x).map fun d => if x = prev then entry else d.next := by
  unfold nextOf linked
  rw [if_neg hx, Option.map_map]
  rfl

theorem linked_prev (hx : x ≠ entry) : prevOf (linked h lst entry prev) x =
    (h x).map fun d => if x = lst then entry else d.prev := by
  unfold prevOf linked
  rw [if_neg hx, Option.map_map]
  rfl

theorem unlinked_next (hx : x ≠ entry) : nextOf (unlinked h entry c v) x =
    (h x).map fun d => if x = c.prev then c.next else d.next := by
  unfold nextOf unlinked
  rw [if_neg hx, Option.map_map]
  rfl

theorem unlinked_prev (hx : x ≠ entry) : prevOf (unlinked h entry c v) x =
    (h x).map fun d => if x = c.next then c.prev else d.prev := by
  unfold prevOf unlinked
  rw [if_neg hx, Option.map_map]
  rfl

end

/-- `list_pushback` appends to a ring. -/
theorem pushback_ring {h : Heap} {lst entry : Nat} {xs : List Nat} (hc : Circular h lst xs)
    (hFresh : entry ∉ lst :: xs) (hMapped : (h entry).isSome) :
    ∃ p ∈ lst :: xs, listPushback h lst entry = .ok (linked h lst entry p) ∧
      Circular (linked h lst entry p) lst (xs ++ [entry]) := by
  obtain ⟨as, p, hLast⟩ := (List.eq_nil_or_concat (lst :: xs)).resolve_left (by simp)
  rw [List.concat_eq_append] at hLast
  obtain ⟨-, hpl, hlp⟩ := hc.last hLast
  have hp : p ∈ lst :: xs := hLast ▸ List.mem_append_right _ (List.mem_singleton.mpr rfl)
  have hNe : lst ≠ entry := fun hEq => hFresh (hEq ▸ List.mem_cons_self)
  have hpNe : p ≠ entry := fun hEq => hFresh (hEq ▸ hp)
  obtain ⟨c, hHead⟩ := Option.isSome_iff_exists.mp (isSome_of_prevOf hlp)
  obtain ⟨d, hTail⟩ := Option.isSome_iff_exists.mp (isSome_of_nextOf hpl)
  have hcp : c.prev = p := by simpa [prevOf, hHead] using hlp
  refine ⟨p, hp, ?_, ?_⟩
  · rw [listPushback_eq hHead (by rw [hcp, hTail]; rfl) hMapped hNe, hcp]
  · apply hc.append hFresh hlp (linked_entry h lst entry p)
    · rw [linked_next hpNe, hTail]
      simp
    · rw [linked_prev hNe, hHead]
      simp
    · intro x hx hxp
      rw [linked_next hx]
      simp [nextOf, hxp]
    · intro x hx hxl
      rw [linked_prev hx]
      simp [prevOf, hxl]

/-- `list_remove` cuts an entry out of a ring. -/
theorem remove_ring {h : Heap} {lst entry : Nat} {as bs : List Nat}
    (hc : Circular h lst (as ++ entry :: bs)) :
    ∃ c, h entry = some c ∧ c.prev ∈ lst :: as ∧ c.next ∈ bs ++ [lst] ∧
      listRemove h entry = .ok (unlinked h entry c ⟨entry, entry⟩) ∧
      Circular (unlinked h entry c ⟨entry, entry⟩) lst (as ++ bs) := by
  obtain ⟨as', p, hBefore⟩ := (List.eq_nil_or_concat (lst :: as)).resolve_left (by simp)
  rw [List.concat_eq_append] at hBefore
  obtain ⟨n, bs', hAfter⟩ := List.exists_cons_of_ne_nil (l := bs ++ [lst]) (by simp)
  obtain ⟨-, ⟨hpe, hep⟩, ⟨hen, hne⟩, -⟩ := hc.neighbours hBefore hAfter
  have hp : p ∈ lst :: as := hBefore ▸ List.mem_append_right _ (List.mem_singleton.mpr rfl)
  have hn : n ∈ bs ++ [lst] := hAfter ▸ List.mem_cons_self
  obtain ⟨⟨cp, cn⟩, hEntry⟩ := Option.isSome_iff_exists.mp (isSome_of_prevOf hep)
  obtain ⟨d, hd⟩ := Option.isSome_iff_exists.mp (isSome_of_nextOf hpe)
  obtain ⟨f, hf⟩ := Option.isSome_iff_exists.mp (isSome_of_prevOf hne)
  obtain rfl : cp = p := by simpa [prevOf, hEntry] using hep
  obtain rfl : cn = n := by simpa [nextOf, hEntry] using hen
  have hNodup := hc.2
  rw [← List.cons_append, List.nodup_append, List.nodup_cons (a := entry)] at hNodup
  obtain ⟨-, ⟨heBs, -⟩, hApart⟩ := hNodup
  have hpNe : cp ≠ entry := hApart cp hp entry List.mem_cons_self
  have hlNe : lst ≠ entry := hApart lst List.mem_cons_self entry List.mem_cons_self
  have hnNe : cn ≠ entry := by
    rintro rfl
    rcases List.mem_append.mp hn with hIn | hl
    · exact heBs hIn
    · exact hlNe (List.mem_singleton.mp hl).symm
  refine ⟨⟨cp, cn⟩, hEntry, hp, hn, ?_, ?_⟩
  · rw [listRemove_eq_ok]
    exact ⟨⟨cp, cn⟩, hEntry, by simp [hd], by simp [hf], rfl⟩
  · apply hc.remove hEntry
    · rw [unlinked_next hpNe, hd]
      simp
    · rw [unlinked_prev hnNe, hf]
      simp
    · intro x hx hxp
      rw [unlinked_next hx]
      simp [nextOf, hxp]
    · intro x hx hxn
      rw [unlinked_prev hx]
      simp [prevOf, hxn]

/-! ## The calls on a family of lists -/

section

variable {s : ListState}

theorem init_performed {lst : Nat} (hR : Rings s.heap s.lists)
    (h : Permitted s (.init lst)) :
    Performed s (.init lst) none (listInit s.heap lst) := by
  obtain ⟨hMapped, hFree⟩ := h
  have hOthers : ∀ m xs, s.lists m = some xs → ∀ x ∈ m :: xs,
      listInit s.heap lst x = s.heap x := by
    intro m xs hm x hx
    have hne : x ≠ lst := by
      rintro rfl
      exact hFree m xs hm hx
    exact Heap.write_other hne _
  constructor
  · rfl
  · apply hR.update (circular_nil (Heap.write_same _ _ _))
    · exact fun m xs _ hm => hOthers m xs hm
    · rintro m xs - hm x hx hxm
      exact hFree m xs hm (List.mem_singleton.mp hx ▸ hxm)
  · exact fun m xs hm hNot => ⟨by
      simp only [ListAct.spec]
      rw [Function.update_of_ne hNot]
      exact hm, hOthers m xs hm⟩
  · rintro e (hAct | ⟨⟨l, hAct⟩, -⟩) <;> cases hAct
  · exact write_sameNodes hMapped _

theorem pushback_performed {lst entry : Nat} (hR : Rings s.heap s.lists)
    (h : Permitted s (.pushback lst entry)) :
    ∃ h', listPushback s.heap lst entry = .ok h' ∧
      Performed s (.pushback lst entry) none h' := by
  obtain ⟨hList, hMapped, hFree⟩ := h
  obtain ⟨xs, hl⟩ := Option.isSome_iff_exists.mp hList
  obtain ⟨p, hp, hPush, hRing⟩ := pushback_ring (hR.ring hl) (hFree lst xs hl) hMapped
  have hOthers : ∀ m zs, m ≠ lst → s.lists m = some zs → ∀ x ∈ m :: zs,
      linked s.heap lst entry p x = s.heap x := by
    intro m zs hne hm x hx
    have hOff : x ∉ lst :: xs := fun hIn => hne (hR.unique hm hl hx hIn)
    exact linked_outside (fun hEq => hFree m zs hm (hEq ▸ hx))
      (fun hEq => hOff (hEq ▸ List.mem_cons_self)) fun hEq => hOff (hEq ▸ hp)
  refine ⟨_, hPush, ?_⟩
  constructor
  · rfl
  · simp only [ListAct.spec, hl, Option.map_some]
    apply hR.update hRing hOthers
    intro m zs hne hm x hx hxm
    rw [← List.cons_append] at hx
    rcases List.mem_append.mp hx with hIn | hNew
    · exact hne (hR.unique hm hl hxm hIn)
    · exact hFree m zs hm (List.mem_singleton.mp hNew ▸ hxm)
  · intro m zs hm hNot
    simp only [ListAct.spec]
    rw [Function.update_of_ne hNot]
    exact ⟨hm, hOthers m zs hNot hm⟩
  · rintro e (hAct | ⟨⟨l, hAct⟩, -⟩) <;> cases hAct
  · exact linked_sameNodes hMapped lst p

/-- `list_remove` on the list `entry` is on. -/
theorem remove_rings {lst entry : Nat} {as bs : List Nat} (hR : Rings s.heap s.lists)
    (hl : s.lists lst = some (as ++ entry :: bs)) :
    ∃ h', listRemove s.heap entry = .ok h' ∧
      Rings h' (Function.update s.lists lst (some (as ++ bs))) ∧
      (∀ m zs, m ≠ lst → s.lists m = some zs → ∀ x ∈ m :: zs, h' x = s.heap x) ∧
      h' entry = some ⟨entry, entry⟩ ∧ SameNodes s.heap h' := by
  obtain ⟨c, hEntry, hp, hn, hRemove, hRing⟩ := remove_ring (hR.ring hl)
  have hOthers : ∀ m zs, m ≠ lst → s.lists m = some zs → ∀ x ∈ m :: zs,
      unlinked s.heap entry c ⟨entry, entry⟩ x = s.heap x := by
    intro m zs hne hm x hx
    have hOff : x ∉ lst :: (as ++ entry :: bs) := fun hIn => hne (hR.unique hm hl hx hIn)
    apply unlinked_outside
    · rintro rfl
      exact hOff (by simp)
    · rintro rfl
      exact hOff (by rw [← List.cons_append]; exact List.mem_append_left _ hp)
    · rintro rfl
      rcases List.mem_append.mp hn with hIn | hHead
      · exact hOff (by simp [hIn])
      · exact hOff (by simp [List.mem_singleton.mp hHead])
  refine ⟨_, hRemove, hR.update hRing hOthers ?_, hOthers, if_pos rfl,
    unlinked_sameNodes (by simp [hEntry]) c _⟩
  intro m zs hne hm x hx hxm
  refine hne (hR.unique hm hl hxm ?_)
  rw [← List.cons_append] at hx ⊢
  rcases List.mem_append.mp hx with hIn | hIn
  · exact List.mem_append_left _ hIn
  · exact List.mem_append_right _ (List.mem_cons_of_mem _ hIn)

theorem remove_performed {entry : Nat} (hR : Rings s.heap s.lists)
    (h : Permitted s (.remove entry)) :
    ∃ h', listRemove s.heap entry = .ok h' ∧ Performed s (.remove entry) none h' := by
  obtain ⟨lst, xs, hl, hIn⟩ := h
  obtain ⟨as, bs, rfl⟩ := List.append_of_mem hIn
  obtain ⟨h', hRemove, hRings, hOthers, hAlone, hNodes⟩ := remove_rings hR hl
  have hSpec : ((ListAct.remove entry).spec s.lists).2 =
      Function.update s.lists lst (some (as ++ bs)) := hR.erase_eq hl
  refine ⟨h', hRemove, rfl, ?_, ?_, ?_, hNodes⟩
  · rw [hSpec]
    exact hRings
  · intro m zs hm hNot
    have hne : m ≠ lst := by
      rintro rfl
      exact hNot ⟨_, hl, hIn⟩
    rw [hSpec, Function.update_of_ne hne]
    exact ⟨hm, hOthers m zs hne hm⟩
  · rintro e (hAct | ⟨⟨l, hAct⟩, -⟩)
    · cases hAct
      exact hAlone
    · cases hAct

theorem pop_performed {lst : Nat} (hR : Rings s.heap s.lists) (h : Permitted s (.pop lst)) :
    ∃ r h', listPop s.heap lst = .ok (r, h') ∧ Performed s (.pop lst) r h' := by
  obtain ⟨xs, hl⟩ := Option.isSome_iff_exists.mp (h : (s.lists lst).isSome)
  have hRing := hR.ring hl
  rcases List.eq_nil_or_concat xs with rfl | ⟨as, entry, rfl⟩
  · obtain ⟨-, -, hBack⟩ := hRing.last (show [lst] = [] ++ [lst] from rfl)
    obtain ⟨c, hc⟩ := Option.isSome_iff_exists.mp (isSome_of_prevOf hBack)
    have hSelf : c.prev = lst := by simpa [prevOf, hc] using hBack
    refine ⟨none, s.heap, listPop_empty hc hSelf, ?_⟩
    have hSame : Function.update s.lists lst (some []) = s.lists := by
      rw [← hl, Function.update_eq_self]
    constructor
    · simp [ListAct.spec, hl]
    · simp only [ListAct.spec, hl, Option.map_some, List.dropLast_nil]
      rw [hSame]
      exact hR
    · intro m zs hm _
      refine ⟨?_, fun _ _ => rfl⟩
      simp only [ListAct.spec, hl, Option.map_some, List.dropLast_nil]
      rw [hSame]
      exact hm
    · rintro e (hAct | ⟨-, hNone⟩)
      · cases hAct
      · cases hNone
    · exact SameNodes.refl _
  · rw [List.concat_eq_append] at hl hRing
    obtain ⟨-, -, hBack⟩ := hRing.last
      (show lst :: (as ++ [entry]) = (lst :: as) ++ [entry] from rfl)
    obtain ⟨c, hc⟩ := Option.isSome_iff_exists.mp (isSome_of_prevOf hBack)
    have hLast : c.prev = entry := by simpa [prevOf, hc] using hBack
    have hne : entry ≠ lst := by
      rintro rfl
      exact (List.nodup_cons.mp hRing.2).1 (by simp)
    obtain ⟨h', hRemove, hRings, hOthers, hAlone, hNodes⟩ := remove_rings hR hl
    refine ⟨some entry, h', ?_, ?_⟩
    · rw [listPop_nonempty hc (by rwa [hLast]), hLast, hRemove]
      rfl
    · rw [List.append_nil] at hRings
      constructor
      · simp [ListAct.spec, hl]
      · simp only [ListAct.spec, hl, Option.map_some, List.dropLast_concat]
        exact hRings
      · intro m zs hm hNot
        simp only [ListAct.spec]
        rw [Function.update_of_ne hNot]
        exact ⟨hm, hOthers m zs hNot hm⟩
      · rintro e (hAct | ⟨-, hPopped⟩)
        · cases hAct
        · cases hPopped
          exact hAlone
      · exact hNodes

/-- Every permitted call completes with its effect. -/
theorem act_performed (hR : Rings s.heap s.lists) {act : ListAct} (h : Permitted s act) :
    ∃ r h', act.run s.heap = .ok (r, h') ∧ Performed s act r h' := by
  cases act with
  | init lst => exact ⟨none, _, rfl, init_performed hR h⟩
  | pushback lst entry =>
    obtain ⟨h', hPush, hDone⟩ := pushback_performed hR h
    refine ⟨none, h', ?_, hDone⟩
    simp only [ListAct.run, hPush, ok_bind_eq]
    rfl
  | remove entry =>
    obtain ⟨h', hRemove, hDone⟩ := remove_performed hR h
    refine ⟨none, h', ?_, hDone⟩
    simp only [ListAct.run, hRemove, ok_bind_eq]
    rfl
  | pop lst => exact pop_performed hR h

end

theorem step_rings {s s' : ListState} {act : ListAct} (hR : Rings s.heap s.lists)
    (hStep : Guarded Permitted ListStep s act s') : Rings s'.heap s'.lists := by
  obtain ⟨hPermitted, r, hRun, hLists⟩ := hStep
  obtain ⟨r', h', hRun', hDone⟩ := act_performed hR hPermitted
  rw [hRun] at hRun'
  cases hRun'
  rw [hLists]
  exact hDone.rings

/-- After every run of permitted calls the lists are sequences. -/
theorem list_sequences {s s' : ListState} {acts : List ListAct} (hR : Rings s.heap s.lists)
    (hRun : Run (Guarded Permitted ListStep) s acts s') : Sequences s' := by
  have hRings : Rings s'.heap s'.lists :=
    hRun.invariant (fun s => Rings s.heap s.lists) (fun _ _ _ => step_rings) hR
  exact ⟨hRings, fun l xs hl => listVisits_ring (hRings.ring hl),
    fun act hPermitted => act_performed hRings hPermitted⟩

/-- The lists at 16 and at 48. -/
def listPair (xs ys : List Nat) : Lists := fun l =>
  if l = 16 then some xs else if l = 48 then some ys else none

theorem listPair_cases {xs ys zs : List Nat} {l : Nat} (h : listPair xs ys l = some zs) :
    l = 16 ∧ zs = xs ∨ l = 48 ∧ zs = ys := by
  unfold listPair at h
  split at h
  · next hFirst => exact .inl ⟨hFirst, (Option.some.inj h).symm⟩
  · split at h
    · next hSecond => exact .inr ⟨hSecond, (Option.some.inj h).symm⟩
    · cases h

theorem listPair_map (xs ys : List Nat) (f : List Nat → List Nat) :
    (fun l => (listPair xs ys l).map f) = listPair (f xs) (f ys) := by
  funext l
  unfold listPair
  split
  · rfl
  · split <;> rfl

theorem listPair_update (xs ys zs : List Nat) :
    Function.update (listPair xs ys) 16 (some zs) = listPair zs ys := by
  funext l
  by_cases hFirst : l = 16
  · rw [hFirst, Function.update_self]
    rfl
  · rw [Function.update_of_ne hFirst]
    unfold listPair
    rw [if_neg hFirst, if_neg hFirst]

/-- A new entry for the first list. -/
theorem listPair_pushback {h h' : Heap} {xs ys : List Nat} {entry : Nat}
    (hOk : (ListAct.pushback 16 entry).run h = .ok (none, h')) (hEntry : (h entry).isSome)
    (hNew : entry ∉ 16 :: 48 :: (xs ++ ys)) :
    Guarded Permitted ListStep ⟨h, listPair xs ys⟩ (.pushback 16 entry)
      ⟨h', listPair (xs ++ [entry]) ys⟩ := by
  refine ⟨⟨rfl, hEntry, ?_⟩, none, hOk, (listPair_update ..).symm⟩
  intro l zs hl
  rcases listPair_cases hl with ⟨rfl, rfl⟩ | ⟨rfl, rfl⟩ <;> grind

/-- The entry 96 is on the list at 48, and the entries 32, 64 and 80 are on none. -/
def twoLists : ListState where
  heap a :=
    if a = 16 ∨ a = 32 ∨ a = 64 ∨ a = 80 then some ⟨a, a⟩
    else if a = 48 then some ⟨96, 96⟩
    else if a = 96 then some ⟨48, 48⟩
    else none
  lists := listPair [] [96]

theorem twoLists_rings : Rings twoLists.heap twoLists.lists := by
  constructor
  · intro l xs hl
    rcases listPair_cases hl with ⟨rfl, rfl⟩ | ⟨rfl, rfl⟩
    · exact circular_nil rfl
    · exact circular_singleton (by decide) rfl rfl
  · intro l xs m ys hl hm hne
    rcases listPair_cases hl with ⟨rfl, rfl⟩ | ⟨rfl, rfl⟩ <;>
      rcases listPair_cases hm with ⟨rfl, rfl⟩ | ⟨rfl, rfl⟩ <;> simp at hne ⊢

/-- Three entries are put on the first list, and the one in the middle is removed. -/
theorem list_sample : ∃ s, Run (Guarded Permitted ListStep) twoLists
    [.pushback 16 32, .pushback 16 64, .pushback 16 80, .remove 64] s ∧
      s.lists 16 = some [32, 80] ∧ s.lists 48 = some [96] ∧ Sequences s := by
  have hPushed : Run (Guarded Permitted ListStep) twoLists
      [.pushback 16 32, .pushback 16 64, .pushback 16 80] ⟨_, listPair [32, 64, 80] [96]⟩ :=
    ((Run.one (listPair_pushback rfl rfl (by decide))).snoc
      (listPair_pushback rfl rfl (by decide))).snoc (listPair_pushback rfl rfl (by decide))
  have hRemoved : (fun l => (listPair [32, 64, 80] [96] l).map (·.erase 64)) =
      listPair [32, 80] [96] := listPair_map ..
  have hRun : Run (Guarded Permitted ListStep) twoLists
      [.pushback 16 32, .pushback 16 64, .pushback 16 80, .remove 64] ⟨_, listPair [32, 80] [96]⟩ :=
    hPushed.snoc ⟨⟨16, [32, 64, 80], rfl, by decide⟩, none, rfl, hRemoved.symm⟩
  exact ⟨_, hRun, rfl, rfl, list_sequences twoLists_rings hRun⟩

end LunarOS
