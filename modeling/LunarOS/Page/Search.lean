import LunarOS.Page.Seats

/-!
# The search of `page_alloc`

`page_alloc` walks through the areas and takes the first buddy with enough bytes available. It
never asks whether an area has a buddy at all: the list head of a short area is zeroed, and the
traversal follows it to address 0. It also never goes on after a buddy has refused, and a buddy
with fewer bytes than `PGSIZE * npages` would often have served the request, for `buddy_alloc`
charges the class of `npages` bytes. `searches_iff` says in which states none of this happens.
-/

namespace LunarOS

open Logic BuddyArea

namespace PageState

/-- The first buddy on the list of area `i`. -/
def buddyOf (st : PageState) (i : Nat) : Option BuddyArea :=
  if i < st.m.physMem.length then
    (st.m.heap (st.buddiesAt i)).bind fun c => st.buddies (sub64 c.next BuddyArea.headOffset)
  else none

/-- Area `i` is the first whose buddy has so many bytes available. -/
def Picks (st : PageState) (need i : Nat) (b : BuddyArea) : Prop :=
  st.buddyOf i = some b ∧ need ≤ b.available ∧
    ∀ k < i, ∀ b', st.buddyOf k = some b' → b'.available < need

end PageState

/-- `buddy_alloc` gives no block. -/
def Refuses (b : BuddyArea) (m : Mem) (npages : Nat) : Prop :=
  ∃ fuel b' m', buddyAlloc b m npages fuel = .ok (none, b', m')

/-- The search ends without a fault, and `NULL` means that every buddy gives `NULL`. -/
structure Searches (st : PageState) (npages : Nat) : Prop where
  safe : ∃ fuel found, pageAllocFind st (mul64 PGSIZE npages) fuel 0 st.m.physMem = .ok found
  null : ∀ fuel st', pageAlloc st npages fuel = .ok (none, st') →
    ∀ at_ b, st.buddies at_ = some b → Refuses b st.m npages

/-- The test on `available` turns the request down. -/
def TurnsDown (b : BuddyArea) (npages : Nat) : Prop := npages ≤ 2 ^ 63 ∧ Refused b npages

/-- Every short area comes after one whose buddy has enough bytes available; and if the first
such buddy turns the request down, or there is none, all buddies turn it down. -/
structure Searchable (st : PageState) (npages : Nat) : Prop where
  covered : ∀ (i : Nat) (area : MemArea), st.m.physMem[i]? = some area →
    area.len < BUDDY_MAX_SIZE →
      ∃ k < i, ∃ b, st.buddyOf k = some b ∧ mul64 PGSIZE npages ≤ b.available
  refusal : (∀ i b, st.Picks (mul64 PGSIZE npages) i b → TurnsDown b npages) →
    ∀ at_ b, st.buddies at_ = some b → TurnsDown b npages

/-! ## One area -/

section Area

variable {need fuel i : Nat} {area : MemArea} {rest : List MemArea}

theorem pageAllocFind_cons (st : PageState) (need fuel i : Nat) (area : MemArea)
    (rest : List MemArea) : pageAllocFind st need fuel i (area :: rest) =
      st.m.heap.read (st.buddiesAt i) >>= fun c =>
        match Loop.run (pageAllocStep st (st.buddiesAt i) need) fuel c.next with
        | none => .error .fuel
        | some found => found >>= fun r =>
          match r with
          | some at_ => pure (some at_)
          | none => pageAllocFind st need fuel (i + 1) rest := rfl

/-- More fuel does not change what is found. -/
theorem pageAllocFind_mono {st : PageState} {fuel' : Nat} {found : Option Nat} (hLe : fuel ≤ fuel')
    (hOk : pageAllocFind st need fuel i rest = .ok found) :
    pageAllocFind st need fuel' i rest = .ok found := by
  induction rest generalizing i with
  | nil => exact hOk
  | cons area rest ih =>
    rw [pageAllocFind_cons] at hOk ⊢
    obtain ⟨c, hRead, hOk⟩ := bind_eq_ok.mp hOk
    rw [hRead, ok_bind_eq]
    split at hOk
    · cases hOk
    · next result hRun =>
      rw [Loop.run_mono hLe hRun]
      obtain ⟨at_, rfl, hOk⟩ := bind_eq_ok.mp hOk
      dsimp only
      rw [ok_bind_eq]
      cases at_ with
      | some at_ => exact hOk
      | none => exact ih hOk

end Area

namespace Orderly

variable {site : Nat → Site} {n need i : Nat} {s : Lending} {b : BuddyArea} {area : MemArea}
  {rest : List MemArea}

/-- Structures lie in the kernel image, so their addresses do not wrap. -/
theorem self_bounds (h : Orderly site n s) (hi : Seated s.st.m.physMem n i) :
    s.st.buddiesAt i < (site i).self ∧ (site i).self + BuddyArea.size ≤ VMM_RESERVED_DM_START := by
  have hSelf := h.laid.self_ge i hi
  have hGe := h.laid.heads_ge i hi
  have hLe := h.laid.heads_le i hi
  obtain ⟨area, hArea, -⟩ := hi.2
  have hLength := (List.getElem?_eq_some_iff.mp hArea).1
  unfold PageState.buddiesAt MemArea.buddiesOffset
  unfold MemArea.size at hSelf ⊢
  omega

theorem node_self (h : Orderly site n s) (hi : Seated s.st.m.physMem n i) :
    sub64 ((site i).self + BuddyArea.headOffset) BuddyArea.headOffset = (site i).self := by
  have hEnd := (h.self_bounds hi).2
  unfold BuddyArea.size VMM_RESERVED_DM_START at hEnd
  unfold BuddyArea.headOffset
  rw [sub64_eq (by omega) (by unfold wordSize; omega)]
  omega

theorem buddyOf_seat (h : Orderly site n s) (hi : Seated s.st.m.physMem n i)
    (hb : Seat s (site i) (s.st.buddiesAt i) b) : s.st.buddyOf i = some b := by
  obtain ⟨area, hArea, -⟩ := hi.2
  have hLength := (List.getElem?_eq_some_iff.mp hArea).1
  unfold PageState.buddyOf
  rw [if_pos hLength, hb.first, Option.bind_some]
  dsimp only
  rw [h.node_self hi, hb.buddy]

/-- No buddy lies where a zeroed list head leads. -/
theorem no_buddy_at_zero (h : Orderly site n s) :
    s.st.buddies (sub64 0 BuddyArea.headOffset) = none := by
  cases hb : s.st.buddies (sub64 0 BuddyArea.headOffset) with
  | none => rfl
  | some b =>
    obtain ⟨i, hi, hSelf⟩ := h.only _ b hb
    have hEnd := (h.self_bounds hi).2
    rw [← hSelf] at hEnd
    unfold BuddyArea.headOffset sub64 wordSize BuddyArea.size VMM_RESERVED_DM_START at hEnd
    omega

/-- The search looks at the one buddy of a seat. -/
theorem find_seat (h : Orderly site n s) (hi : Seated s.st.m.physMem n i)
    (hb : Seat s (site i) (s.st.buddiesAt i) b) (fuel : Nat) :
    pageAllocFind s.st need (fuel + 1) i (area :: rest) =
      if need ≤ b.available then .ok (some (site i).self)
      else pageAllocFind s.st need (fuel + 1) (i + 1) rest := by
  have hNe : (site i).self + BuddyArea.headOffset ≠ s.st.buddiesAt i := by
    have := (h.self_bounds hi).1
    omega
  have hRead : s.st.m.heap.read (s.st.buddiesAt i) =
      .ok ⟨(site i).self + BuddyArea.headOffset, (site i).self + BuddyArea.headOffset⟩ :=
    Heap.read_eq_ok.mpr hb.first
  have hNode : pageAllocStep s.st (s.st.buddiesAt i) need ((site i).self + BuddyArea.headOffset) =
      if need ≤ b.available then .inr (.ok (some (site i).self)) else .inl (s.st.buddiesAt i) := by
    unfold pageAllocStep
    rw [if_neg hNe, h.node_self hi]
    dsimp only
    rw [hb.buddy, hb.node]
  rw [pageAllocFind_cons, hRead, ok_bind_eq]
  dsimp only
  by_cases hEnough : need ≤ b.available
  · rw [if_pos hEnough] at hNode
    rw [Loop.run_of_inr hNode, if_pos hEnough]
    rfl
  · rw [if_neg hEnough] at hNode
    have hHead : pageAllocStep s.st (s.st.buddiesAt i) need (s.st.buddiesAt i) =
        .inr (.ok none) := if_pos rfl
    rw [Loop.run_succ_of_inl hNode, Loop.run_of_inr hHead, if_neg hEnough]
    rfl

/-- The search faults at a list head that was never initialised. -/
theorem find_bare (h : Orderly site n s) (hi : i < s.st.m.physMem.length)
    (hBare : ¬ Seated s.st.m.physMem n i) (fuel : Nat) (found : Option Nat) :
    pageAllocFind s.st need fuel i (area :: rest) ≠ .ok found := by
  intro hOk
  rw [pageAllocFind_cons] at hOk
  obtain ⟨c, hRead, hOk⟩ := bind_eq_ok.mp hOk
  obtain rfl := h.bare i hi hBare c (Heap.read_eq_ok.mp hRead)
  have hZero : 0 ≠ s.st.buddiesAt i := by
    have hGe := h.laid.areas_ge
    unfold VMM_KERNEL_START at hGe
    unfold PageState.buddiesAt
    omega
  have hStep : pageAllocStep s.st (s.st.buddiesAt i) need 0 =
      .inr (.error (.fault (.buddy (sub64 0 BuddyArea.headOffset)))) := by
    unfold pageAllocStep
    rw [if_neg hZero]
    dsimp only
    rw [h.no_buddy_at_zero]
  dsimp only at hOk
  rw [Loop.run_of_inr hStep] at hOk
  cases hOk

/-! ## All areas -/

/-- What a search from area `i` on has found. -/
inductive Outcomes (site : Nat → Site) (st : PageState) (need i : Nat) : Option Nat → Prop
  | found {k : Nat} {b : BuddyArea} : st.buddies (site k).self = some b → st.Picks need k b →
      (∀ (j : Nat) (area : MemArea), i ≤ j → j ≤ k → st.m.physMem[j]? = some area →
        BUDDY_MAX_SIZE ≤ area.len) → Outcomes site st need i (some (site k).self)
  | missed : (∀ k b, st.buddyOf k = some b → b.available < need) →
      (∀ (j : Nat) (area : MemArea), i ≤ j → st.m.physMem[j]? = some area →
        BUDDY_MAX_SIZE ≤ area.len) → Outcomes site st need i none

theorem seated_of_long {areas : List MemArea} (hArea : areas[i]? = some area)
    (hLong : BUDDY_MAX_SIZE ≤ area.len) : Seated areas areas.length i :=
  ⟨(List.getElem?_eq_some_iff.mp hArea).1, area, hArea, hLong⟩

theorem not_seated_of_short {areas : List MemArea} (hArea : areas[i]? = some area)
    (hShort : area.len < BUDDY_MAX_SIZE) : ¬ Seated areas n i := by
  rintro ⟨-, area', hArea', hLong⟩
  obtain rfl := Option.some.inj (hArea.symm.trans hArea')
  omega

theorem drop_eq_cons {areas : List MemArea} (hDrop : areas.drop i = area :: rest) :
    areas[i]? = some area ∧ areas.drop (i + 1) = rest := by
  have hHead := congrArg (fun l => l[0]?) hDrop
  have hTail := congrArg List.tail hDrop
  exact ⟨by simpa using hHead, by simpa using hTail⟩

/-- The areas passed by have too little available. -/
theorem passed_succ (h : Orderly site n s) (hi : Seated s.st.m.physMem n i)
    (hb : Seat s (site i) (s.st.buddiesAt i) b) (hLess : b.available < need)
    (hBefore : ∀ k < i, ∀ b, s.st.buddyOf k = some b → b.available < need) :
    ∀ k < i + 1, ∀ b, s.st.buddyOf k = some b → b.available < need := by
  intro k hk b' hb'
  rcases Nat.lt_succ_iff_lt_or_eq.mp hk with hOld | rfl
  · exact hBefore k hOld b' hb'
  · obtain rfl := Option.some.inj ((h.buddyOf_seat hi hb).symm.trans hb')
    exact hLess

theorem find_ok (h : Orderly site s.st.m.physMem.length s) {fuel : Nat} {found : Option Nat}
    (hDrop : s.st.m.physMem.drop i = rest)
    (hBefore : ∀ k < i, ∀ b, s.st.buddyOf k = some b → b.available < need)
    (hOk : pageAllocFind s.st need (fuel + 1) i rest = .ok found) :
    Outcomes site s.st need i found := by
  induction rest generalizing i with
  | nil =>
    cases hOk
    have hPast : s.st.m.physMem.length ≤ i := List.drop_eq_nil_iff.mp hDrop
    refine .missed ?_ ?_
    · intro k b hb
      apply hBefore k ?_ b hb
      by_contra hGe
      unfold PageState.buddyOf at hb
      rw [if_neg (by omega)] at hb
      cases hb
    · intro j area hj hArea
      have := (List.getElem?_eq_some_iff.mp hArea).1
      omega
  | cons area rest ih =>
    obtain ⟨hArea, hRest⟩ := drop_eq_cons hDrop
    by_cases hShort : area.len < BUDDY_MAX_SIZE
    · have hLength := (List.getElem?_eq_some_iff.mp hArea).1
      exact absurd hOk (h.find_bare hLength (not_seated_of_short hArea hShort) _ found)
    · have hi := seated_of_long hArea (Nat.le_of_not_lt hShort)
      obtain ⟨b, hb⟩ := h.seat i hi
      rw [h.find_seat hi hb] at hOk
      -- the area itself is long
      have hHere : ∀ area', s.st.m.physMem[i]? = some area' → BUDDY_MAX_SIZE ≤ area'.len := by
        intro area' hArea'
        obtain rfl := Option.some.inj (hArea.symm.trans hArea')
        exact Nat.le_of_not_lt hShort
      split at hOk
      · next hEnough =>
        cases hOk
        refine .found hb.buddy ⟨h.buddyOf_seat hi hb, hEnough, hBefore⟩ ?_
        intro j area' hj hj' hArea'
        obtain rfl := Nat.le_antisymm hj' hj
        exact hHere area' hArea'
      · next hLess =>
        have hFrom : ∀ {j : Nat}, i ≤ j → j = i ∨ i + 1 ≤ j := by
          intro j hj
          omega
        cases ih hRest (h.passed_succ hi hb (Nat.lt_of_not_le hLess) hBefore) hOk with
        | found hBuddy hPicks hLong =>
          refine .found hBuddy hPicks ?_
          intro j area' hj hj' hArea'
          rcases hFrom hj with rfl | hLater
          · exact hHere area' hArea'
          · exact hLong j area' hLater hj' hArea'
        | missed hAll hLong =>
          refine .missed hAll ?_
          intro j area' hj hArea'
          rcases hFrom hj with rfl | hLater
          · exact hHere area' hArea'
          · exact hLong j area' hLater hArea'

/-- The search gets past every area that has no buddy. -/
theorem find_exists (h : Orderly site s.st.m.physMem.length s) (fuel : Nat)
    (hDrop : s.st.m.physMem.drop i = rest)
    (hBefore : ∀ k < i, ∀ b, s.st.buddyOf k = some b → b.available < need)
    (hCovered : ∀ (j : Nat) (area : MemArea), i ≤ j → s.st.m.physMem[j]? = some area →
      area.len < BUDDY_MAX_SIZE → ∃ k < j, ∃ b, s.st.buddyOf k = some b ∧ need ≤ b.available) :
    ∃ found, pageAllocFind s.st need (fuel + 1) i rest = .ok found := by
  induction rest generalizing i with
  | nil => exact ⟨none, rfl⟩
  | cons area rest ih =>
    obtain ⟨hArea, hRest⟩ := drop_eq_cons hDrop
    by_cases hShort : area.len < BUDDY_MAX_SIZE
    · obtain ⟨k, hk, b, hb, hEnough⟩ := hCovered i area (Nat.le_refl i) hArea hShort
      have hLess := hBefore k hk b hb
      omega
    · have hi := seated_of_long hArea (Nat.le_of_not_lt hShort)
      obtain ⟨b, hb⟩ := h.seat i hi
      rw [h.find_seat hi hb]
      split
      · exact ⟨_, rfl⟩
      · next hLess =>
        exact ih hRest (h.passed_succ hi hb (Nat.lt_of_not_le hLess) hBefore)
          fun j area hj => hCovered j area (by omega)

/-- The search is safe exactly when it stops before the first short area. -/
theorem safe_iff (h : Orderly site s.st.m.physMem.length s) :
    (∃ fuel found, pageAllocFind s.st need fuel 0 s.st.m.physMem = .ok found) ↔
      ∀ (i : Nat) (area : MemArea), s.st.m.physMem[i]? = some area → area.len < BUDDY_MAX_SIZE →
        ∃ k < i, ∃ b, s.st.buddyOf k = some b ∧ need ≤ b.available := by
  constructor
  · rintro ⟨fuel, found, hOk⟩ i area hArea hShort
    have hMore := pageAllocFind_mono (Nat.le_succ fuel) hOk
    cases h.find_ok rfl (fun k hk => absurd hk (Nat.not_lt_zero k)) hMore with
    | @found k b _ hPicks hLong =>
      have hk : k < i := by
        by_contra hGe
        have := hLong i area (Nat.zero_le i) (Nat.le_of_not_lt hGe) hArea
        omega
      exact ⟨k, hk, b, hPicks.1, hPicks.2.1⟩
    | missed _ hLong =>
      have := hLong i area (Nat.zero_le i) hArea
      omega
  · intro hCovered
    exact ⟨1, h.find_exists 0 rfl (fun k hk => absurd hk (Nat.not_lt_zero k))
      fun j area _ => hCovered j area⟩

/-! ## `NULL` -/

theorem Picks.unique {st : PageState} {k : Nat} {b' : BuddyArea} (h : st.Picks need i b)
    (h' : st.Picks need k b') : i = k ∧ b = b' := by
  obtain ⟨hb, hEnough, hBefore⟩ := h
  obtain ⟨hb', hEnough', hBefore'⟩ := h'
  rcases Nat.lt_trichotomy i k with hLess | rfl | hMore
  · have := hBefore' i hLess b hb
    omega
  · exact ⟨rfl, Option.some.inj (hb.symm.trans hb')⟩
  · have := hBefore k hMore b' hb'
    omega

/-- A buddy gives no block exactly when it turns the request down. -/
theorem refuses_iff (h : Orderly site n s) {at_ npages : Nat} (hb : s.st.buddies at_ = some b) :
    Refuses b s.st.m npages ↔ TurnsDown b npages := by
  obtain ⟨i, hi, -, hSeat⟩ := h.seat_of_buddy hb
  have hp := h.placed hi hSeat
  obtain ⟨last, ht⟩ := hSeat.use.tower hp
  exact ht.refuses_iff hp (by decide) hSeat.available_lt

/-- With enough fuel, a buddy that turns the request down does so in `page_alloc` too. -/
theorem turnsDown_alloc (h : Orderly site n s) {at_ npages fuel : Nat}
    (hb : s.st.buddies at_ = some b) (hDown : TurnsDown b npages)
    (hFind : pageAllocFind s.st (mul64 PGSIZE npages) fuel 0 s.st.m.physMem = .ok (some at_)) :
    ∃ fuel' st', pageAlloc s.st npages fuel' = .ok (none, st') := by
  obtain ⟨i, hi, -, hSeat⟩ := h.seat_of_buddy hb
  obtain ⟨bound, hBkt⟩ := findBkt_exists hSeat.sizes hDown.1
  have hMore := pageAllocFind_mono (Nat.le_max_left fuel bound) hFind
  have hBkt' : buddyFindBkt (max fuel bound) b npages = some (sub64 19 (sizeOrder npages)) :=
    Loop.run_mono (Nat.le_max_right fuel bound) hBkt
  have hAlloc := buddyAlloc_refused (m := s.st.m) hSeat.sizes hSeat.available_lt hBkt' hDown.2
  refine ⟨max fuel bound, { s.st.setBuddy at_ b with m := s.st.m }, ?_⟩
  unfold pageAlloc
  rw [hMore, ok_bind_eq]
  dsimp only
  rw [buddy_eq_ok.mpr hb, ok_bind_eq, hAlloc]
  rfl

theorem searches_iff_searchable (h : Orderly site s.st.m.physMem.length s) (npages : Nat) :
    Searches s.st npages ↔ Searchable s.st npages := by
  constructor
  · rintro ⟨hSafe, hNull⟩
    refine ⟨h.safe_iff.mp hSafe, ?_⟩
    intro hPick at_ b hb
    have hSome : ∃ fuel st', pageAlloc s.st npages fuel = .ok (none, st') := by
      obtain ⟨fuel, found, hFind⟩ := hSafe
      have hMore := pageAllocFind_mono (Nat.le_succ fuel) hFind
      cases h.find_ok rfl (fun k hk => absurd hk (Nat.not_lt_zero k)) hMore with
      | found hBuddy hPicks _ => exact h.turnsDown_alloc hBuddy (hPick _ _ hPicks) hFind
      | missed =>
        refine ⟨fuel, s.st, ?_⟩
        unfold pageAlloc
        rw [hFind]
        rfl
    obtain ⟨fuel, st', hNone⟩ := hSome
    exact (h.refuses_iff hb).mp (hNull fuel st' hNone at_ b hb)
  · rintro ⟨hCovered, hRefusal⟩
    refine ⟨h.safe_iff.mpr hCovered, ?_⟩
    intro fuel st' hNone at_ b hb
    refine (h.refuses_iff hb).mpr (hRefusal ?_ at_ b hb)
    intro i d hPick
    have hFound : ∀ found, pageAllocFind s.st (mul64 PGSIZE npages) fuel 0 s.st.m.physMem =
        .ok found → Outcomes site s.st (mul64 PGSIZE npages) 0 found := fun found hFind =>
      h.find_ok rfl (fun k hk => absurd hk (Nat.not_lt_zero k))
        (pageAllocFind_mono (Nat.le_succ fuel) hFind)
    generalize hRet : (none : Option Nat) = ret at hNone
    cases pageAlloc_returns hNone with
    | unserved hFind =>
      cases hFound _ hFind with
      | missed hAll =>
        have := hAll i d hPick.1
        have := hPick.2.1
        omega
    | @refused at' b1 b1' m1 hFind hb1 hAlloc =>
      generalize hAt : some at' = found at hFind
      cases hFound _ hFind with
      | missed => cases hAt
      | @found k b2 hBuddy hPicks hLong =>
        obtain rfl := Option.some.inj hAt
        obtain ⟨rfl, rfl⟩ := Picks.unique hPick hPicks
        obtain rfl := Option.some.inj (hb1.symm.trans hBuddy)
        exact (h.refuses_iff hb1).mp ⟨fuel, _, _, hAlloc⟩
    | served => cases hRet

end Orderly

/-! ## Runs -/

theorem LendStep.pageStep {s s' : Lending} {op : PageOp} (h : LendStep s op s') :
    PageStep s.st op s'.st := by
  cases h with
  | served hOk => exact .alloc hOk
  | refused hOk => exact .alloc hOk
  | freed _ hOk => exact .free hOk

theorem orderly_of_run {site : Nat → Site} {st : PageState} {ops : List PageOp} {s : Lending}
    (h : Orderly site st.m.physMem.length ⟨st, []⟩)
    (hRun : Run (Guarded Alone LendStep) ⟨st, []⟩ ops s) :
    Orderly site s.st.m.physMem.length s := by
  have hBoth : Orderly site st.m.physMem.length s ∧ s.st.m.physMem = st.m.physMem :=
    hRun.invariant (fun s => Orderly site st.m.physMem.length s ∧ s.st.m.physMem = st.m.physMem)
      (fun s op s' ⟨hOrderly, hSame⟩ hStep =>
        ⟨hStep.2.orderly hOrderly hStep.1, hStep.2.pageStep.physMem.trans hSame⟩) ⟨h, rfl⟩
  rw [hBoth.2]
  exact hBoth.1

theorem searches_iff {mmap : List MmapEntry} {poff areasAt : Nat} {st0 st1 : PageState}
    {ops : List PageOp} {s : Lending} (hPhys : Physical mmap poff)
    (hEnv : Environment st0 areasAt (available mmap).length)
    (hZero : ZeroedHeads st0 areasAt (available mmap).length)
    (hBoot : bootPages st0 areasAt mmap poff = .ok st1) (hApart : ArenasApart st1.m.physMem)
    (hRun : Run (Guarded Alone LendStep) ⟨st1, []⟩ ops s) (npages : Nat) :
    Searches s.st npages ↔ Searchable s.st npages := by
  obtain ⟨site, hOrderly⟩ := bootPages_orderly hPhys hEnv hZero hBoot hApart
  exact (orderly_of_run hOrderly hRun).searches_iff_searchable npages

/-! ## After a concrete boot -/

theorem headedState_zeroed (n k : Nat) : ZeroedHeads (headedState n) 0xffff800000100000 k := by
  intro i hi c hc
  unfold headedState headedHeap at hc
  dsimp only at hc
  split at hc
  · exact (Option.some.inj hc).symm
  · unfold bootState at hc
    dsimp only at hc
    split at hc
    · exact (Option.some.inj hc).symm
    · cases hc

/-- In `splitMap` the short area lies behind two with a buddy. A page is taken and given back. -/
theorem searches_sample : ∃ st0 s,
    bootPages (headedState 3) 0xffff800000100000 splitMap 0x10000 = .ok st0 ∧
      Run (Guarded Alone LendStep) ⟨st0, []⟩ [.alloc 1, .free 0x182000] s ∧ Searches s.st 1 := by
  have hCalls : ((bootPages (headedState 3) 0xffff800000100000 splitMap 0x10000).toOption.bind
      fun st0 => (pageAlloc st0 1 20).toOption.bind fun (p, st1) =>
        (pageFree st1 0x182000).toOption.map fun st =>
          (st0.m.physMem, p, st.m.physMem, (st.buddyOf 0).map BuddyArea.available)) =
      some (splitAreas, some 0x182000, splitAreas, some 0xFF000) := by decide +kernel
  obtain ⟨st0, hBoot, hCalls⟩ := Option.bind_eq_some_iff.mp hCalls
  obtain ⟨⟨p, st1⟩, hAlloc, hCalls⟩ := Option.bind_eq_some_iff.mp hCalls
  obtain ⟨st, hFree, hEnd⟩ := Option.map_eq_some_iff.mp hCalls
  simp only [Prod.mk.injEq] at hEnd
  obtain ⟨hAreas, rfl, hAreas', hAvail⟩ := hEnd
  obtain ⟨b, hb, hSize⟩ := Option.map_eq_some_iff.mp hAvail
  have hOk := toOption_eq_some.mp hBoot
  have hTaken : LendStep ⟨st0, []⟩ (.alloc 1) ⟨st1, [0x182000]⟩ :=
    .served (toOption_eq_some.mp hAlloc)
  have hGiven : LendStep ⟨st1, [0x182000]⟩ (.free 0x182000) ⟨st, []⟩ :=
    .freed List.mem_cons_self (toOption_eq_some.mp hFree)
  have hRun : Run (Guarded Alone LendStep) ⟨st0, []⟩ [.alloc 1, .free 0x182000] ⟨st, []⟩ :=
    (Run.one ⟨trivial, hTaken⟩).snoc ⟨fun _ _ _ _ q hq => absurd hq (by simp), hGiven⟩
  have hApart : ArenasApart st0.m.physMem := by
    rw [hAreas]
    decide
  have hEnough : mul64 PGSIZE 1 ≤ b.available := by
    rw [hSize]
    decide
  refine ⟨st0, _, hOk, hRun, (searches_iff splitMap_physical
    (headedState_environment (by decide)) (headedState_zeroed 3 _) hOk hApart hRun 1).mpr ⟨?_, ?_⟩⟩
  · intro i area hArea hShort
    have hFirst : 0 < i := by
      rcases Nat.eq_zero_or_pos i with rfl | hPos
      · rw [hAreas'] at hArea
        obtain rfl := Option.some.inj hArea
        exact absurd hShort (by decide)
      · exact hPos
    exact ⟨0, hFirst, b, hb, hEnough⟩
  · intro hPick
    have hRefused := (hPick 0 b ⟨hb, hEnough, fun k hk => absurd hk (Nat.not_lt_zero k)⟩).2
    unfold Refused at hRefused
    rw [hSize] at hRefused
    exact absurd hRefused (by decide)

/-- 64 KiB at 1 MiB and 4 MiB at 2 MiB. -/
def shortFirst : List MmapEntry := [⟨0x100000, 0x10000, 1⟩, ⟨0x200000, 0x400000, 1⟩]

/-- The first area is too short for a buddy, and the search follows its zeroed list head to
`NULL`. -/
theorem short_area_first : ∃ st, Physical shortFirst 0x10000 ∧
    Environment (headedState 2) 0xffff800000100000 2 ∧
    ZeroedHeads (headedState 2) 0xffff800000100000 2 ∧
    bootPages (headedState 2) 0xffff800000100000 shortFirst 0x10000 = .ok st ∧
    ArenasApart st.m.physMem ∧
    pageAllocFind st (mul64 PGSIZE 1) 5 0 st.m.physMem =
      .error (.fault (.buddy (sub64 0 BuddyArea.headOffset))) ∧ ¬ Searches st 1 := by
  have hMap : (bootPages (headedState 2) 0xffff800000100000 shortFirst 0x10000).toOption.map
      (fun st => (decide (ArenasApart st.m.physMem), st.m.physMem[0]?.map MemArea.len,
        stopOf (pageAllocFind st (mul64 PGSIZE 1) 5 0 st.m.physMem))) =
      some (true, some 0x10000, some (.fault (.buddy (sub64 0 BuddyArea.headOffset)))) := by
    decide +kernel
  obtain ⟨st, hOk, hState⟩ := Option.map_eq_some_iff.mp hMap
  simp only [Prod.mk.injEq] at hState
  obtain ⟨hApart, hFirst, hFault⟩ := hState
  obtain ⟨area, hArea, hLen⟩ := Option.map_eq_some_iff.mp hFirst
  have hBoot := toOption_eq_some.mp hOk
  have hPhys : Physical shortFirst 0x10000 := ⟨by decide, by decide⟩
  have hEnv := headedState_environment (n := 2) (by decide)
  refine ⟨st, hPhys, hEnv, headedState_zeroed 2 2, hBoot, of_decide_eq_true hApart,
    stopOf_eq.mp hFault, fun hSearches => ?_⟩
  obtain ⟨site, hOrderly⟩ := bootPages_orderly hPhys hEnv (headedState_zeroed 2 _) hBoot
    (of_decide_eq_true hApart)
  have hCovered := (Orderly.safe_iff (s := ⟨st, []⟩) hOrderly).mp hSearches.safe
  obtain ⟨k, hk, -⟩ := hCovered 0 area hArea (by rw [hLen]; decide)
  exact absurd hk (Nat.not_lt_zero k)

end LunarOS
