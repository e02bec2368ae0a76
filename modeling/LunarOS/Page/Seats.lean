import LunarOS.Page.Orderly

/-!
# `page_init` seats the areas

`bootstrap_page_allocator` gives a buddy to one area after the other and passes the short ones
by. `Booting i` is what holds before area `i`: the areas below have their seats, and nothing
above the front of the reserved area is in use yet.
-/

namespace LunarOS

open Logic BuddyArea

/-- The arenas of the areas that get a buddy do not meet. -/
def ArenasApart (areas : List MemArea) : Prop :=
  areas.Pairwise fun a b => BUDDY_MAX_SIZE ≤ a.len → BUDDY_MAX_SIZE ≤ b.len →
    a.arenaSpan.Apart b.arenaSpan

instance (areas : List MemArea) : Decidable (ArenasApart areas) :=
  inferInstanceAs (Decidable (List.Pairwise _ _))

structure Booting (site : Nat → Site) (i : Nat) (st : PageState) : Prop where
  orderly : Orderly site i ⟨st, []⟩
  bases : ∀ k, Seated st.m.physMem i k →
    ∃ area, st.m.physMem[k]? = some area ∧ (site k).base = area.base
  room : ∀ k, Seated st.m.physMem i k → (site k).freelist + 16 * 8 ≤ st.reserved.base
  areas_le : st.physMemAt + MemArea.size * st.m.physMem.length ≤ st.reserved.base
  reserved_le : st.reserved.fini ≤ VMM_RESERVED_DM_START

section Boot

variable {site : Nat → Site} {i : Nat} {st : PageState} {area : MemArea}

theorem seated_succ_iff {areas : List MemArea} {i k : Nat} :
    Seated areas (i + 1) k ↔ Seated areas i k ∨
      k = i ∧ ∃ area, areas[i]? = some area ∧ BUDDY_MAX_SIZE ≤ area.len := by
  unfold Seated
  constructor
  · rintro ⟨hk, hArea⟩
    rcases Nat.lt_succ_iff_lt_or_eq.mp hk with hLess | rfl
    · exact Or.inl ⟨hLess, hArea⟩
    · exact Or.inr ⟨rfl, hArea⟩
  · rintro (⟨hk, hArea⟩ | ⟨rfl, hArea⟩)
    · exact ⟨by omega, hArea⟩
    · exact ⟨by omega, hArea⟩

/-- A short area gets nothing. -/
theorem Booting.pass (h : Booting site i st) (hArea : st.m.physMem[i]? = some area)
    (hShort : area.len < BUDDY_MAX_SIZE) : Booting site (i + 1) st := by
  have hSame : ∀ k, Seated st.m.physMem (i + 1) k ↔ Seated st.m.physMem i k := by
    intro k
    rw [seated_succ_iff]
    constructor
    · rintro (hk | ⟨rfl, area', hArea', hLong⟩)
      · exact hk
      · obtain rfl := Option.some.inj (hArea.symm.trans hArea')
        omega
    · exact Or.inl
  obtain ⟨⟨⟨hBound, hGe, hSelf, hHeads, hHeads', hOrdered, hApart⟩, hKernel, hBare, hSeat, hOnly,
    hHeld⟩, hBases, hRoom, hLe, hEnd⟩ := h
  simp only [← hSame] at hSelf hHeads hHeads' hOrdered hApart hBare hSeat hOnly hHeld hBases hRoom
  exact ⟨⟨⟨hBound, hGe, hSelf, hHeads, hHeads', hOrdered, hApart⟩, hKernel, hBare, hSeat, hOnly,
    hHeld⟩, hBases, hRoom, hLe, hEnd⟩

/-- The seats after one more: the old ones and the new one. -/
theorem seated_cases {areas : List MemArea} (site : Nat → Site) (new : Site) {i k : Nat}
    (hk : Seated areas (i + 1) k) :
    Seated areas i k ∧ k ≠ i ∧ Function.update site i new k = site k ∨
      k = i ∧ Function.update site i new k = new := by
  rcases seated_succ_iff.mp hk with hOld | ⟨rfl, -⟩
  · have hNe := Nat.ne_of_lt hOld.1
    exact Or.inl ⟨hOld, hNe, Function.update_of_ne hNe ..⟩
  · exact Or.inr ⟨rfl, Function.update_self ..⟩

/-- The arena of a seat and the one of a further long area do not meet. -/
theorem Seated.arena_apart {areas : List MemArea} {i k base : Nat} (hk : Seated areas i k)
    (hApart : ArenasApart areas) (hBase : ∃ area, areas[k]? = some area ∧ base = area.base)
    (hArea : areas[i]? = some area) (hLong : BUDDY_MAX_SIZE ≤ area.len) :
    (Span.mk base BUDDY_MAX_SIZE).Apart ⟨area.base, BUDDY_MAX_SIZE⟩ := by
  obtain ⟨area', hArea', rfl⟩ := hBase
  obtain ⟨hLess, area'', hArea'', hLong'⟩ := hk
  obtain rfl := Option.some.inj (hArea'.symm.trans hArea'')
  exact pairwise_getElem? (fun _ _ hApart hx hy => (hApart hy hx).symm) hApart
    (Nat.ne_of_lt hLess) hArea' hArea hLong' hLong

theorem Laid.seat {areasAt at_ freelist : Nat} {areas : List MemArea}
    (h : Laid areasAt areas i site) (hApart : ArenasApart areas)
    (hBases : ∀ k, Seated areas i k → ∃ area, areas[k]? = some area ∧ (site k).base = area.base)
    (hRoom : ∀ k, Seated areas i k → (site k).freelist + 16 * 8 ≤ at_)
    (hArea : areas[i]? = some area) (hLong : BUDDY_MAX_SIZE ≤ area.len)
    (hSelf : areasAt + MemArea.size * areas.length ≤ at_)
    (hHeads : at_ + BuddyArea.size ≤ freelist)
    (hHeads' : freelist + 16 * 8 ≤ VMM_RESERVED_DM_START) :
    Laid areasAt areas (i + 1) (Function.update site i ⟨at_, freelist, area.base⟩) := by
  have hNew := fun k hk => Seated.arena_apart hk hApart (hBases k hk) hArea hLong
  have hCases {k : Nat} (hk : Seated areas (i + 1) k) :=
    seated_cases site ⟨at_, freelist, area.base⟩ hk
  refine ⟨h.bounded, h.areas_ge, ?_, ?_, ?_, ?_, ?_⟩
  · intro k hk
    rcases hCases hk with ⟨hOld, -, hEq⟩ | ⟨-, hEq⟩ <;> rw [hEq]
    · exact h.self_ge k hOld
    · exact hSelf
  · intro k hk
    rcases hCases hk with ⟨hOld, -, hEq⟩ | ⟨-, hEq⟩ <;> rw [hEq]
    · exact h.heads_ge k hOld
    · exact hHeads
  · intro k hk
    rcases hCases hk with ⟨hOld, -, hEq⟩ | ⟨-, hEq⟩ <;> rw [hEq]
    · exact h.heads_le k hOld
    · exact hHeads'
  · intro k l hLess hk hl
    rcases hCases hk with ⟨hOld, -, hEq⟩ | ⟨rfl, -⟩
    · rcases hCases hl with ⟨hOld', -, hEq'⟩ | ⟨-, hEq'⟩ <;> rw [hEq, hEq']
      · exact h.ordered k l hLess hOld hOld'
      · exact hRoom k hOld
    · have := hl.1
      omega
  · intro k l hNe hk hl
    rcases hCases hk with ⟨hOld, -, hEq⟩ | ⟨rfl, hEq⟩ <;>
      rcases hCases hl with ⟨hOld', -, hEq'⟩ | ⟨hSame, hEq'⟩ <;> rw [hEq, hEq']
    · exact h.apart k l hNe hOld hOld'
    · exact hNew k hOld
    · exact (hNew l hOld').symm
    · exact absurd hSame.symm hNe

/-- What hooking a newly built buddy on its list does to the heap. -/
theorem hook_ok {h h' : Heap} {head node : Nat} (hNe : head ≠ node)
    (hPush : listPushback (listInit h head) head node = .ok h') :
    (h node).isSome ∧ h' head = some ⟨node, node⟩ ∧ h' node = some ⟨head, head⟩ ∧
      ∀ x, x ≠ head → x ≠ node → h' x = h x := by
  obtain ⟨c, hc, -, hNode, rfl⟩ := listPushback_ok hNe hPush
  unfold listInit at hc hNode ⊢
  rw [Heap.write_same] at hc
  obtain rfl := Option.some.inj hc
  rw [Heap.write_other hNe.symm] at hNode
  refine ⟨hNode, ?_, linked_entry .., ?_⟩
  · rw [linked_of_ne (Heap.write_same ..) hNe]
    simp
  · intro x hx hx'
    rw [linked_outside hx' hx hx, Heap.write_other hx]

/-- A newly built buddy that is hooked on the empty list at `head`. -/
structure Hooked (h h' : Heap) (head at_ : Nat) (b : BuddyArea) : Prop where
  edge : Edge 19 0 b h'
  first : h' head = some ⟨at_ + BuddyArea.headOffset, at_ + BuddyArea.headOffset⟩
  node : h' (at_ + BuddyArea.headOffset) = some ⟨head, head⟩
  kernel : ∀ a, (h' a).isSome → VMM_KERNEL_START ≤ a ∧ a < wordSize
  outside : ∀ x, x ≠ head → x ≠ at_ + BuddyArea.headOffset → ¬ b.Owns 19 x → h' x = h x

theorem hooked {h heap heap' : Heap} {reserved reserved' : Reserved} {base head at_ : Nat}
    {b : BuddyArea} (hKernel : ∀ a, (h a).isSome → VMM_KERNEL_START ≤ a ∧ a < wordSize)
    (hSizes : Sizes 19 b) (hHead : VMM_KERNEL_START ≤ head) (hBelow : head + 16 ≤ at_)
    (hHeads : at_ + BuddyArea.size ≤ b.freelist)
    (hEnd : b.freelist + 16 * 8 ≤ VMM_RESERVED_DM_START)
    (hInit : buddyAreaInit mmReservedAlloc reserved h base BUDDY_MAX_SIZE =
      .ok (some (at_, b), heap, reserved'))
    (hPush : listPushback (listInit heap head) head (at_ + BuddyArea.headOffset) = .ok heap') :
    Hooked h heap' head at_ b := by
  unfold BuddyArea.size at hHeads
  have hWindow : VMM_RESERVED_DM_START < wordSize := by
    unfold VMM_RESERVED_DM_START wordSize
    omega
  have hBuilt := buddyAreaInit_built hKernel hSizes (by omega)
    (by unfold BuddyArea.size; omega) (by omega) (by omega) hInit
  have hNode := hBuilt.node (by
    intro k hk
    unfold BuddyArea.headOffset headAt
    omega)
  obtain ⟨hMapped, hFirst, hLink, hKeep⟩ := hook_ok (by unfold BuddyArea.headOffset; omega) hPush
  refine ⟨?_, hFirst, hLink, ?_, ?_⟩
  · apply hBuilt.edge.frame (by omega) (by omega)
    intro x hx
    have hCases := owns_cases hx
    apply hKeep <;> unfold BuddyArea.headOffset at * <;> omega
  · intro a ha
    by_cases hIsHead : a = head
    · omega
    · by_cases hIsNode : a = at_ + BuddyArea.headOffset
      · exact hBuilt.placed.kernel a (hIsNode ▸ hMapped)
      · rw [hKeep a hIsHead hIsNode] at ha
        exact hBuilt.placed.kernel a ha
  · intro x hx hx' hOwns
    rw [hKeep x hx hx']
    exact hBuilt.outside x hx' hOwns

/-- The heads of the lists lie below the front of the reserved area. -/
theorem Booting.heads_below (h : Booting site i st) {k : Nat} (hk : k < st.m.physMem.length) :
    VMM_KERNEL_START ≤ st.buddiesAt k ∧ st.buddiesAt k + 16 ≤ st.reserved.base := by
  have hGe : VMM_KERNEL_START ≤ st.physMemAt := h.orderly.laid.areas_ge
  have hLe := h.areas_le
  unfold PageState.buddiesAt MemArea.buddiesOffset
  unfold MemArea.size at hLe ⊢
  omega

/-- So do the seats that were given before. -/
theorem Booting.seats_below (h : Booting site i st) {k : Nat} (hk : Seated st.m.physMem i k) :
    st.physMemAt + MemArea.size * st.m.physMem.length ≤ (site k).self ∧
      (site k).self + 64 ≤ (site k).freelist ∧
      (site k).freelist + 16 * 8 ≤ st.reserved.base := by
  have hHeads := h.orderly.laid.heads_ge k hk
  unfold BuddyArea.size at hHeads
  exact ⟨h.orderly.laid.self_ge k hk, hHeads, h.room k hk⟩

section Hooked

variable {at_ k : Nat} {b : BuddyArea} {heap' : Heap}
  (h : Hooked st.m.heap heap' (st.buddiesAt i) at_ b)
  (hHeads : at_ + BuddyArea.size ≤ b.freelist)
  (hEnd : b.freelist + 16 * 8 ≤ VMM_RESERVED_DM_START)
include h hHeads hEnd

/-- The other heads stay as they are. -/
theorem Hooked.other_head (hNe : k ≠ i) (hBelow : st.buddiesAt k + 16 ≤ at_) :
    heap' (st.buddiesAt k) = st.m.heap (st.buddiesAt k) := by
  unfold BuddyArea.size at hHeads
  apply h.outside
  · unfold PageState.buddiesAt MemArea.size
    omega
  · unfold BuddyArea.headOffset
    omega
  · intro hx
    have hCases := owns_cases hx
    omega

/-- A seat below the new one keeps its nodes. -/
theorem Hooked.seat_kept {reserved : Reserved} {old : Site} {d : BuddyArea}
    (hd : Seat ⟨st, []⟩ old (st.buddiesAt k) d) (hNe : k ≠ i) (hi : i < st.m.physMem.length)
    (hBelow : st.buddiesAt k + 16 ≤ at_)
    (hGe : st.physMemAt + MemArea.size * st.m.physMem.length ≤ old.self)
    (hOld : old.self + 64 ≤ old.freelist) (hRoom : old.freelist + 16 * 8 ≤ at_)
    (hApart : (Span.mk old.base BUDDY_MAX_SIZE).Apart ⟨b.base, BUDDY_MAX_SIZE⟩) :
    Seat ⟨{ st.setBuddy at_ b with m := { st.m with heap := heap' }, reserved }, []⟩ old
      (st.buddiesAt k) d := by
  have hHead := h.other_head hHeads hEnd hNe hBelow
  unfold BuddyArea.size at hHeads
  refine hd.frame (if_neg (by omega)) hHead ?_ ?_ rfl (fun _ _ _ _ _ _ => rfl) rfl
  · apply h.outside
    · unfold PageState.buddiesAt MemArea.buddiesOffset BuddyArea.headOffset
      unfold MemArea.size at hGe ⊢
      omega
    · unfold BuddyArea.headOffset
      omega
    · intro hx
      have hCases := owns_cases hx
      unfold BuddyArea.headOffset at hCases
      omega
  · intro x hx
    have hCases := hd.owns_cases hx
    unfold Span.Apart at hApart
    dsimp only at hApart
    apply h.outside
    · unfold PageState.buddiesAt MemArea.buddiesOffset
      unfold MemArea.size at hGe ⊢
      omega
    · unfold BuddyArea.headOffset
      omega
    · intro hx'
      have hCases' := owns_cases hx'
      omega

end Hooked

/-- A long area gets a seat at the front of the reserved area. -/
theorem Booting.seat (h : Booting site i st) (hApart : ArenasApart st.m.physMem)
    (hArea : st.m.physMem[i]? = some area) (hLong : BUDDY_MAX_SIZE ≤ area.len)
    (hFits : area.base + BUDDY_MAX_SIZE ≤ 2 ^ 62) {at_ : Nat} {b : BuddyArea} {heap heap' : Heap}
    {reserved : Reserved}
    (hInit : buddyAreaInit mmReservedAlloc st.reserved st.m.heap area.base BUDDY_MAX_SIZE =
      .ok (some (at_, b), heap, reserved))
    (hPush : listPushback (listInit heap (st.buddiesAt i)) (st.buddiesAt i)
      (at_ + BuddyArea.headOffset) = .ok heap') :
    Booting (Function.update site i ⟨at_, b.freelist, area.base⟩) (i + 1)
      { st.setBuddy at_ b with m := { st.m with heap := heap' }, reserved } := by
  obtain ⟨rfl, hHeads, hNext, hFini⟩ := buddyAreaInit_placed h.reserved_le hInit
  obtain ⟨hBase, -, -, hAvail, -⟩ := buddyAreaInit_ok hInit
  have hSizes : Sizes 19 b := .of_init (by omega) (by omega) hFits hInit
  have hEnd : b.freelist + 16 * 8 ≤ VMM_RESERVED_DM_START := by
    have := h.reserved_le
    unfold Reserved.fini at hFini this
    omega
  have hLength := (List.getElem?_eq_some_iff.mp hArea).1
  have hHooked := hooked h.orderly.kernel hSizes (h.heads_below hLength).1
    (h.heads_below hLength).2 hHeads hEnd hInit hPush
  have hNew : Seated st.m.physMem (i + 1) i :=
    seated_succ_iff.mpr (Or.inr ⟨rfl, area, hArea, hLong⟩)
  have hLaid := h.orderly.laid.seat hApart h.bases (fun k hk => (h.seats_below hk).2.2) hArea
    hLong h.areas_le hHeads hEnd
  refine ⟨⟨hLaid, hHooked.kernel, ?_, ?_, ?_, ?_⟩, ?_, ?_, ?_, ?_⟩
  · intro k hk hBare c hc
    dsimp only at hk hBare hc
    have hOld : ¬ Seated st.m.physMem i k := mt (fun h => seated_succ_iff.mpr (Or.inl h)) hBare
    have hNe : k ≠ i := by
      rintro rfl
      exact hBare hNew
    have hSame := hHooked.other_head hHeads hEnd hNe (h.heads_below hk).2
    exact h.orderly.bare k hk hOld c (hSame.symm.trans hc)
  · intro k hk
    dsimp only at hk ⊢
    have hLess : k < st.m.physMem.length := by
      obtain ⟨area', hArea', -⟩ := hk.2
      exact (List.getElem?_eq_some_iff.mp hArea').1
    rcases seated_cases site ⟨st.reserved.base, b.freelist, area.base⟩ hk with
      ⟨hOld, hNe, hEq⟩ | ⟨rfl, hEq⟩
    · obtain ⟨d, hd⟩ := h.orderly.seat k hOld
      obtain ⟨hGe, hBetween, hRoom⟩ := h.seats_below hOld
      have hArenas := Seated.arena_apart hOld hApart (h.bases k hOld) hArea hLong
      rw [← hBase] at hArenas
      rw [hEq]
      exact ⟨d, hHooked.seat_kept hHeads hEnd hd hNe hLength (h.heads_below hLess).2 hGe hBetween
        hRoom hArenas⟩
    · refine ⟨b, ?_⟩
      rw [hEq]
      refine ⟨by simp [PageState.setBuddy], hSizes, ?_, rfl, hBase, hHooked.first, hHooked.node, ?_⟩
      · rw [hAvail]
        unfold BUDDY_MAX_SIZE wordSize
        omega
      · exact .none hHooked.edge
  · intro a d hd
    simp only [PageState.setBuddy] at hd
    split at hd
    · next hEq =>
      exact ⟨i, hNew, by
        rw [Function.update_self]
        exact hEq⟩
    · obtain ⟨k, hk, hEq⟩ := h.orderly.only a d hd
      exact ⟨k, seated_succ_iff.mpr (Or.inl hk), by
        rw [Function.update_of_ne (Nat.ne_of_lt hk.1)]
        exact hEq⟩
  · intro p hp
    cases hp
  · intro k hk
    rcases seated_cases site ⟨st.reserved.base, b.freelist, area.base⟩ hk with
      ⟨hOld, -, hEq⟩ | ⟨rfl, hEq⟩
    · rw [hEq]
      exact h.bases k hOld
    · rw [hEq]
      exact ⟨area, hArea, rfl⟩
  · intro k hk
    rcases seated_cases site ⟨st.reserved.base, b.freelist, area.base⟩ hk with
      ⟨hOld, -, hEq⟩ | ⟨-, hEq⟩
    · rw [hEq]
      have := (h.seats_below hOld).2.2
      unfold BuddyArea.size at hHeads
      dsimp only
      omega
    · rw [hEq]
      exact hNext
  · have hLe := h.areas_le
    unfold BuddyArea.size at hHeads
    dsimp only
    unfold PageState.setBuddy
    dsimp only
    omega
  · exact Nat.le_trans (Nat.le_of_eq hFini) h.reserved_le

/-- The loop of `bootstrap_page_allocator`, from area `i` on. -/
theorem Booting.loop {rest : List MemArea} {st' : PageState} (h : Booting site i st)
    (hDrop : st.m.physMem.drop i = rest) (hApart : ArenasApart st.m.physMem)
    (hFits : ∀ area ∈ st.m.physMem, area.base + BUDDY_MAX_SIZE ≤ 2 ^ 62)
    (hOk : bootstrapFrom i rest st = .ok st') : ∃ site, Booting site (i + rest.length) st' := by
  induction rest generalizing i st site with
  | nil =>
    cases hOk
    exact ⟨site, h⟩
  | cons area rest ih =>
    have hArea : st.m.physMem[i]? = some area := by
      have hHead := congrArg (fun l => l[0]?) hDrop
      simpa using hHead
    have hTail : st.m.physMem.drop (i + 1) = rest := by
      have hRest := congrArg List.tail hDrop
      simpa using hRest
    have hCount : i + (area :: rest).length = i + 1 + rest.length := by
      rw [List.length_cons]
      omega
    rw [hCount]
    unfold bootstrapFrom at hOk
    split at hOk
    · next hShort => exact ih (h.pass hArea hShort) hTail hApart hFits hOk
    · next hLong =>
      obtain ⟨⟨built, heap, reserved⟩, hInit, hOk⟩ := bind_eq_ok.mp hOk
      cases built with
      | none => cases hOk
      | some pair =>
        obtain ⟨at_, b⟩ := pair
        obtain ⟨heap', hPush, hOk⟩ := bind_eq_ok.mp hOk
        have hSeat := h.seat hApart hArea (Nat.le_of_not_lt hLong)
          (hFits area (List.mem_of_getElem? hArea)) hInit hPush
        exact ih hSeat hTail hApart hFits hOk

end Boot

/-- The list heads in the array of areas are zeroed, as `mm_reserved_alloc` leaves them. -/
def ZeroedHeads (st : PageState) (areasAt n : Nat) : Prop :=
  ∀ i < n, ∀ c, st.m.heap (areasAt + MemArea.size * i + MemArea.buddiesOffset) = some c → c = ⟨0, 0⟩

theorem bootPages_orderly {mmap : List MmapEntry} {poff areasAt : Nat} {st st' : PageState}
    (hPhys : Physical mmap poff) (hEnv : Environment st areasAt (available mmap).length)
    (hZero : ZeroedHeads st areasAt (available mmap).length)
    (hOk : bootPages st areasAt mmap poff = .ok st') (hApart : ArenasApart st'.m.physMem) :
    ∃ site, Orderly site st'.m.physMem.length ⟨st', []⟩ := by
  have hLength := bootPages_length hOk
  have hBounds : ∀ area ∈ st'.m.physMem, area.addr + area.len < wordSize ∧
      area.base + BUDDY_MAX_SIZE ≤ 2 ^ 62 := by
    intro area hMem
    obtain ⟨i, hi⟩ := List.mem_iff_getElem?.mp hMem
    obtain ⟨e, he, -⟩ := (bootPages_areas hOk i).2 area hi
    obtain ⟨-, -, -, hBase, -⟩ := bootPages_area hPhys hOk he hi
    have hEnd := (area_bounds hPhys hOk he hi).1
    have hIn := List.mem_of_getElem? he
    refine ⟨by unfold wordSize; omega, ?_⟩
    rw [hBase]
    exact MmapEntry.arena_le (hPhys.region e hIn) hPhys.image
  obtain ⟨-, -, hBoot⟩ := bootPages_ok hOk
  generalize st'.m.physMem = areas at hLength hBounds hApart hBoot ⊢
  have hNobody : ∀ k, ¬ Seated areas 0 k := fun k hk => absurd hk.1 (Nat.not_lt_zero k)
  have hFirst : ∀ site, Booting site 0 { st with
      physoff := poff
      physMemAt := areasAt
      m := { st.m with
        physMem := areas
        page := fun ref => if InMap areas ref then {} else st.m.page ref } } := by
    intro site
    refine ⟨⟨⟨fun area hMem => (hBounds area hMem).1, hEnv.areas_ge, ?_, ?_, ?_, ?_, ?_⟩,
      hEnv.kernel, ?_, ?_, ?_, ?_⟩, ?_, ?_, ?_, hEnv.reserved_le⟩
    · exact fun k hk => absurd hk (hNobody k)
    · exact fun k hk => absurd hk (hNobody k)
    · exact fun k hk => absurd hk (hNobody k)
    · exact fun k _ _ hk => absurd hk (hNobody k)
    · exact fun k _ _ hk => absurd hk (hNobody k)
    · intro k hk _ c hc
      exact hZero k (hLength ▸ hk) c hc
    · exact fun k hk => absurd hk (hNobody k)
    · intro a b hb
      dsimp only at hb
      rw [hEnv.buddies] at hb
      cases hb
    · intro p hp
      cases hp
    · exact fun k hk => absurd hk (hNobody k)
    · exact fun k hk => absurd hk (hNobody k)
    · dsimp only
      rw [hLength]
      exact hEnv.areas_le
  obtain ⟨site, hDone⟩ := (hFirst fun _ => ⟨0, 0, 0⟩).loop rfl hApart
    (fun area hMem => (hBounds area hMem).2) hBoot
  refine ⟨site, ?_⟩
  have hOrderly := hDone.orderly
  rwa [Nat.zero_add] at hOrderly

end LunarOS
