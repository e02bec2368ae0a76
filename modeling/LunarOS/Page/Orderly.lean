import LunarOS.Buddy.Lending
import LunarOS.Page.Index
import LunarOS.Page.Managed

/-!
# The areas side by side

A call of the page allocator works on one buddy area and leaves the list nodes, the lists and
the page records of the others alone. `Orderly` says what the list of every area is like: an
area with a buddy has a ring of one node, any other area has the zeroed list head that
`bootstrap_page_allocator` left behind. `LendStep.orderly` keeps it, as long as a block is
only freed while it is the only one out of its arena.
-/

namespace LunarOS

open Logic BuddyArea

/-! ## Calls and the blocks that are out -/

/-- The allocator and, as a ghost, the addresses handed out and not yet freed. -/
structure Lending where
  st : PageState
  out : List Nat

/-- One completed call; what is freed is an address that is out. -/
inductive LendStep (s : Lending) : PageOp → Lending → Prop
  | served {npages fuel p : Nat} {st : PageState} :
      pageAlloc s.st npages fuel = .ok (some p, st) → LendStep s (.alloc npages) ⟨st, p :: s.out⟩
  | refused {npages fuel : Nat} {st : PageState} :
      pageAlloc s.st npages fuel = .ok (none, st) → LendStep s (.alloc npages) ⟨st, s.out⟩
  | freed {addr : Nat} {st : PageState} :
      addr ∈ s.out → pageFree s.st addr = .ok st → LendStep s (.free addr) ⟨st, s.out.erase addr⟩

/-- The address lies in the arena at `base`. -/
def InArena (base p : Nat) : Prop := base ≤ p ∧ p < base + BUDDY_MAX_SIZE

instance (base p : Nat) : Decidable (InArena base p) := inferInstanceAs (Decidable (_ ∧ _))

/-- A block is freed while no other block is out of its arena. -/
def Alone (s : Lending) : PageOp → Prop
  | .alloc _ => True
  | .free addr => ∀ at_ b, s.st.buddies at_ = some b → InArena b.base addr →
      ∀ q ∈ s.out.erase addr, ¬ InArena b.base q

/-! ## One area -/

/-- What an area is like by the blocks of it that are out. -/
inductive InUse (m : Mem) (self : Nat) (b : BuddyArea) : List Nat → Prop
  | none : Edge 19 0 b m.heap → InUse m self b []
  | one {k : Nat} {ref : PageRef} : k ≤ 7 → Edge 19 k b m.heap →
      phys2page m.physMem (b.blockAt 19 k (rightmost k)) = some ref → (m.page ref).order = k →
      (m.page ref).buddy = self → InUse m self b [b.blockAt 19 k (rightmost k)]
  | more {last p q : Nat} {out : List Nat} : Tower 19 last b m.heap →
      InUse m self b (p :: q :: out)

theorem Edge.frame {M k : Nat} {b : BuddyArea} {h h' : Heap} (he : Edge M k b h) (hM : 12 ≤ M)
    (hk : k ≤ M - 12) (hSame : ∀ x, b.Owns M x → h' x = h x) : Edge M k b h' := by
  have hHead : ∀ i < M - 11, h' (b.headAt i) = h (b.headAt i) :=
    fun i hi => hSame _ (owns_head hi)
  refine ⟨he.bit, ?_, ?_, ?_⟩
  · rw [hHead 0 (by omega)]
    exact he.root
  · intro l hl
    rw [hHead (l + 1) (by omega), hSame (b.hung M l)]
    · exact he.ring l hl
    · exact Or.inr (isEntry_entryAt hM (by omega) (Edge.left_lt l))
  · intro i hi hi'
    rw [hHead i hi']
    exact he.others i hi hi'

theorem Tower.frame {M last : Nat} {b : BuddyArea} {h h' : Heap} (ht : Tower M last b h)
    (hM : 12 ≤ M) (hSame : ∀ x, b.Owns M x → h' x = h x) : Tower M last b h' := by
  have hLe := ht.le
  have hHead : ∀ i < M - 11, h' (b.headAt i) = h (b.headAt i) :=
    fun i hi => hSame _ (owns_head hi)
  refine ⟨hLe, ht.clear, ?_, ?_⟩
  · intro i hi
    rw [hHead i (by omega)]
    exact ht.full i hi
  · intro i hi hi'
    rw [hHead i hi']
    exact ht.empty i hi hi'

theorem InUse.frame {m m' : Mem} {self : Nat} {b : BuddyArea} {live : List Nat}
    (h : InUse m self b live) (hSame : ∀ x, b.Owns 19 x → m'.heap x = m.heap x)
    (hPhys : m'.physMem = m.physMem) (hPage : ∀ k j ref, k ≤ 7 → j < 2 ^ k →
      phys2page m.physMem (b.blockAt 19 k j) = some ref → m'.page ref = m.page ref) :
    InUse m' self b live := by
  cases h with
  | none he => exact .none (he.frame (by omega) (by omega) hSame)
  | @one k ref hk he hRef hOrder hBuddy =>
    have hKeep := hPage k _ ref hk (rightmost_lt k) hRef
    exact .one hk (he.frame (by omega) (by omega) hSame) (hPhys ▸ hRef) (hKeep ▸ hOrder)
      (hKeep ▸ hBuddy)
  | more ht => exact .more (ht.frame (by omega) hSame)

theorem InUse.tower {m : Mem} {self : Nat} {b : BuddyArea} {live : List Nat}
    (h : InUse m self b live) (hp : Placed 19 b m.heap) : ∃ last, Tower 19 last b m.heap := by
  cases h with
  | none he => exact ⟨0, he.tower hp (by omega)⟩
  | one hk he => exact ⟨_, he.tower hp (by omega)⟩
  | more ht => exact ⟨_, ht⟩

theorem BuddyArea.owns_cases {b : BuddyArea} {x : Nat} (hx : b.Owns 19 x) :
    b.freelist ≤ x ∧ x < b.freelist + 16 * 8 ∨
      b.base + VMM_RESERVED_DM_START ≤ x ∧
        x < b.base + VMM_RESERVED_DM_START + BUDDY_MAX_SIZE := by
  have hPages : 2 ^ (19 - 12) = 128 := rfl
  rcases hx with ⟨l, hl, rfl⟩ | ⟨j, hj, rfl⟩
  · left
    unfold headAt
    omega
  · right
    unfold baseEntry BUDDY_MAX_SIZE PGSIZE
    omega

/-- Where an area keeps its buddy: the structure, the list heads and the arena. -/
structure Site where
  self : Nat
  freelist : Nat
  base : Nat

/-- The buddy at a site, hooked on the list at `head`. -/
structure Seat (s : Lending) (site : Site) (head : Nat) (b : BuddyArea) : Prop where
  buddy : s.st.buddies site.self = some b
  sizes : Sizes 19 b
  available_lt : b.available < wordSize
  freelist_eq : b.freelist = site.freelist
  base_eq : b.base = site.base
  first : s.st.m.heap head =
    some ⟨site.self + BuddyArea.headOffset, site.self + BuddyArea.headOffset⟩
  node : s.st.m.heap (site.self + BuddyArea.headOffset) = some ⟨head, head⟩
  use : InUse s.st.m site.self b (s.out.filter fun p => InArena site.base p)

/-- A seat depends on its own list nodes and page records only. -/
theorem Seat.frame {s s' : Lending} {site : Site} {head : Nat} {b : BuddyArea}
    (hb : Seat s site head b) (hBuddy : s'.st.buddies site.self = s.st.buddies site.self)
    (hFirst : s'.st.m.heap head = s.st.m.heap head)
    (hNode : s'.st.m.heap (site.self + BuddyArea.headOffset) =
      s.st.m.heap (site.self + BuddyArea.headOffset))
    (hOwns : ∀ x, b.Owns 19 x → s'.st.m.heap x = s.st.m.heap x)
    (hPhys : s'.st.m.physMem = s.st.m.physMem)
    (hPage : ∀ k j ref, k ≤ 7 → j < 2 ^ k →
      phys2page s.st.m.physMem (b.blockAt 19 k j) = some ref →
        s'.st.m.page ref = s.st.m.page ref)
    (hOut : s'.out.filter (fun p => InArena site.base p) =
      s.out.filter fun p => InArena site.base p) : Seat s' site head b := by
  refine ⟨hBuddy.trans hb.buddy, hb.sizes, hb.available_lt, hb.freelist_eq, hb.base_eq,
    hFirst.trans hb.first, hNode.trans hb.node, ?_⟩
  rw [hOut]
  exact hb.use.frame hOwns hPhys hPage

/-! ## All areas -/

/-- The area is among the first `n` and long enough for a buddy. -/
def Seated (areas : List MemArea) (n i : Nat) : Prop :=
  i < n ∧ ∃ area, areas[i]? = some area ∧ BUDDY_MAX_SIZE ≤ area.len

/-- The structures follow each other behind the array of areas, and the arenas do not meet. -/
structure Laid (areasAt : Nat) (areas : List MemArea) (n : Nat) (site : Nat → Site) : Prop where
  bounded : Bounded64 areas
  areas_ge : VMM_KERNEL_START ≤ areasAt
  self_ge : ∀ i, Seated areas n i → areasAt + MemArea.size * areas.length ≤ (site i).self
  heads_ge : ∀ i, Seated areas n i → (site i).self + BuddyArea.size ≤ (site i).freelist
  heads_le : ∀ i, Seated areas n i → (site i).freelist + 16 * 8 ≤ VMM_RESERVED_DM_START
  ordered : ∀ i k, i < k → Seated areas n i → Seated areas n k →
    (site i).freelist + 16 * 8 ≤ (site k).self
  apart : ∀ i k, i ≠ k → Seated areas n i → Seated areas n k →
    (Span.mk (site i).base BUDDY_MAX_SIZE).Apart ⟨(site k).base, BUDDY_MAX_SIZE⟩

structure Orderly (site : Nat → Site) (n : Nat) (s : Lending) : Prop where
  laid : Laid s.st.physMemAt s.st.m.physMem n site
  kernel : ∀ a, (s.st.m.heap a).isSome → VMM_KERNEL_START ≤ a ∧ a < wordSize
  bare : ∀ i < s.st.m.physMem.length, ¬ Seated s.st.m.physMem n i →
    ∀ c, s.st.m.heap (s.st.buddiesAt i) = some c → c = ⟨0, 0⟩
  seat : ∀ i, Seated s.st.m.physMem n i → ∃ b, Seat s (site i) (s.st.buddiesAt i) b
  only : ∀ at_ b, s.st.buddies at_ = some b → ∃ i, Seated s.st.m.physMem n i ∧ at_ = (site i).self
  held : ∀ p ∈ s.out, ∃ i, Seated s.st.m.physMem n i ∧ InArena (site i).base p

/-! ## No area reaches into another -/

section Cells

variable {n i k x : Nat} {site : Nat → Site} {s : Lending} {b b' : BuddyArea}

theorem Seat.owns_cases {site : Site} {head : Nat} (hb : Seat s site head b) (hx : b.Owns 19 x) :
    site.freelist ≤ x ∧ x < site.freelist + 16 * 8 ∨
      site.base + VMM_RESERVED_DM_START ≤ x ∧
        x < site.base + VMM_RESERVED_DM_START + BUDDY_MAX_SIZE := by
  have hCases := BuddyArea.owns_cases hx
  rwa [hb.freelist_eq, hb.base_eq] at hCases

namespace Orderly

theorem placed (h : Orderly site n s) (hi : Seated s.st.m.physMem n i)
    (hb : Seat s (site i) (s.st.buddiesAt i) b) : Placed 19 b s.st.m.heap := by
  have hLe := h.laid.heads_le i hi
  refine ⟨hb.sizes, ?_, h.kernel⟩
  rw [hb.freelist_eq]
  exact hLe

/-- The heads of the lists lie in the array of areas. -/
theorem buddiesAt_not_owned (h : Orderly site n s) (hi : Seated s.st.m.physMem n i)
    (hb : Seat s (site i) (s.st.buddiesAt i) b) (hk : k < s.st.m.physMem.length) :
    ¬ b.Owns 19 (s.st.buddiesAt k) := by
  intro hx
  have hSelf := h.laid.self_ge i hi
  have hGe := h.laid.heads_ge i hi
  have hLe := h.laid.heads_le i hi
  have hCases := hb.owns_cases hx
  unfold PageState.buddiesAt MemArea.buddiesOffset at hCases
  unfold MemArea.size at hSelf hCases
  omega

/-- Every node lies between the list heads of two areas. -/
theorem node_not_owned (h : Orderly site n s) (hi : Seated s.st.m.physMem n i)
    (hb : Seat s (site i) (s.st.buddiesAt i) b) (hk : Seated s.st.m.physMem n k) :
    ¬ b.Owns 19 ((site k).self + BuddyArea.headOffset) := by
  intro hx
  have hGe := h.laid.heads_ge k hk
  have hGe' := h.laid.heads_ge i hi
  have hLe := h.laid.heads_le k hk
  have hCases := hb.owns_cases hx
  unfold BuddyArea.headOffset at hCases
  unfold BuddyArea.size at hGe hGe'
  rcases Nat.lt_trichotomy i k with hLess | rfl | hMore
  · have hOrder := h.laid.ordered i k hLess hi hk
    omega
  · omega
  · have hOrder := h.laid.ordered k i hMore hk hi
    omega

theorem owns_apart (h : Orderly site n s) (hi : Seated s.st.m.physMem n i)
    (hb : Seat s (site i) (s.st.buddiesAt i) b) (hk : Seated s.st.m.physMem n k)
    (hb' : Seat s (site k) (s.st.buddiesAt k) b') (hNe : i ≠ k) (hx : b.Owns 19 x) :
    ¬ b'.Owns 19 x := by
  intro hx'
  have hHeads : ∀ i k, i < k → Seated s.st.m.physMem n i → Seated s.st.m.physMem n k →
      (site i).freelist + 16 * 8 ≤ (site k).freelist := by
    intro i k hLess hi hk
    have hOrder := h.laid.ordered i k hLess hi hk
    have hGe := h.laid.heads_ge k hk
    omega
  have hLe := h.laid.heads_le i hi
  have hLe' := h.laid.heads_le k hk
  have hApart := h.laid.apart i k hNe hi hk
  unfold Span.Apart at hApart
  dsimp only at hApart
  have hCases := hb.owns_cases hx
  have hCases' := hb'.owns_cases hx'
  rcases Nat.lt_or_gt_of_ne hNe with hLess | hMore
  · have hOrder := hHeads i k hLess hi hk
    omega
  · have hOrder := hHeads k i hMore hk hi
    omega

/-- Blocks of two areas have different records. -/
theorem record_ne (h : Orderly site n s) (hi : Seated s.st.m.physMem n i)
    (hk : Seated s.st.m.physMem n k) (hNe : i ≠ k) {p q : Nat} {ref ref' : PageRef}
    (hp : (Span.mk p PGSIZE).Within ⟨(site i).base, BUDDY_MAX_SIZE⟩)
    (hq : (Span.mk q PGSIZE).Within ⟨(site k).base, BUDDY_MAX_SIZE⟩)
    (hFit : p < wordSize) (hFit' : q < wordSize)
    (hRef : phys2page s.st.m.physMem p = some ref)
    (hRef' : phys2page s.st.m.physMem q = some ref') : ref' ≠ ref := by
  rintro rfl
  have hSame := h.laid.bounded.same_page hFit hFit' hRef hRef'
  have hApart := h.laid.apart i k hNe hi hk
  unfold Span.Apart at hApart
  unfold Span.Within at hp hq
  unfold pfn at hSame
  unfold PGSIZE at hp hq hSame
  dsimp only at hApart hp hq
  omega

end Orderly

end Cells

/-! ## What one call does to the others -/

section Steps

variable {n i : Nat} {site : Nat → Site} {s : Lending} {b b' : BuddyArea} {m' : Mem}
  {out' : List Nat} {p : Nat}

/-- Blocks of a seat lie in its arena. -/
theorem Seat.block_within {site : Site} {head k j : Nat} (hb : Seat s site head b) (hk : k ≤ 7)
    (hj : j < 2 ^ k) :
    (Span.mk (b.blockAt 19 k j) PGSIZE).Within ⟨site.base, BUDDY_MAX_SIZE⟩ ∧
      b.blockAt 19 k j < wordSize := by
  have hRoom := hb.sizes.end_le
  have hEnd := block_end_le (by omega : k ≤ 19) hj
  have hSize : 2 ^ 12 ≤ 2 ^ (19 - k) := Nat.pow_le_pow_right (by omega) (by omega)
  unfold Span.Within blockAt PGSIZE BUDDY_MAX_SIZE wordSize
  dsimp only
  rw [hb.base_eq] at hRoom ⊢
  omega

theorem inArena_of_within {p base : Nat} (h : (Span.mk p PGSIZE).Within ⟨base, BUDDY_MAX_SIZE⟩) :
    InArena base p := by
  unfold Span.Within PGSIZE at h
  unfold InArena
  dsimp only at h
  omega

theorem not_inArena {p base base' : Nat} (h : InArena base p)
    (hApart : (Span.mk base BUDDY_MAX_SIZE).Apart ⟨base', BUDDY_MAX_SIZE⟩) : ¬ InArena base' p := by
  unfold Span.Apart at hApart
  unfold InArena at h ⊢
  dsimp only at hApart
  omega

/-- A call on the area at seat `i` that changes its own list nodes, the record of one of its
blocks and its own part of what is out. -/
theorem Orderly.touch (h : Orderly site n s) (hi : Seated s.st.m.physMem n i)
    (hb : Seat s (site i) (s.st.buddiesAt i) b) (hKept : Kept b b' s.st.m m')
    (hAvail : b'.available < wordSize)
    (hOutside : ∀ x, ¬ b.Owns 19 x → m'.heap x = s.st.m.heap x)
    (hPage : ∃ k j ref, k ≤ 7 ∧ j < 2 ^ k ∧ phys2page s.st.m.physMem (b.blockAt 19 k j) = some ref ∧
      ∀ r, r ≠ ref → m'.page r = s.st.m.page r)
    (hHeld : ∀ q ∈ out', q ∈ s.out ∨ InArena (site i).base q)
    (hOthers : ∀ base, (Span.mk (site i).base BUDDY_MAX_SIZE).Apart ⟨base, BUDDY_MAX_SIZE⟩ →
      out'.filter (fun q => InArena base q) = s.out.filter fun q => InArena base q)
    (hUse : InUse m' (site i).self b' (out'.filter fun q => InArena (site i).base q)) :
    Orderly site n ⟨{ s.st.setBuddy (site i).self b' with m := m' }, out'⟩ := by
  obtain ⟨hFrame, hNodes, hPhys⟩ := hKept
  have hAt : ∀ l, ({ s.st.setBuddy (site i).self b' with m := m' } : PageState).buddiesAt l =
      s.st.buddiesAt l := fun _ => rfl
  refine ⟨hPhys ▸ h.laid, ?_, ?_, ?_, ?_, ?_⟩
  · intro a ha
    dsimp only at ha
    rw [hNodes] at ha
    exact h.kernel a ha
  · intro l hl hBare c hc
    dsimp only at hl hBare hc
    rw [hPhys] at hl hBare
    rw [hAt, hOutside _ (h.buddiesAt_not_owned hi hb hl)] at hc
    exact h.bare l hl hBare c hc
  · intro l hl
    dsimp only at hl ⊢
    rw [hPhys] at hl
    obtain ⟨area, hArea, -⟩ := hl.2
    have hLength := (List.getElem?_eq_some_iff.mp hArea).1
    have hHead := hOutside _ (h.buddiesAt_not_owned hi hb hLength)
    have hNode := hOutside _ (h.node_not_owned hi hb hl)
    by_cases hSame : l = i
    · subst hSame
      refine ⟨b', by simp [PageState.setBuddy], hb.sizes.congr hFrame, hAvail,
        hFrame.2.2.1.trans hb.freelist_eq, hFrame.1.trans hb.base_eq, ?_, ?_, hUse⟩
      · rw [hAt]
        exact hHead.trans hb.first
      · exact hNode.trans hb.node
    · obtain ⟨d, hd⟩ := h.seat l hl
      have hSelf : (site l).self ≠ (site i).self := by
        have hGe := h.laid.heads_ge i hi
        have hGe' := h.laid.heads_ge l hl
        rcases Nat.lt_or_gt_of_ne hSame with hLess | hMore
        · have := h.laid.ordered l i hLess hl hi
          omega
        · have := h.laid.ordered i l hMore hi hl
          omega
      refine ⟨d, hd.frame (if_neg hSelf) hHead hNode ?_ hPhys ?_
        (hOthers _ (h.laid.apart i l (Ne.symm hSame) hi hl))⟩
      · intro x hx
        exact hOutside x (h.owns_apart hl hd hi hb hSame hx)
      · intro k' j' ref' hk' hj' hRef'
        obtain ⟨k, j, ref, hk, hj, hRef, hKeep⟩ := hPage
        obtain ⟨hIn, hFit⟩ := hb.block_within hk hj
        obtain ⟨hIn', hFit'⟩ := hd.block_within hk' hj'
        exact hKeep ref' (h.record_ne hi hl (Ne.symm hSame) hIn hIn' hFit hFit' hRef hRef')
  · intro at_ d hd
    dsimp only at hd ⊢
    rw [hPhys]
    simp only [PageState.setBuddy] at hd
    split at hd
    · next hEq => exact ⟨i, hi, hEq⟩
    · exact h.only at_ d hd
  · intro q hq
    dsimp only at hq ⊢
    rw [hPhys]
    rcases hHeld q hq with hOld | hNew
    · exact h.held q hOld
    · exact ⟨i, hi, hNew⟩

/-! ## Calls keep the order -/

theorem setBuddy_same {st : PageState} {at_ : Nat} (hb : st.buddies at_ = some b) :
    st.setBuddy at_ b = st := by
  have hSame : (fun a => if a = at_ then some b else st.buddies a) = st.buddies := by
    funext a
    split
    · next hEq => rw [hEq, hb]
    · rfl
  unfold PageState.setBuddy
  rw [hSame]

/-- The buddy that a call works on has a seat. -/
theorem Orderly.seat_of_buddy (h : Orderly site n s) {at_ : Nat}
    (hb : s.st.buddies at_ = some b) : ∃ i, Seated s.st.m.physMem n i ∧ at_ = (site i).self ∧
      Seat s (site i) (s.st.buddiesAt i) b := by
  obtain ⟨i, hi, rfl⟩ := h.only at_ b hb
  obtain ⟨b', hSeat⟩ := h.seat i hi
  obtain rfl := Option.some.inj (hb.symm.trans hSeat.buddy)
  exact ⟨i, hi, rfl, hSeat⟩

theorem Orderly.served (h : Orderly site n s) (hi : Seated s.st.m.physMem n i)
    (hb : Seat s (site i) (s.st.buddiesAt i) b) {npages fuel : Nat} {m'' : Mem} {ref : PageRef}
    (hAlloc : buddyAlloc b s.st.m npages fuel = .ok (some p, b', m'))
    (hRef : phys2page m'.physMem p = some ref)
    (hWrite : m'.writePage (some ref) (fun page => { page with buddy := (site i).self }) =
      .ok m'') :
    Orderly site n ⟨{ s.st.setBuddy (site i).self b' with m := m'' }, p :: s.out⟩ := by
  have hp := h.placed hi hb
  obtain ⟨last, ht⟩ := hb.use.tower hp
  rcases ht.alloc hp (by decide) hb.available_lt hAlloc with ⟨-, -, hNone, -⟩ |
      ⟨_, hSome, -, ⟨⟨j, hj, hPtr⟩, hKept, hAvail, hOutside, ref', hRef', hPage⟩, hTower, hEdge⟩
  · cases hNone
  obtain rfl := Option.some.inj hSome
  have hBkt : bucketOf 19 npages ≤ 7 := bucketOf_le 19 npages
  rw [hKept.physMem, hRef'] at hRef
  obtain rfl := Option.some.inj hRef
  obtain ⟨ref, hSame, -, rfl⟩ := Mem.writePage_ok hWrite
  obtain rfl := Option.some.inj hSame
  have hIn := inArena_of_within (hPtr ▸ (hb.block_within hBkt hj).1)
  have hKept' : Kept b b' s.st.m { m' with page := fun r =>
      if r = ref' then { m'.page ref' with buddy := (site i).self } else m'.page r } :=
    ⟨hKept.sameFrame, hKept.sameNodes, hKept.physMem⟩
  refine h.touch hi hb hKept' ?_ hOutside ⟨_, j, ref', hBkt, hj, hPtr ▸ hRef', ?_⟩ ?_ ?_ ?_
  · have := hb.available_lt
    omega
  · intro r hr
    dsimp only
    rw [if_neg hr, hPage]
    exact if_neg hr
  · intro q hq
    rcases List.mem_cons.mp hq with rfl | hOld
    · exact Or.inr hIn
    · exact Or.inl hOld
  · intro base hApart
    exact List.filter_cons_of_neg (by simpa using not_inArena hIn hApart)
  · rw [List.filter_cons_of_pos (by simpa using hIn)]
    have hUse := hb.use
    generalize s.out.filter (fun q => InArena (site i).base q) = live at hUse
    cases hUse with
    | none he =>
      obtain ⟨he', hRight⟩ := hEdge he
      rw [← hKept.sameFrame.blockAt_eq] at hRight
      subst hRight
      refine .one hBkt he' (hKept.physMem.symm ▸ hRef') ?_ ?_
      · simp [hPage, Mem.withOrder]
      · simp
    | one => exact .more hTower
    | more => exact .more hTower

theorem Orderly.freed (h : Orderly site n s) {addr : Nat} {st : PageState} (hMem : addr ∈ s.out)
    (hAlone : Alone s (.free addr)) (hOk : pageFree s.st addr = .ok st) :
    Orderly site n ⟨st, s.out.erase addr⟩ := by
  obtain ⟨i, hi, hIn⟩ := h.held addr hMem
  obtain ⟨b, hb⟩ := h.seat i hi
  have hp := h.placed hi hb
  -- the block is all that is out of the arena
  have hRest : (s.out.erase addr).filter (fun q => InArena (site i).base q) = [] := by
    rw [List.filter_eq_nil_iff]
    intro q hq
    have hNot := hAlone (site i).self b hb.buddy (hb.base_eq ▸ hIn) q hq
    rw [hb.base_eq] at hNot
    simpa using hNot
  have hLive : s.out.filter (fun q => InArena (site i).base q) = [addr] := by
    have hPerm := (List.perm_cons_erase hMem).filter fun q => InArena (site i).base q
    rw [List.filter_cons_of_pos (by simpa using hIn), hRest] at hPerm
    exact List.perm_singleton.mp hPerm
  have hUse := hb.use
  rw [hLive] at hUse
  generalize hSingle : [addr] = live at hUse
  cases hUse with
  | none => cases hSingle
  | more => cases hSingle
  | @one k ref hk he hRef hOrder hBuddy =>
    obtain ⟨rfl, -⟩ := List.cons.inj hSingle
    rcases pageFree_ok hOk with ⟨hZero, -⟩ | ⟨ref', b1, b', m', hRef', hb1, hFree, rfl⟩
    · simp [phys2page, hZero] at hRef
    obtain rfl := Option.some.inj (hRef'.symm.trans hRef)
    rw [hBuddy] at hb1 ⊢
    obtain rfl := Option.some.inj (hb1.symm.trans hb.buddy)
    obtain ⟨hEdge, hAvail, hOutside, hPage⟩ := he.free hp hk hRef hOrder hFree
    refine h.touch hi hb (buddyFree_kept hFree) hAvail hOutside
      ⟨k, _, ref', hk, rightmost_lt k, hRef, ?_⟩ ?_ ?_ ?_
    · intro r hr
      rw [hPage]
      exact if_neg hr
    · exact fun q hq => Or.inl (List.mem_of_mem_erase hq)
    · intro base hApart
      rw [← List.erase_filter]
      exact List.erase_of_not_mem (by simp [not_inArena hIn hApart])
    · rw [hRest]
      exact .none hEdge

theorem LendStep.orderly {s' : Lending} {op : PageOp} (h : Orderly site n s)
    (hAlone : Alone s op) (hStep : LendStep s op s') : Orderly site n s' := by
  cases hStep with
  | served hOk =>
    cases pageAlloc_returns hOk with
    | served _ hb hAlloc hRef hWrite =>
      obtain ⟨i, hi, rfl, hSeat⟩ := h.seat_of_buddy hb
      exact h.served hi hSeat hAlloc hRef hWrite
  | refused hOk =>
    cases pageAlloc_returns hOk with
    | unserved => exact h
    | refused _ hb hAlloc =>
      obtain ⟨i, hi, rfl, hSeat⟩ := h.seat_of_buddy hb
      have hp := h.placed hi hSeat
      obtain ⟨last, ht⟩ := hSeat.use.tower hp
      rcases ht.alloc hp (by decide) hSeat.available_lt hAlloc with ⟨-, -, -, rfl, rfl⟩ | ⟨_, hSome, -⟩
      · rw [setBuddy_same hb]
        exact h
      · cases hSome
  | freed hMem hOk => exact h.freed hMem hAlone hOk

end Steps

end LunarOS
