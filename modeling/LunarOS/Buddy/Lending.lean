import LunarOS.Buddy.Edge

/-!
# Whole calls on an area, whatever it stands on

A completed request was refused by the test on `available`, or it found its list empty and
walked the tree (`buddyAlloc_walked`). On a filled area such a walk always finds a block
(`Tower.alloc`), so a refusal is the only way to get no block. Freeing the only block that is
out leaves the area as it was before (`Edge.free`).
-/

namespace LunarOS

open Logic BuddyArea

/-! ## Requests -/

theorem buddyPop_none {h h' : Heap} {head : Nat} (hOk : buddyPop h head = .ok (none, h')) :
    h' = h ∧ ∃ c, h head = some c ∧ c.prev = head := by
  obtain ⟨⟨popped, h1⟩, hPop, hOk⟩ := bind_eq_ok.mp hOk
  cases popped with
  | some a => cases hOk
  | none =>
    cases hOk
    unfold listPop at hPop
    obtain ⟨empty, hEmpty, hPop⟩ := bind_eq_ok.mp hPop
    obtain ⟨c, hc, hEmpty⟩ := bind_eq_ok.mp hEmpty
    rw [Heap.read_eq_ok] at hc
    cases hEmpty
    split at hPop
    · next hPrev =>
      cases hPop
      exact ⟨rfl, c, hc, by simpa using hPrev⟩
    · obtain ⟨d, -, hPop⟩ := bind_eq_ok.mp hPop
      obtain ⟨h2, -, hPop⟩ := bind_eq_ok.mp hPop
      cases hPop

section Requests

variable {M r fuel : Nat} {b b' : BuddyArea} {m m' : Mem} {ret : Option Nat}

theorem buddyAlloc_walked (hp : Placed M b m.heap) (hSmall : M ≤ 30)
    (hAvail : b.available < wordSize)
    (hOk : buddyAlloc b m r fuel = .ok (ret, b', m')) :
    (r ≤ 2 ^ 63 ∧ Refused b r ∧ ret = none ∧ b' = b ∧ m' = m) ∨
      (r ≤ 2 ^ M ∧ (∃ c, m.heap (b.headAt (bucketOf M r)) = some c ∧
          c.prev = b.headAt (bucketOf M r)) ∧
        buddyTreeWalk (b.charged (charge r)) (bucketOf M r) m = .ok (ret, b', m')) := by
  obtain ⟨bkt, hFind⟩ := find_of_ok hOk
  obtain ⟨hr, hBkt⟩ := findBkt_some hp.sizes hFind
  have hOrder := hp.sizes.order_ge
  by_cases hRefused : Refused b r
  · rw [buddyAlloc_refused hp.sizes hAvail hFind hRefused] at hOk
    cases hOk
    exact Or.inl ⟨hr, hRefused, rfl, rfl, rfl⟩
  · right
    have hCharged := hp.sizes.congr (charged_sameFrame b (charge r))
    rw [buddyAlloc_charged hp.sizes hAvail hFind hRefused] at hOk
    obtain ⟨head, hHead, hOk⟩ := bind_eq_ok.mp hOk
    -- a bucket that the free lists have is the one of a request up to `max`
    have hFits : r ≤ 2 ^ M := by
      by_contra hOver
      have hPast := hBkt ▸ bucket_wraps hp.sizes (Nat.lt_of_not_le hOver) hr
      rw [hCharged.freelistAt_error hPast] at hHead
      cases hHead
    obtain rfl : bkt = bucketOf M r := hBkt.trans (bucket_eq hp.sizes hFits)
    have hLe := bucketOf_le M r
    rw [hCharged.freelistAt_eq (by omega), charged_headAt] at hHead
    obtain rfl := Except.ok.inj hHead
    obtain ⟨⟨popped, heap⟩, hPop, hOk⟩ := bind_eq_ok.mp hOk
    cases popped with
    | none =>
      obtain ⟨rfl, hEmpty⟩ := buddyPop_none hPop
      exact ⟨hFits, hEmpty, hOk⟩
    | some ptr =>
      -- the node of a popped address lies outside the tree
      obtain ⟨hGe, hLt⟩ := hp.kernel ptr ((buddyPop_sameNodes hPop).1 ptr rfl)
      obtain ⟨hNode, byte, hFault⟩ := hCharged.parentFlip_fault hSmall hLe hGe hLt
      dsimp only at hOk
      rw [if_pos hNode, hFault, error_bind_eq] at hOk
      cases hOk

/-- What a served request leaves. -/
structure Granted (M r : Nat) (b : BuddyArea) (m : Mem) (p : Nat) (b' : BuddyArea) (m' : Mem) :
    Prop where
  block : ∃ j < 2 ^ bucketOf M r, p = b.blockAt M (bucketOf M r) j
  kept : Kept b b' m m'
  available : b'.available = b.available - charge r
  outside : ∀ x, ¬ b.Owns M x → m'.heap x = m.heap x
  record : ∃ ref, phys2page m.physMem p = some ref ∧
    m'.page = (m.withOrder ref (bucketOf M r)).page

/-- A completed request to a filled area is refused, or it gets a block and fills the lists up
to its bucket. From rest the block is the rightmost one. -/
theorem Tower.alloc {last : Nat} (hp : Placed M b m.heap) (hSmall : M ≤ 30)
    (ht : Tower M last b m.heap) (hAvail : b.available < wordSize)
    (hOk : buddyAlloc b m r fuel = .ok (ret, b', m')) :
    (r ≤ 2 ^ 63 ∧ Refused b r ∧ ret = none ∧ b' = b ∧ m' = m) ∨
      ∃ p, ret = some p ∧ last < bucketOf M r ∧ Granted M r b m p b' m' ∧
        Tower M (bucketOf M r) b' m'.heap ∧
        (Edge M 0 b m.heap → Edge M (bucketOf M r) b' m'.heap ∧
          p = b.blockAt M (bucketOf M r) (rightmost (bucketOf M r))) := by
  rcases buddyAlloc_walked hp hSmall hAvail hOk with hRefused | ⟨hFits, ⟨c, hc, hEmpty⟩, hWalk⟩
  · exact Or.inl hRefused
  · right
    have hOrder := hp.sizes.order_ge
    have hLe := bucketOf_le M r
    have hLast : last < bucketOf M r := ht.lt_of_empty hp (by omega) hc hEmpty
    have hFrame := charged_sameFrame b (charge r)
    have hCharged : Placed M (b.charged (charge r)) m.heap := hp.congr hFrame (.refl _)
    have hFull := ht.charged (charge r)
    obtain ⟨hTower, hSome⟩ := Tower.walkLoop hLe hLast (bucketOf M r) 0 0 (Nat.zero_add _)
      (by omega) Nat.one_pos hCharged (by rwa [Nat.max_eq_left (Nat.zero_le last)]) hWalk
    obtain ⟨p, rfl⟩ := Option.isSome_iff_exists.mp hSome
    obtain ⟨hStays, hRecord⟩ := walkLoop_stays hLe (bucketOf M r) 0 0 (Nat.zero_add _) Nat.one_pos
      hCharged hFull.closed hWalk
    obtain ⟨j, hj, hPtr⟩ := treeWalkLoop_block hLe (bucketOf M r) 0 0 hCharged.sizes
      (Nat.zero_add _) Nat.one_pos hWalk
    refine ⟨p, rfl, hLast, ⟨⟨j, hj, hPtr⟩, buddyAlloc_kept hOk, hStays.available, ?_,
      hRecord p rfl⟩, hTower, ?_⟩
    · intro x hx
      exact hStays.outside x (by rwa [hFrame.owns_iff])
    · intro hEdge
      obtain ⟨hEdge', hRet⟩ := Edge.walkLoop hLe (bucketOf M r) 0 (Nat.zero_add _) hCharged
        (hEdge.charged _) hWalk
      exact ⟨hEdge', Option.some.inj (hRet (by omega))⟩

/-- `buddy_alloc` returns no block exactly when the test on `available` refuses. -/
theorem Tower.refuses_iff {last : Nat} (hp : Placed M b m.heap) (hSmall : M ≤ 30)
    (ht : Tower M last b m.heap) (hAvail : b.available < wordSize) :
    (∃ fuel b' m', buddyAlloc b m r fuel = .ok (none, b', m')) ↔ r ≤ 2 ^ 63 ∧ Refused b r := by
  constructor
  · rintro ⟨fuel, b', m', hOk⟩
    rcases ht.alloc hp hSmall hAvail hOk with ⟨hr, hRefused, -⟩ | ⟨p, hNone, -⟩
    · exact ⟨hr, hRefused⟩
    · cases hNone
  · rintro ⟨hr, hRefused⟩
    obtain ⟨fuel, hFind⟩ := findBkt_exists hp.sizes hr
    exact ⟨fuel, b, m, buddyAlloc_refused hp.sizes hAvail hFind hRefused⟩

end Requests

/-! ## Frees -/

section Frees

variable {M k : Nat} {b b' : BuddyArea} {m m' : Mem} {ref : PageRef}

theorem Edge.free (hp : Placed M b m.heap) (he : Edge M k b m.heap) (hk : k ≤ M - 12)
    (hRef : phys2page m.physMem (b.blockAt M k (rightmost k)) = some ref)
    (hRecord : (m.page ref).order = k)
    (hOk : buddyFree b m (b.blockAt M k (rightmost k)) = .ok (b', m')) :
    Edge M 0 b' m'.heap ∧ b'.available < wordSize ∧ (∀ x, ¬ b.Owns M x → m'.heap x = m.heap x) ∧
      m'.page = (m.withoutPage ref).page := by
  have hOrder := hp.sizes.order_ge
  have hPtr : b.blockAt M k (rightmost k) ≠ 0 := by
    intro hZero
    simp [phys2page, hZero] at hRef
  unfold buddyFree at hOk
  rw [if_neg hPtr, hRef] at hOk
  dsimp only at hOk
  obtain ⟨page, hPage, hOk⟩ := bind_eq_ok.mp hOk
  obtain ⟨-, rfl⟩ := Mem.readPage_ok hPage
  rw [hRecord, hp.sizes.ptr2node_block hk (rightmost_lt k)] at hOk
  obtain ⟨b1, h1, hRun, hEdge, -, hOutside⟩ := he.freeLoop hp hk (Nat.le_refl _)
  obtain ⟨hFrame, hNodes⟩ := freeLoop_kept _ _ _ hRun
  rw [hRun, ok_bind_eq] at hOk
  dsimp only at hOk
  -- the credited area has the lists of the area that the loop left
  have hCredit := add64_lt b1.available (intShl (sub64 (log2 b1.max) 0))
  generalize add64 b1.available (intShl (sub64 (log2 b1.max) 0)) = credit at hOk hCredit
  obtain ⟨b2, hCredited⟩ : ∃ b2, b2 = { b1 with available := credit } := ⟨_, rfl⟩
  rw [← hCredited] at hOk
  have hFrame' : SameFrame b b2 := by
    rw [hCredited]
    exact hFrame.trans (available_sameFrame b1 _)
  have hEdge' : Edge M 0 b2 h1 := by
    rw [hCredited]
    exact hEdge.credited credit
  have hp2 : Placed M b2 h1 := hp.congr hFrame' hNodes
  rw [hp2.sizes.freelistAt_eq (by omega), ok_bind_eq,
    hp2.sizes.node2ptr_eq (Nat.zero_le _) Nat.one_pos] at hOk
  obtain ⟨h2, hPush, hOk⟩ := bind_eq_ok.mp hOk
  obtain ⟨m1, hWrite, hOk⟩ := bind_eq_ok.mp hOk
  obtain ⟨rfl, rfl⟩ := Prod.mk.inj (Except.ok.inj hOk)
  obtain ⟨c, hc, -, rfl⟩ := hp2.pushback_ok (by omega) (Nat.zero_le _) Nat.one_pos hPush
  obtain rfl := Option.some.inj (hEdge'.root.symm.trans hc)
  rw [(Mem.writePage_frame hWrite).1]
  rw [entryAt_zero] at hWrite ⊢
  refine ⟨hEdge'.hang hp2, ?_, ?_, ?_⟩
  · rw [hCredited]
    exact hCredit
  · intro x hx
    dsimp only
    have hBase : b2.baseEntry = b.baseEntry := hFrame'.baseEntry_eq
    have hEntryNe : x ≠ b2.baseEntry := by
      rintro rfl
      exact hx (Or.inr ⟨0, Nat.two_pow_pos _, by rw [hBase]; simp⟩)
    have hHeadNe : x ≠ b2.headAt 0 := by
      rintro rfl
      exact hx (hFrame'.headAt_eq 0 ▸ owns_head (by omega))
    rw [linked_outside hEntryNe hHeadNe hEntryNe, hOutside x hx]
  · obtain ⟨ref', hSame, -, rfl⟩ := Mem.writePage_ok hWrite
    obtain rfl := Option.some.inj hSame
    rfl

end Frees

end LunarOS
