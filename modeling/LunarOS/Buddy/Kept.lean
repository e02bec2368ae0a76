import LunarOS.Buddy.Serve

/-!
# What a completed call keeps, on any area

The invariants of the other modules are about an area on its own ground. Nothing protects an
area of the page allocator from a stray `page_free`, so what is needed there has to hold
whatever state the area is in: a completed call leaves the constants of the area, the set of
list nodes and the memory areas alone (`Kept`), and a block that it returns is a block of the
class it picked (`buddyAlloc_block`).
-/

namespace LunarOS

open Logic BuddyArea

/-- What no completed call changes. -/
structure Kept (b b' : BuddyArea) (m m' : Mem) : Prop where
  sameFrame : SameFrame b b'
  sameNodes : SameNodes m.heap m'.heap
  physMem : m'.physMem = m.physMem

namespace Kept

variable {b b' b'' : BuddyArea} {m m' m'' : Mem}

theorem refl (b : BuddyArea) (m : Mem) : Kept b b m m := ⟨.refl b, .refl m.heap, rfl⟩

theorem trans (h : Kept b b' m m') (h' : Kept b' b'' m' m'') : Kept b b'' m m'' :=
  ⟨h.sameFrame.trans h'.sameFrame, h.sameNodes.trans h'.sameNodes, h'.physMem.trans h.physMem⟩

theorem of_frame (hSame : SameFrame b b') (m : Mem) : Kept b b' m m := ⟨hSame, .refl m.heap, rfl⟩

theorem of_heap (b : BuddyArea) {heap : Heap} (hSame : SameNodes m.heap heap) :
    Kept b b m { m with heap } := ⟨.refl b, hSame, rfl⟩

end Kept

/-! ## The primitives -/

theorem nodeSetSplit_sameFrame {b b' : BuddyArea} {node : Nat}
    (hOk : nodeSetSplit b node = .ok b') : SameFrame b b' := by
  unfold nodeSetSplit at hOk
  split at hOk
  · cases hOk
    exact split_sameFrame b node
  · cases hOk

theorem nodeParentFlip_sameFrame {b b' : BuddyArea} {node : Nat}
    (hOk : nodeParentFlip b node = .ok b') : SameFrame b b' := by
  unfold nodeParentFlip at hOk
  dsimp only at hOk
  split at hOk
  · cases hOk
    exact flip_sameFrame b (nodeParent node)
  · cases hOk

theorem buddyRemove_sameNodes {h h' : Heap} {addr : Nat} (hOk : buddyRemove h addr = .ok h') :
    SameNodes h h' := by
  obtain ⟨h1, hRemove, hOk⟩ := bind_eq_ok.mp hOk
  cases hOk
  obtain ⟨hEntry, hSame⟩ := listRemove_sameNodes hRemove
  exact hSame.trans (write_sameNodes (by rw [hSame]; exact hEntry) _)

theorem buddyPop_sameNodes {h h' : Heap} {freelist : Nat} {entry : Option Nat}
    (hOk : buddyPop h freelist = .ok (entry, h')) :
    (∀ a, entry = some a → (h a).isSome) ∧ SameNodes h h' := by
  obtain ⟨⟨popped, h1⟩, hPop, hOk⟩ := bind_eq_ok.mp hOk
  obtain ⟨hMapped, hSame⟩ := listPop_sameNodes hPop
  cases popped with
  | none =>
    cases hOk
    exact ⟨by simp, hSame⟩
  | some a =>
    cases hOk
    have hEntry := hMapped a rfl
    refine ⟨hMapped, hSame.trans (write_sameNodes ?_ _)⟩
    rw [hSame]
    exact hEntry

theorem setOrder_kept {b : BuddyArea} {m m' : Mem} {ref? : Option PageRef} {bkt : Nat}
    (hOk : m.setOrder ref? bkt = .ok m') : Kept b b m m' := by
  obtain ⟨hHeap, hMem⟩ := Mem.writePage_frame hOk
  exact ⟨.refl b, by rw [hHeap]; exact .refl _, hMem⟩

/-! ## `buddy_alloc` -/

theorem treeWalkLoop_kept {bkt : Nat} : ∀ (levels node walker : Nat) {b b' : BuddyArea}
    {m m' : Mem} {ret : Option Nat},
    buddyTreeWalkLoop bkt levels node walker b m = .ok (ret, b', m') → Kept b b' m m' := by
  intro levels
  induction levels with
  | zero =>
    intro node walker b b' m m' ret hOk
    cases hOk
    exact .refl b m
  | succ levels ih =>
    intro node walker b b' m m' ret hOk
    unfold buddyTreeWalkLoop at hOk
    obtain ⟨isSplit, -, hOk⟩ := bind_eq_ok.mp hOk
    cases isSplit with
    | true => exact ih _ _ hOk
    | false =>
      obtain ⟨b1, hSplit, hOk⟩ := bind_eq_ok.mp hOk
      obtain ⟨head, -, hOk⟩ := bind_eq_ok.mp hOk
      obtain ⟨heap, hPush, hOk⟩ := bind_eq_ok.mp hOk
      have hFirst := (Kept.of_frame (nodeSetSplit_sameFrame hSplit) m).trans
        (Kept.of_heap b1 (listPushback_sameNodes hPush))
      split at hOk
      · obtain ⟨m1, hOrder, hOk⟩ := bind_eq_ok.mp hOk
        cases hOk
        exact hFirst.trans (setOrder_kept hOrder)
      · exact hFirst.trans (ih _ _ hOk)

/-- `b->available -= realsz`, as a word. -/
def BuddyArea.debited (b : BuddyArea) (bkt : Nat) : BuddyArea :=
  { b with available := sub64 b.available (intShl (sub64 (log2 b.max) bkt)) }

theorem available_sameFrame (b : BuddyArea) (n : Nat) : SameFrame b { b with available := n } :=
  ⟨rfl, rfl, rfl, rfl, rfl⟩

theorem debited_sameFrame (b : BuddyArea) (bkt : Nat) : SameFrame b (b.debited bkt) :=
  available_sameFrame b _

/-- The ways a request ends that returns. -/
inductive AllocReturns (b : BuddyArea) (m : Mem) (r fuel : Nat) :
    Option Nat → BuddyArea → Mem → Prop
  | refused : AllocReturns b m r fuel none b m
  | walked {bkt head : Nat} {heap : Heap} {ret : Option Nat} {b' : BuddyArea} {m' : Mem} :
      buddyFindBkt fuel b r = some bkt → freelistAt (b.debited bkt) bkt = .ok head →
      buddyPop m.heap head = .ok (none, heap) →
      buddyTreeWalk (b.debited bkt) bkt { m with heap } = .ok (ret, b', m') →
      AllocReturns b m r fuel ret b' m'
  | popped {bkt head ptr : Nat} {heap : Heap} {b' : BuddyArea} {m' : Mem} :
      buddyFindBkt fuel b r = some bkt → freelistAt (b.debited bkt) bkt = .ok head →
      buddyPop m.heap head = .ok (some ptr, heap) →
      (ptr2node (b.debited bkt) ptr bkt = 0 ∧ b' = b.debited bkt ∨
        nodeParentFlip (b.debited bkt) (ptr2node (b.debited bkt) ptr bkt) = .ok b') →
      Mem.setOrder { m with heap } (phys2page m.physMem ptr) bkt = .ok m' →
      AllocReturns b m r fuel (some ptr) b' m'

theorem buddyAlloc_returns {b b' : BuddyArea} {m m' : Mem} {r fuel : Nat} {ret : Option Nat}
    (hOk : buddyAlloc b m r fuel = .ok (ret, b', m')) : AllocReturns b m r fuel ret b' m' := by
  unfold buddyAlloc at hOk
  cases hFind : buddyFindBkt fuel b r with
  | none =>
    rw [hFind] at hOk
    cases hOk
  | some bkt =>
    rw [hFind] at hOk
    dsimp only at hOk
    split at hOk
    · cases hOk
      exact .refused
    · change (freelistAt (b.debited bkt) bkt >>= _) = _ at hOk
      obtain ⟨head, hHead, hOk⟩ := bind_eq_ok.mp hOk
      obtain ⟨⟨popped, heap⟩, hPop, hOk⟩ := bind_eq_ok.mp hOk
      cases popped with
      | none => exact .walked hFind hHead hPop hOk
      | some ptr =>
        dsimp only at hOk
        split at hOk
        · obtain ⟨b1, hFlip, hOk⟩ := bind_eq_ok.mp hOk
          obtain ⟨m1, hOrder, hOk⟩ := bind_eq_ok.mp hOk
          cases hOk
          exact .popped hFind hHead hPop (Or.inr hFlip) hOrder
        · next hRoot =>
          obtain ⟨b1, hSame, hOk⟩ := bind_eq_ok.mp hOk
          obtain ⟨m1, hOrder, hOk⟩ := bind_eq_ok.mp hOk
          cases hSame
          cases hOk
          exact .popped hFind hHead hPop (Or.inl ⟨not_not.mp hRoot, rfl⟩) hOrder

/-- The charge and the pop. -/
theorem debited_kept (b : BuddyArea) (bkt : Nat) {m : Mem} {head : Nat} {popped : Option Nat}
    {heap : Heap} (hPop : buddyPop m.heap head = .ok (popped, heap)) :
    Kept b (b.debited bkt) m { m with heap } :=
  ⟨debited_sameFrame b bkt, (buddyPop_sameNodes hPop).2, rfl⟩

theorem buddyAlloc_kept {b b' : BuddyArea} {m m' : Mem} {r fuel : Nat} {ret : Option Nat}
    (hOk : buddyAlloc b m r fuel = .ok (ret, b', m')) : Kept b b' m m' := by
  cases buddyAlloc_returns hOk with
  | refused => exact .refl b m
  | @walked bkt _ _ _ _ _ _ _ hPop hWalk =>
    exact (debited_kept b bkt hPop).trans (treeWalkLoop_kept bkt 0 1 hWalk)
  | @popped bkt _ _ heap _ _ _ _ hPop hFlip hOrder =>
    have hFirst := debited_kept b bkt hPop
    rcases hFlip with ⟨-, rfl⟩ | hFlip
    · exact hFirst.trans (setOrder_kept hOrder)
    · have hFlipped := Kept.of_frame (nodeParentFlip_sameFrame hFlip) { m with heap }
      exact (hFirst.trans hFlipped).trans (setOrder_kept hOrder)

/-! ## `buddy_free` -/

theorem freeLoop_kept : ∀ (bound node bkt : Nat) {b b' : BuddyArea} {h h' : Heap}
    {node' bkt' : Nat}, buddyFreeLoop bound node bkt b h = .ok (node', bkt', b', h') →
      SameFrame b b' ∧ SameNodes h h' := by
  intro bound
  induction bound with
  | zero =>
    intro node bkt b b' h h' node' bkt' hOk
    cases hOk
    exact ⟨.refl b, .refl h⟩
  | succ bound ih =>
    intro node bkt b b' h h' node' bkt' hOk
    unfold buddyFreeLoop at hOk
    split at hOk
    · cases hOk
      exact ⟨.refl b, .refl h⟩
    · obtain ⟨b1, hFlip, hOk⟩ := bind_eq_ok.mp hOk
      obtain ⟨isSplit, -, hOk⟩ := bind_eq_ok.mp hOk
      have hSame := nodeParentFlip_sameFrame hFlip
      cases isSplit with
      | true =>
        cases hOk
        exact ⟨hSame, .refl h⟩
      | false =>
        obtain ⟨h1, hRemove, hOk⟩ := bind_eq_ok.mp hOk
        obtain ⟨hRest, hNodes⟩ := ih _ _ hOk
        exact ⟨hSame.trans hRest, (buddyRemove_sameNodes hRemove).trans hNodes⟩

theorem buddyFree_kept {b b' : BuddyArea} {m m' : Mem} {ptr : Nat}
    (hOk : buddyFree b m ptr = .ok (b', m')) : Kept b b' m m' := by
  unfold buddyFree at hOk
  split at hOk
  · cases hOk
    exact .refl b m
  · split at hOk
    · cases hOk
      exact .refl b m
    · obtain ⟨page, -, hOk⟩ := bind_eq_ok.mp hOk
      obtain ⟨⟨node, bkt, b1, h1⟩, hLoop, hOk⟩ := bind_eq_ok.mp hOk
      obtain ⟨head, -, hOk⟩ := bind_eq_ok.mp hOk
      obtain ⟨h2, hPush, hOk⟩ := bind_eq_ok.mp hOk
      obtain ⟨m1, hWrite, hOk⟩ := bind_eq_ok.mp hOk
      cases hOk
      obtain ⟨hFrame, hNodes⟩ := freeLoop_kept _ _ _ hLoop
      obtain ⟨hHeap, hMem⟩ := Mem.writePage_frame hWrite
      refine ⟨hFrame.trans (available_sameFrame b1 _), ?_, hMem⟩
      rw [hHeap]
      exact hNodes.trans (listPushback_sameNodes hPush)

/-! ## The block that is returned -/

/-- What the walk returns is a block of its level. -/
theorem treeWalkLoop_block {M bkt p : Nat} (hBkt : bkt ≤ M - 12) : ∀ (n l e : Nat)
    {b b' : BuddyArea} {m m' : Mem}, Sizes M b → l + n = bkt → e < 2 ^ l →
      buddyTreeWalkLoop bkt n (nodeOf l e) (l + 1) b m = .ok (some p, b', m') →
        ∃ j, j < 2 ^ bkt ∧ p = b.blockAt M bkt j := by
  intro n
  induction n with
  | zero =>
    intro l e b b' m m' _ _ _ hOk
    cases hOk
  | succ n ih =>
    intro l e b b' m m' hSizes hl he hOk
    have hLe := hSizes.order_le
    have hLeft : 2 * e < 2 ^ (l + 1) := by rw [Nat.pow_succ]; omega
    have hRight : 2 * e + 1 < 2 ^ (l + 1) := by rw [Nat.pow_succ]; omega
    have hSplit := hSizes.congr (split_sameFrame b (nodeOf l e))
    rw [buddyTreeWalkLoop, hSizes.isSplit_eq (by omega) he, ok_bind_eq] at hOk
    split at hOk
    · rw [nodeLeft_eq (by omega) he] at hOk
      exact ih (l + 1) (2 * e) hSizes (by omega) hLeft hOk
    · rw [hSizes.setSplit_eq (by omega) he, ok_bind_eq] at hOk
      obtain ⟨head, -, hOk⟩ := bind_eq_ok.mp hOk
      obtain ⟨heap, -, hOk⟩ := bind_eq_ok.mp hOk
      rw [nodeRight_eq (by omega) he] at hOk
      split at hOk
      · next hLast =>
        subst hLast
        obtain ⟨m1, -, hOk⟩ := bind_eq_ok.mp hOk
        rw [hSplit.node2ptr_eq hBkt hRight, split_blockAt] at hOk
        cases hOk
        exact ⟨2 * e + 1, hRight, rfl⟩
      · have hRest := ih (l + 1) (2 * e + 1) hSplit (by omega) hRight hOk
        exact hRest

/-- A block that a small area returns is one of the class it picked: popping does not return
as long as list nodes have kernel addresses. -/
theorem buddyAlloc_block {M r fuel p : Nat} {b b' : BuddyArea} {m m' : Mem} (hSizes : Sizes M b)
    (hSmall : M ≤ 30)
    (hKernel : ∀ a, (m.heap a).isSome → VMM_KERNEL_START ≤ a ∧ a < wordSize)
    (hOk : buddyAlloc b m r fuel = .ok (some p, b', m')) :
    r ≤ 2 ^ M ∧ buddyFindBkt fuel b r = some (bucketOf M r) ∧
      ∃ j, j < 2 ^ bucketOf M r ∧ p = b.blockAt M (bucketOf M r) j := by
  have hOrder := hSizes.order_ge
  -- a bucket that the free lists have is the one of a request up to `max`
  have hClass : ∀ {bkt head : Nat}, buddyFindBkt fuel b r = some bkt →
      freelistAt (b.debited bkt) bkt = .ok head → r ≤ 2 ^ M ∧ bkt = bucketOf M r := by
    intro bkt head hFind hHead
    obtain ⟨hr, hBkt⟩ := findBkt_some hSizes hFind
    have hFits : r ≤ 2 ^ M := by
      by_contra hOver
      have hPast := hBkt ▸ bucket_wraps hSizes (Nat.lt_of_not_le hOver) hr
      rw [(hSizes.congr (debited_sameFrame b bkt)).freelistAt_error hPast] at hHead
      cases hHead
    exact ⟨hFits, hBkt.trans (bucket_eq hSizes hFits)⟩
  cases buddyAlloc_returns hOk with
  | @walked bkt head heap _ _ _ hFind hHead hPop hWalk =>
    obtain ⟨hFits, rfl⟩ := hClass hFind hHead
    have hDebited := hSizes.congr (debited_sameFrame b (bucketOf M r))
    obtain ⟨j, hj, hPtr⟩ := treeWalkLoop_block (bucketOf_le M r) (bucketOf M r) 0 0 hDebited
      (Nat.zero_add _) Nat.one_pos hWalk
    rw [(debited_sameFrame b _).blockAt_eq] at hPtr
    exact ⟨hFits, hFind, j, hj, hPtr⟩
  | @popped bkt head _ heap _ _ hFind hHead hPop hFlip hOrder' =>
    obtain ⟨hFits, rfl⟩ := hClass hFind hHead
    have hDebited := hSizes.congr (debited_sameFrame b (bucketOf M r))
    obtain ⟨hGe, hLt⟩ := hKernel p ((buddyPop_sameNodes hPop).1 p rfl)
    obtain ⟨hNode, byte, hFault⟩ := hDebited.parentFlip_fault hSmall (bucketOf_le M r) hGe hLt
    rcases hFlip with ⟨hRoot, -⟩ | hFlip
    · exact absurd hRoot hNode
    · rw [hFault] at hFlip
      cases hFlip

end LunarOS
