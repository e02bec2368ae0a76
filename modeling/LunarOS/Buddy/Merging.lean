import LunarOS.Buddy.Climb
import LunarOS.Buddy.Kept
import LunarOS.Buddy.Splitting

/-!
# One climb on any tree

The counterpart of `Splitting` for `buddy_free`: the bits of the tree are arbitrary and nothing is
asked of the lists. The bits alone determine how far the loop climbs; `freeLoop_eq` gives it as
a sequence of `buddy_remove` calls on the siblings it passes. `buddyFree_iff` says that the call
merges the freed block with them exactly when the block's parent lies in the bytes allocated
for the tree.
-/

namespace LunarOS

open Logic BuddyArea

/-! ## How far the loop climbs -/

/-- The siblings that the climb from node `j` of a level merges with. -/
def merged (b : BuddyArea) : Nat → Nat → List (Nat × Nat)
  | 0, _ => []
  | k + 1, j => if b.bit (nodeOf k (j / 2)) then (k + 1, j ^^^ 1) :: merged b k (j / 2) else []

/-- The ancestors whose bit is flipped. -/
def flipped (b : BuddyArea) : Nat → Nat → List Nat
  | 0, _ => []
  | k + 1, j =>
    nodeOf k (j / 2) :: if b.bit (nodeOf k (j / 2)) then flipped b k (j / 2) else []

/-- The node where the loop ends. -/
def topNode (b : BuddyArea) : Nat → Nat → Nat × Nat
  | 0, j => (0, j)
  | k + 1, j => if b.bit (nodeOf k (j / 2)) then topNode b k (j / 2) else (k + 1, j)

/-- Ancestor `i + 1` of node `j` of level `k`. -/
def ancestor (k j i : Nat) : Nat := nodeOf (k - (i + 1)) (j / 2 ^ (i + 1))

section

variable {b : BuddyArea} {k j : Nat}

theorem ancestor_zero (k j : Nat) : ancestor (k + 1) j 0 = nodeOf k (j / 2) := by
  simp [ancestor]

theorem ancestor_succ (k j i : Nat) : ancestor (k + 1) j (i + 1) = ancestor k (j / 2) i := by
  unfold ancestor
  rw [Nat.div_div_eq_div_mul, ← Nat.pow_succ', Nat.add_sub_add_right]

theorem merged_set (h : b.bit (nodeOf k (j / 2)) = true) :
    merged b (k + 1) j = (k + 1, j ^^^ 1) :: merged b k (j / 2) := if_pos h

theorem merged_clear (h : b.bit (nodeOf k (j / 2)) = false) : merged b (k + 1) j = [] :=
  if_neg (by simp [h])

theorem topNode_set (h : b.bit (nodeOf k (j / 2)) = true) :
    topNode b (k + 1) j = topNode b k (j / 2) := if_pos h

theorem topNode_clear (h : b.bit (nodeOf k (j / 2)) = false) :
    topNode b (k + 1) j = (k + 1, j) := if_neg (by simp [h])

theorem flipped_set (h : b.bit (nodeOf k (j / 2)) = true) :
    flipped b (k + 1) j = nodeOf k (j / 2) :: flipped b k (j / 2) := by
  simp [flipped, h]

theorem flipped_clear (h : b.bit (nodeOf k (j / 2)) = false) :
    flipped b (k + 1) j = [nodeOf k (j / 2)] := by
  simp [flipped, h]

/-- The climb, read from its end, is a descent that peels off every sibling. -/
theorem merged_descent (b : BuddyArea) (k j : Nat) :
    Descent (topNode b k j).1 (topNode b k j).2 (merged b k j).reverse k j := by
  induction k generalizing j with
  | zero => exact .here 0 j
  | succ k ih =>
    cases hBit : b.bit (nodeOf k (j / 2)) with
    | true =>
      rw [topNode_set hBit, merged_set hBit, List.reverse_cons]
      exact (ih (j / 2)).trans (.peel (.here (k + 1) j))
    | false =>
      rw [topNode_clear hBit, merged_clear hBit]
      exact .here (k + 1) j

theorem merged_length (b : BuddyArea) (k j : Nat) :
    (topNode b k j).1 + (merged b k j).length = k ∧
      (topNode b k j).2 = j / 2 ^ (merged b k j).length := by
  induction k generalizing j with
  | zero => simp [topNode, merged]
  | succ k ih =>
    cases hBit : b.bit (nodeOf k (j / 2)) with
    | true =>
      obtain ⟨hLevel, hIndex⟩ := ih (j / 2)
      rw [topNode_set hBit, merged_set hBit, List.length_cons, hIndex, Nat.div_div_eq_div_mul,
        ← Nat.pow_succ']
      exact ⟨by omega, rfl⟩
    | false => simp [topNode_clear hBit, merged_clear hBit]

/-- The merged blocks are the siblings along the climb, and their parents' bits were set. -/
theorem merged_getElem (b : BuddyArea) (k j : Nat) : ∀ i < (merged b k j).length,
    (merged b k j)[i]? = some (k - i, (j / 2 ^ i) ^^^ 1) ∧ b.bit (ancestor k j i) = true := by
  induction k generalizing j with
  | zero => simp [merged]
  | succ k ih =>
    cases hBit : b.bit (nodeOf k (j / 2)) with
    | true =>
      rw [merged_set hBit]
      intro i hi
      cases i with
      | zero =>
        rw [ancestor_zero]
        exact ⟨by simp, hBit⟩
      | succ i =>
        obtain ⟨hSibling, hSet⟩ := ih (j / 2) i (by simpa using hi)
        rw [ancestor_succ, List.getElem?_cons_succ, hSibling, Nat.div_div_eq_div_mul,
          ← Nat.pow_succ', Nat.add_sub_add_right]
        exact ⟨rfl, hSet⟩
    | false => simp [merged_clear hBit]

/-- The loop ends at the root or below an ancestor whose bit was clear. -/
theorem merged_ends (b : BuddyArea) (k j : Nat) :
    (merged b k j).length < k → b.bit (ancestor k j (merged b k j).length) = false := by
  induction k generalizing j with
  | zero => simp
  | succ k ih =>
    cases hBit : b.bit (nodeOf k (j / 2)) with
    | true =>
      rw [merged_set hBit, List.length_cons, ancestor_succ]
      intro hEnd
      exact ih (j / 2) (by omega)
    | false =>
      rw [merged_clear hBit, List.length_nil, ancestor_zero]
      exact fun _ => hBit

theorem mem_flipped (b : BuddyArea) (k j x : Nat) :
    x ∈ flipped b k j ↔ ∃ i, i < k ∧ i ≤ (merged b k j).length ∧ x = ancestor k j i := by
  induction k generalizing j with
  | zero => simp [flipped]
  | succ k ih =>
    cases hBit : b.bit (nodeOf k (j / 2)) with
    | true =>
      rw [flipped_set hBit, merged_set hBit, List.mem_cons, ih]
      constructor
      · rintro (rfl | ⟨i, hi, hle, rfl⟩)
        · exact ⟨0, by omega, by simp, (ancestor_zero k j).symm⟩
        · exact ⟨i + 1, by omega, by simpa using hle, (ancestor_succ k j i).symm⟩
      · rintro ⟨i, hi, hle, rfl⟩
        cases i with
        | zero => exact Or.inl (ancestor_zero k j)
        | succ i => exact Or.inr ⟨i, by omega, by simpa using hle, ancestor_succ k j i⟩
    | false =>
      rw [flipped_clear hBit, merged_clear hBit, List.mem_singleton]
      constructor
      · rintro rfl
        exact ⟨0, by omega, by simp, (ancestor_zero k j).symm⟩
      · rintro ⟨i, -, hle, rfl⟩
        obtain rfl : i = 0 := by simpa using hle
        exact ancestor_zero k j

/-- Going up, the node numbers fall. -/
theorem nodeOf_half_lt (k j : Nat) : nodeOf k (j / 2) < nodeOf (k + 1) j := by
  have hPos := Nat.two_pow_pos k
  unfold nodeOf
  rw [Nat.pow_succ]
  omega

theorem flipped_le (b : BuddyArea) (k j : Nat) : ∀ x ∈ flipped b (k + 1) j,
    x ≤ nodeOf k (j / 2) := by
  induction k generalizing j with
  | zero => simp [flipped]
  | succ k ih =>
    intro x hx
    cases hBit : b.bit (nodeOf (k + 1) (j / 2)) with
    | true =>
      rw [flipped_set hBit] at hx
      rcases List.mem_cons.mp hx with rfl | hx
      · exact Nat.le_refl _
      · exact (ih (j / 2) x hx).trans (nodeOf_half_lt k (j / 2)).le
    | false =>
      rw [flipped_clear hBit] at hx
      exact (List.mem_singleton.mp hx).le

end

/-! ## The loop as calls -/

/-- `buddy_remove` on the blocks of a list. -/
def removeBlocks (M : Nat) (b : BuddyArea) (l : List (Nat × Nat)) (h : Heap) : Outcome Heap :=
  l.foldlM (fun h kj => buddyRemove h (b.blockAt M kj.1 kj.2)) h

/-- `node_parent_flip` on the nodes of a list. -/
def flipNodes (b : BuddyArea) (l : List Nat) : BuddyArea := l.foldl flip b

theorem flipNodes_sameFrame (b : BuddyArea) (l : List Nat) :
    SameFrame b (flipNodes b l) ∧ (flipNodes b l).available = b.available := by
  induction l generalizing b with
  | nil => exact ⟨SameFrame.refl b, rfl⟩
  | cons n l ih =>
    obtain ⟨hFrame, hAvailable⟩ := ih (b.flip n)
    exact ⟨(flip_sameFrame b n).trans hFrame, hAvailable⟩

theorem flipNodes_bit {l : List Nat} (hNodup : l.Nodup) (b : BuddyArea) (x : Nat) :
    (flipNodes b l).bit x = (b.bit x ^^ decide (x ∈ l)) := by
  induction l generalizing b with
  | nil => simp [flipNodes]
  | cons n l ih =>
    obtain ⟨hNew, hRest⟩ := List.nodup_cons.mp hNodup
    change (flipNodes (b.flip n) l).bit x = _
    rw [ih hRest, bit_flip]
    by_cases hx : x = n
    · subst hx
      simp [hNew]
    · simp [hx]

theorem flipped_nodup (b : BuddyArea) (k j : Nat) : (flipped b k j).Nodup := by
  induction k generalizing j with
  | zero => simp [flipped]
  | succ k ih =>
    cases hBit : b.bit (nodeOf k (j / 2)) with
    | true =>
      rw [flipped_set hBit]
      refine List.nodup_cons.mpr ⟨fun hIn => ?_, ih (j / 2)⟩
      cases k with
      | zero => simp [flipped] at hIn
      | succ k =>
        have hLe := flipped_le b k (j / 2) _ hIn
        have hLt := nodeOf_half_lt k (j / 2)
        omega
    | false => simp [flipped_clear hBit]

theorem nodeParentFlip_eq {b : BuddyArea} {n p : Nat} (hParent : nodeParent n = p)
    (hIn : p / 8 < b.treeSz) : nodeParentFlip b n = .ok (b.flip p) := by
  unfold nodeParentFlip
  rw [hParent]
  exact if_pos hIn

/-- The loop from level `k` on. -/
theorem freeLoop_eq {M : Nat} {b0 : BuddyArea} (h0 : Extent M b0) :
    ∀ (k j bound : Nat) (b : BuddyArea) (h : Heap), k ≤ M → k ≤ 30 → j < 2 ^ k →
      nodeOf k j ≤ bound → SameFrame b0 b → (0 < k → nodeOf (k - 1) (j / 2) / 8 < b0.treeSz) →
      (∀ k' j', k' < k → j' < 2 ^ k' → b.bit (nodeOf k' j') = b0.bit (nodeOf k' j')) →
      buddyFreeLoop bound (nodeOf k j) k b h =
        removeBlocks M b0 (merged b0 k j) h >>= fun h =>
          .ok (nodeOf (topNode b0 k j).1 (topNode b0 k j).2, (topNode b0 k j).1,
            flipNodes b (flipped b0 k j), h) := by
  intro k
  induction k with
  | zero =>
    intro j bound b h _ _ hj _ _ _ _
    obtain rfl : j = 0 := by simpa using hj
    exact freeLoop_root
  | succ k ih =>
    intro j bound b h hk hInt hj hBound hFrame hTree hAgree
    have hHalf : j / 2 < 2 ^ k := by rw [Nat.pow_succ] at hj; omega
    have hNode : nodeOf (k + 1) j ≠ 0 := (nodeOf_pos (by omega : 0 < k + 1) j).ne'
    have hParent := nodeParent_eq (by omega : k + 1 ≤ 31) hj
    have hIn : nodeOf k (j / 2) / 8 < b.treeSz := hFrame.2.1 ▸ hTree (by omega)
    have hFrame' := hFrame.trans (flip_sameFrame b (nodeOf k (j / 2)))
    have hIn' : nodeOf k (j / 2) / 8 < (b.flip (nodeOf k (j / 2))).treeSz := hIn
    have hBits := hAgree k (j / 2) (by omega) hHalf
    have hLess := nodeOf_half_lt k j
    obtain ⟨less, rfl⟩ : ∃ less, bound = less + 1 := ⟨bound - 1, by omega⟩
    rw [buddyFreeLoop, if_neg hNode, nodeParentFlip_eq hParent hIn, ok_bind_eq, hParent,
      nodeIsSplit_eq hIn', ok_bind_eq, bit_flip_same, hBits]
    cases hBit : b0.bit (nodeOf k (j / 2)) with
    | true =>
      rw [Bool.not_true, if_neg Bool.false_ne_true, nodeSibling_eq (by omega) hj,
        (h0.congr hFrame').node2ptr_eq hk hInt (xor_one_lt hj), hFrame'.blockAt_eq,
        sub64_eq (by omega) (by unfold wordSize; omega), Nat.add_sub_cancel, merged_set hBit,
        topNode_set hBit, flipped_set hBit, removeBlocks, List.foldlM_cons, bind_assoc]
      congr 1
      funext h1
      refine ih (j / 2) less _ h1 (by omega) (by omega) hHalf (by omega) hFrame' ?_ ?_
      · intro hk'
        have hTree' := hTree (by omega)
        rw [Nat.add_sub_cancel] at hTree'
        have hUp := nodeOf_half_lt (k - 1) (j / 2)
        rw [Nat.sub_add_cancel hk'] at hUp
        omega
      · intro k' j' hk' hj'
        rw [← hAgree k' j' (by omega) hj', bit_flip_other]
        intro hEq
        have := (nodeOf_inj hj' hHalf hEq).1
        omega
    | false =>
      rw [Bool.not_false, if_pos rfl, merged_clear hBit, topNode_clear hBit, flipped_clear hBit]
      rfl

/-! ## What a climb should do -/

/-- Freeing block `j` of level `bkt` merges it with the blocks `removed` and frees the block `top`,
a pair of level and index; the area is left as `b'`. -/
structure Merges (M bkt j : Nat) (b : BuddyArea) (removed : List (Nat × Nat)) (top : Nat × Nat)
    (b' : BuddyArea) : Prop where
  loop : ∀ h, buddyFreeLoop (nodeOf bkt j) (nodeOf bkt j) bkt b h =
    removeBlocks M b removed h >>= fun h =>
      .ok (nodeOf top.1 top.2, top.1, { b' with available := b.available }, h)
  call : ∀ m ref, phys2page m.physMem (b.blockAt M bkt j) = some ref → InMap m.physMem ref →
    (m.page ref).order = bkt → buddyFree b m (b.blockAt M bkt j) = do
      let heap ← removeBlocks M b removed m.heap
      let heap ← buddyPushback heap (b.headAt top.1) (b.blockAt M top.1 top.2)
      let m ← { m with heap }.writePage (some ref) fun _ => {}
      pure (b', m)
  level : top.1 + removed.length = bkt ∧ top.2 < 2 ^ top.1
  root : nodeOf top.1 top.2 = 0 ↔ top.1 = 0
  siblings : ∀ i < removed.length,
    removed[i]? = some (bkt - i, (j / 2 ^ i) ^^^ 1) ∧ b.bit (ancestor bkt j i) = true
  ends : removed.length < bkt → b.bit (ancestor bkt j removed.length) = false
  bits : ∀ x, b'.bit x ≠ b.bit x ↔
    ∃ i, i < bkt ∧ i ≤ removed.length ∧ x = ancestor bkt j i
  frame : SameFrame b b'
  apart : (Descent.blocks b.base M ((bkt, j) :: removed)).Pairwise Span.Apart
  union : Span.union (Descent.blocks b.base M ((bkt, j) :: removed)) =
    (block b.base M top.1 top.2).bytes

/-- Where the bytes of the tree end for a block of an area of `2^M` bytes. -/
def ParentCovered (M bkt j : Nat) : Prop :=
  M ≤ 42 ∨ bkt ≤ M - 40 ∨ bkt = M - 39 ∧ j < 2

instance (M bkt j : Nat) : Decidable (ParentCovered M bkt j) :=
  inferInstanceAs (Decidable (_ ∨ _ ∨ _))

theorem parentCovered_iff {M k j : Nat} {b : BuddyArea} (h : Extent M b) (hk : k + 1 ≤ M - 12)
    (hj : j < 2 ^ (k + 1)) :
    nodeOf k (j / 2) / 8 < b.treeSz ↔ ParentCovered M (k + 1) j := by
  have hHalf : j / 2 < 2 ^ k := by rw [Nat.pow_succ] at hj; omega
  unfold ParentCovered
  rcases Nat.lt_or_ge 42 M with hM | hM
  · rw [h.inTree_high hM]
    have hNode := nodeOf_lt hHalf
    have hPos := Nat.two_pow_pos (M - 40)
    rcases Nat.lt_trichotomy k (M - 40) with hlt | rfl | hgt
    · have hPow : 2 ^ (k + 1) ≤ 2 ^ (M - 40) := Nat.pow_le_pow_right (by omega) hlt
      omega
    · unfold nodeOf
      omega
    · have hPow : 2 ^ (M - 40 + 1) ≤ 2 ^ k := Nat.pow_le_pow_right (by omega) hgt
      rw [Nat.pow_succ] at hPow
      unfold nodeOf
      omega
  · have hIn := h.inTree_low hM (by omega : k ≤ M - 12) hHalf
    omega

theorem available_bit (b : BuddyArea) (n x : Nat) :
    { b with available := n }.bit x = b.bit x := rfl

/-- The area after the climb of a freed block. -/
def mergedArea (M : Nat) (b : BuddyArea) (bkt j : Nat) : BuddyArea :=
  { flipNodes b (flipped b bkt j) with
    available := add64 b.available (intShl (sub64 M (topNode b bkt j).1)) }

theorem mergedArea_sameFrame (M : Nat) (b : BuddyArea) (bkt j : Nat) :
    SameFrame b (mergedArea M b bkt j) := by
  unfold mergedArea
  exact (flipNodes_sameFrame b (flipped b bkt j)).1.trans (available_sameFrame _ _)

theorem mergedArea_bit (M : Nat) (b : BuddyArea) (bkt j x : Nat) :
    (mergedArea M b bkt j).bit x = (b.bit x ^^ decide (x ∈ flipped b bkt j)) := by
  unfold mergedArea
  rw [available_bit, flipNodes_bit (flipped_nodup b bkt j)]

section

variable {M bkt j : Nat} {b : BuddyArea}

theorem climb_eq (h : Extent M b) (hBkt : bkt ≤ M - 12) (hInt : bkt ≤ 30) (hj : j < 2 ^ bkt)
    (hTree : 0 < bkt → nodeOf (bkt - 1) (j / 2) / 8 < b.treeSz) (heap : Heap) :
    buddyFreeLoop (nodeOf bkt j) (nodeOf bkt j) bkt b heap =
      removeBlocks M b (merged b bkt j) heap >>= fun heap =>
        .ok (nodeOf (topNode b bkt j).1 (topNode b bkt j).2, (topNode b bkt j).1,
          flipNodes b (flipped b bkt j), heap) := by
  have hGe := h.order_ge
  exact freeLoop_eq h bkt j _ b heap (by omega) hInt hj (Nat.le_refl _) (SameFrame.refl b) hTree
    fun _ _ _ _ => rfl

/-- The call credits and pushes the block that the climb ends with. -/
theorem buddyFree_eq (h : Extent M b) (hBkt : bkt ≤ M - 12) (hInt : bkt ≤ 30) (hj : j < 2 ^ bkt)
    (hTree : 0 < bkt → nodeOf (bkt - 1) (j / 2) / 8 < b.treeSz)
    (hPtr : b.blockAt M bkt j ≠ 0) {m : Mem} {ref : PageRef}
    (hRef : phys2page m.physMem (b.blockAt M bkt j) = some ref) (hIn : InMap m.physMem ref)
    (hOrder : (m.page ref).order = bkt) : buddyFree b m (b.blockAt M bkt j) = (do
      let heap ← removeBlocks M b (merged b bkt j) m.heap
      let heap ← buddyPushback heap (b.headAt (topNode b bkt j).1)
        (b.blockAt M (topNode b bkt j).1 (topNode b bkt j).2)
      let m ← { m with heap }.writePage (some ref) fun _ => {}
      pure (mergedArea M b bkt j, m)) := by
  have hGe := h.order_ge
  obtain ⟨hFrame, hAvailable⟩ := flipNodes_sameFrame b (flipped b bkt j)
  have hFrame' := mergedArea_sameFrame M b bkt j
  have hExtent := h.congr hFrame'
  obtain ⟨hLevel, -⟩ := merged_length b bkt j
  have hTop := ((merged_descent b bkt j).index_lt hj).1
  have hCredit : { flipNodes b (flipped b bkt j) with
      available := add64 (flipNodes b (flipped b bkt j)).available
        (intShl (sub64 (log2 (flipNodes b (flipped b bkt j)).max) (topNode b bkt j).1)) } =
      mergedArea M b bkt j := by
    unfold mergedArea
    rw [(h.congr hFrame).log2_max, hAvailable]
  unfold buddyFree
  rw [if_neg hPtr, hRef]
  dsimp only
  rw [Mem.readPage_eq hIn, ok_bind_eq, hOrder, h.ptr2node_block (by omega) hInt hj,
    climb_eq h hBkt hInt hj hTree, bind_assoc]
  refine bind_congr fun heap => ?_
  rw [ok_bind_eq]
  dsimp only
  rw [hCredit, hExtent.freelistAt_eq (by omega), ok_bind_eq,
    hExtent.node2ptr_eq (by omega) (by omega) hTop, hFrame'.headAt_eq, hFrame'.blockAt_eq]

theorem merges_of_tree (h : Extent M b) (hBkt : bkt ≤ M - 12) (hInt : bkt ≤ 30)
    (hj : j < 2 ^ bkt) (hTree : 0 < bkt → nodeOf (bkt - 1) (j / 2) / 8 < b.treeSz)
    (hPtr : b.blockAt M bkt j ≠ 0) :
    Merges M bkt j b (merged b bkt j) (topNode b bkt j) (mergedArea M b bkt j) := by
  have hGe := h.order_ge
  obtain ⟨hLevel, hIndex⟩ := merged_length b bkt j
  have hDescent := merged_descent b bkt j
  have hTop : (topNode b bkt j).2 < 2 ^ (topNode b bkt j).1 := (hDescent.index_lt hj).1
  have hApart := hDescent.apart b.base (by omega : bkt ≤ M)
  have hTiles := hDescent.tiles b.base (by omega : bkt ≤ M)
    (by rw [List.length_reverse]; exact hLevel)
  refine ⟨fun heap => ?_, fun m ref hRef hIn hOrder => ?_, ⟨hLevel, hTop⟩, ?_,
    merged_getElem b bkt j, merged_ends b bkt j, fun x => ?_, mergedArea_sameFrame M b bkt j,
    ?_, ?_⟩
  · have hSame : { mergedArea M b bkt j with available := b.available } =
        flipNodes b (flipped b bkt j) := by
      unfold mergedArea
      rw [← (flipNodes_sameFrame b (flipped b bkt j)).2]
    rw [hSame]
    exact climb_eq h hBkt hInt hj hTree heap
  · exact buddyFree_eq h hBkt hInt hj hTree hPtr hRef hIn hOrder
  · constructor
    · intro hZero
      by_contra hPos
      exact (nodeOf_pos (Nat.pos_of_ne_zero hPos) _).ne' hZero
    · intro hRoot
      rw [hRoot] at hTop ⊢
      simpa [nodeOf] using hTop
  · rw [← mem_flipped, mergedArea_bit]
    by_cases hx : x ∈ flipped b bkt j <;> simp [hx]
  · rw [Descent.blocks, List.map_reverse] at hApart
    obtain ⟨hFirst, hRest⟩ := List.pairwise_cons.mp hApart
    refine List.pairwise_cons.mpr ⟨fun s hs => hFirst s (List.mem_reverse.mpr hs), ?_⟩
    exact (List.pairwise_reverse.mp hRest).imp Span.Apart.symm
  · rw [← hTiles]
    ext x
    simp [Span.mem_union, Descent.blocks]

end

/-! ## Outside the tree -/

/-- No call changes a bit outside the bytes of the tree. -/
theorem freeLoop_outside {x : Nat} : ∀ (bound node bkt : Nat) {b b' : BuddyArea} {h h' : Heap}
    {node' bkt' : Nat}, buddyFreeLoop bound node bkt b h = .ok (node', bkt', b', h') →
      ¬ x / 8 < b.treeSz → b'.bit x = b.bit x := by
  intro bound
  induction bound with
  | zero =>
    intro node bkt b b' h h' node' bkt' hOk _
    cases hOk
    rfl
  | succ bound ih =>
    intro node bkt b b' h h' node' bkt' hOk hOut
    unfold buddyFreeLoop at hOk
    split at hOk
    · cases hOk
      rfl
    · obtain ⟨b1, hFlip, hOk⟩ := bind_eq_ok.mp hOk
      obtain ⟨isSplit, -, hOk⟩ := bind_eq_ok.mp hOk
      have hSame := nodeParentFlip_sameFrame hFlip
      have hBit : b1.bit x = b.bit x := by
        unfold nodeParentFlip at hFlip
        dsimp only at hFlip
        split at hFlip
        · next hIn =>
          obtain rfl := Except.ok.inj hFlip
          apply bit_flip_other
          rintro rfl
          exact hOut hIn
        · cases hFlip
      cases isSplit with
      | true =>
        cases hOk
        exact hBit
      | false =>
        obtain ⟨h1, -, hOk⟩ := bind_eq_ok.mp hOk
        rw [ih _ _ hOk (hSame.2.1 ▸ hOut), hBit]

theorem buddyFree_outside {x ptr : Nat} {b b' : BuddyArea} {m m' : Mem}
    (hOk : buddyFree b m ptr = .ok (b', m')) (hOut : ¬ x / 8 < b.treeSz) :
    b'.bit x = b.bit x := by
  unfold buddyFree at hOk
  split at hOk
  · cases hOk
    rfl
  · split at hOk
    · cases hOk
      rfl
    · obtain ⟨page, -, hOk⟩ := bind_eq_ok.mp hOk
      obtain ⟨⟨node, bkt, b1, h1⟩, hLoop, hOk⟩ := bind_eq_ok.mp hOk
      obtain ⟨head, -, hOk⟩ := bind_eq_ok.mp hOk
      obtain ⟨h2, -, hOk⟩ := bind_eq_ok.mp hOk
      obtain ⟨m1, -, hOk⟩ := bind_eq_ok.mp hOk
      obtain ⟨rfl, -⟩ := Prod.mk.inj (Except.ok.inj hOk)
      rw [available_bit]
      exact freeLoop_outside _ _ _ hLoop hOut

/-- With a node at every address the siblings can be removed, whatever the lists are. -/
theorem removeBlocks_total (M : Nat) (b : BuddyArea) (l : List (Nat × Nat)) {h : Heap}
    (hTotal : ∀ x, (h x).isSome) :
    ∃ h', removeBlocks M b l h = .ok h' ∧ ∀ x, (h' x).isSome := by
  induction l generalizing h with
  | nil => exact ⟨h, rfl, hTotal⟩
  | cons kj l ih =>
    obtain ⟨c, hc⟩ := Option.isSome_iff_exists.mp
      (hTotal (vmmPhys2virt (b.blockAt M kj.1 kj.2)))
    have hRemove := (buddyRemove_eq_ok rfl).mpr ⟨c, hc, hTotal c.prev, hTotal c.next, rfl⟩
    obtain ⟨h', hRest, hTotal'⟩ := ih fun x =>
      (unlinked_sameNodes (hTotal (vmmPhys2virt (b.blockAt M kj.1 kj.2))) c ⟨0, 0⟩ x).trans
        (hTotal x)
    refine ⟨h', ?_, hTotal'⟩
    rw [removeBlocks, List.foldlM_cons, hRemove, ok_bind_eq]
    exact hRest

/-- One area with a record for every page of the address space. -/
def everyPage : List MemArea := [{ addr := 0, len := wordSize - 1, mapSz := 2 ^ 52 }]

theorem everyPage_record {p : Nat} (hPtr : p ≠ 0) (hWord : p < wordSize) :
    ∃ ref, phys2page everyPage p = some ref ∧ InMap everyPage ref := by
  have hLast : add64 0 (wordSize - 1) = wordSize - 1 := by decide
  refine ⟨⟨0, sub64 (pfn p) (pfn 0)⟩, ?_, ?_⟩
  · unfold phys2page everyPage phys2pageFrom
    rw [if_neg hPtr, hLast, if_neg (by omega)]
  · refine ⟨_, rfl, ?_⟩
    unfold pfn PGSIZE wordSize at *
    rw [Nat.zero_div, sub64_eq (by omega) (by unfold wordSize; omega)]
    dsimp only
    omega

/-- Freeing a block merges it as it should exactly when its parent lies in the tree. -/
theorem buddyFree_iff {M bkt j : Nat} {b : BuddyArea} (h : Extent M b) (hBkt : bkt ≤ M - 12)
    (hj : j < 2 ^ bkt) (hPtr : b.blockAt M bkt j ≠ 0) :
    (∃ removed top b', Merges M bkt j b removed top b') ↔ ParentCovered M bkt j := by
  have hGe := h.order_ge
  have hLe := h.order_le
  constructor
  · rintro ⟨removed, top, b', hMerges⟩
    cases bkt with
    | zero =>
      unfold ParentCovered
      omega
    | succ k =>
      rw [← parentCovered_iff h hBkt hj]
      by_contra hOut
      have hEnd := block_end_le (by omega : k + 1 ≤ M) hj
      have hSize := Nat.two_pow_pos (M - (k + 1))
      have hRoom := h.end_le
      obtain ⟨ref, hRef, hIn⟩ := everyPage_record hPtr (by unfold blockAt; omega)
      -- the call completes, and so leaves the bit of the parent alone
      let m : Mem := ⟨fun _ => some ⟨0, 0⟩, everyPage, fun _ => { order := k + 1 }⟩
      obtain ⟨h1, hRemove, hTotal⟩ := removeBlocks_total M b removed (h := m.heap) fun _ => rfl
      obtain ⟨h2, hPush, -⟩ := listPushback_total hTotal (b.headAt top.1)
        (vmmPhys2virt (b.blockAt M top.1 top.2))
      have hCall := hMerges.call m ref hRef hIn rfl
      rw [hRemove, ok_bind_eq, buddyPushback, hPush, ok_bind_eq,
        Mem.writePage_eq (m := { m with heap := h2 }) hIn, ok_bind_eq] at hCall
      have hSame := buddyFree_outside hCall hOut
      exact (hMerges.bits _).mpr ⟨0, by omega, by omega, (ancestor_zero k j).symm⟩ hSame
  · intro hCovered
    have hInt : bkt ≤ 30 := by
      unfold ParentCovered at hCovered
      omega
    refine ⟨_, _, _, merges_of_tree h hBkt hInt hj ?_ hPtr⟩
    intro hPos
    obtain ⟨k, rfl⟩ : ∃ k, bkt = k + 1 := ⟨bkt - 1, by omega⟩
    exact (parentCovered_iff h hBkt hj).mpr hCovered

/-- The last page of 512 KiB. -/
theorem buddyFree_sample : ∃ removed top b', Merges 19 7 127 (clearArea 19) removed top b' :=
  (buddyFree_iff (clearArea_extent (by omega) (by omega)) (by omega) (by omega) (by decide)).mpr
    (by decide)

/-- In an area of 8 TiB the parent of block 2 of level 4 has its bit behind the tree. -/
theorem parent_without_bit : Extent 43 (clearArea 43) ∧
    (clearArea 43).blockAt 43 4 2 = 0x10000100000 ∧
    buddyFree (clearArea 43) ⟨fun _ => some ⟨0, 0⟩, everyPage, fun _ => { order := 4 }⟩
      0x10000100000 = .error (.fault (.tree 1)) ∧
    ¬ ∃ removed top b', Merges 43 4 2 (clearArea 43) removed top b' := by
  have hExtent := clearArea_extent (M := 43) (by omega) (by omega)
  refine ⟨hExtent, by decide, stopOf_eq.mp (by decide +kernel), fun h => ?_⟩
  have hCovered := (buddyFree_iff hExtent (by omega) (by omega) (by decide)).mp h
  exact absurd hCovered (by decide)

end LunarOS
