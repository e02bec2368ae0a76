import LunarOS.Buddy.Walk
import LunarOS.Logic.Blocks

/-!
# One tree walk on any tree

`Walk` is about areas whose lists are sound; here the bits of the tree are arbitrary and nothing
is asked of the lists. `walkLoop_eq` gives the walk as a sequence of `list_pushback` calls on
blocks that the bits alone determine; `treeWalk_iff` says that they split the arena as they
should exactly when the walk stays inside the bytes that `buddy_area_init` has allocated for the
tree. With `max` from `2^43` on the count of the `int` shift `1 << buddy_max_bucket(b)` wraps,
and it may leave them.
-/

namespace LunarOS

open Logic BuddyArea

/-! ## Which nodes lie in the tree -/

namespace Extent

variable {M : Nat} {b : BuddyArea}

theorem inTree_low (h : Extent M b) (hM : M ≤ 42) {k j : Nat} (hk : k ≤ M - 12)
    (hj : j < 2 ^ k) : nodeOf k j / 8 < b.treeSz := by
  have hGe := h.order_ge
  have hNode := nodeOf_lt hj
  have hPow : 2 ^ (k + 1) ≤ 2 ^ (M - 11) := Nat.pow_le_pow_right (by omega) (by omega)
  rw [h.treeSz_eq]
  unfold intShl
  split
  · next hLast =>
    have hSmall : 2 ^ (M - 11) ≤ 2 ^ 31 := Nat.pow_le_pow_right (by omega) (by omega)
    unfold wordSize
    omega
  · next hOther =>
    rw [Nat.mod_eq_of_lt (by omega)]
    omega

theorem inTree_high (h : Extent M b) (hM : 43 ≤ M) (n : Nat) :
    n / 8 < b.treeSz ↔ n < 2 ^ (M - 40) := by
  have hLe := h.order_le
  have hCount : (M - 11) % 32 = M - 43 := by omega
  have hBits : 2 ^ (M - 40) = 2 ^ (M - 43) * 8 := by
    rw [show M - 40 = M - 43 + 3 by omega, Nat.pow_add]
  rw [h.treeSz_eq]
  unfold intShl
  rw [hCount, if_neg (by omega), hBits]
  omega

end Extent

theorem nodeIsSplit_eq {b : BuddyArea} {n : Nat} (hIn : n / 8 < b.treeSz) :
    nodeIsSplit b n = .ok (b.bit n) := if_pos hIn

theorem nodeSetSplit_eq {b : BuddyArea} {n : Nat} (hIn : n / 8 < b.treeSz) :
    nodeSetSplit b n = .ok (b.split n) := if_pos hIn

/-! ## The path -/

theorem walkPath_zero_iff {b : BuddyArea} {l : Nat} :
    walkPath b l = 0 ↔ ∀ i < l, b.bit (nodeOf i 0) = true := by
  induction l with
  | zero => simp [walkPath]
  | succ l ih =>
    constructor
    · intro hZero i hi
      have hBit : b.bit (nodeOf l (walkPath b l)) = true := by
        by_contra hClear
        rw [walkPath_clear (by simpa using hClear)] at hZero
        omega
      rw [walkPath_split hBit] at hZero
      have hLeft : walkPath b l = 0 := by omega
      rcases Nat.eq_or_lt_of_le (Nat.le_of_lt_succ hi) with rfl | hlt
      · rwa [hLeft] at hBit
      · exact ih.mp hLeft i hlt
    · intro hAll
      have hLeft := ih.mpr fun i hi => hAll i (by omega)
      rw [walkPath_split (by rw [hLeft]; exact hAll l (by omega)), hLeft]

/-- The path stays in the tree up to level `bkt`. -/
def PathInTree (b : BuddyArea) (bkt : Nat) : Prop :=
  ∀ i < bkt, nodeOf i (walkPath b i) / 8 < b.treeSz

/-- Where the bytes of the tree end for an area of `2^M` bytes. -/
def TreeCovers (M bkt : Nat) (b : BuddyArea) : Prop :=
  M ≤ 42 ∨ bkt ≤ M - 40 ∨ bkt = M - 39 ∧ ∀ i < M - 40, b.bit (nodeOf i 0) = true

theorem pathInTree_iff {M bkt : Nat} {b : BuddyArea} (h : Extent M b) (hBkt : bkt < M - 11) :
    PathInTree b bkt ↔ TreeCovers M bkt b := by
  have hGe := h.order_ge
  rcases Nat.lt_or_ge 42 M with hM | hM
  · have hPos := Nat.two_pow_pos (M - 40)
    have hTwice : 2 ^ (M - 39) = 2 ^ (M - 40) * 2 := by
      rw [show M - 39 = M - 40 + 1 by omega, Nat.pow_succ]
    constructor
    · intro hPath
      have hTop : bkt ≤ M - 39 := by
        by_contra hDeep
        have hIn := (h.inTree_high hM _).mp (hPath (M - 39) (by omega))
        unfold nodeOf at hIn
        omega
      refine Or.inr ?_
      by_cases hEdge : bkt = M - 39
      · have hIn := (h.inTree_high hM _).mp (hPath (M - 40) (by omega))
        have hLeft : walkPath b (M - 40) = 0 := by
          unfold nodeOf at hIn
          omega
        exact Or.inr ⟨hEdge, walkPath_zero_iff.mp hLeft⟩
      · exact Or.inl (by omega)
    · intro hCovers i hi
      rw [h.inTree_high hM]
      have hLow : ∀ l < M - 40, nodeOf l (walkPath b l) < 2 ^ (M - 40) := by
        intro l hl
        have hNode := nodeOf_lt (walkPath_lt b l)
        have hPow : 2 ^ (l + 1) ≤ 2 ^ (M - 40) := Nat.pow_le_pow_right (by omega) hl
        omega
      rcases hCovers with hSmall | hUp | ⟨hEdge, hBits⟩
      · omega
      · exact hLow i (by omega)
      · rcases Nat.lt_or_ge i (M - 40) with hlt | hge
        · exact hLow i hlt
        · obtain rfl : i = M - 40 := by omega
          rw [walkPath_zero_iff.mpr hBits]
          unfold nodeOf
          omega
  · constructor
    · exact fun _ => Or.inl hM
    · exact fun _ i hi => h.inTree_low hM (by omega) (walkPath_lt b i)

/-! ## What the walk pushes -/

/-- The left child of each unsplit node that the path meets on the levels from `l` on. -/
def pushesFrom (b : BuddyArea) : Nat → Nat → List (Nat × Nat)
  | _, 0 => []
  | l, n + 1 =>
    if pathBit b l then pushesFrom b (l + 1) n
    else (l + 1, 2 * walkPath b l) :: pushesFrom b (l + 1) n

/-- The right child of the last node of the path, if that one was unsplit. -/
def returned (b : BuddyArea) (bkt : Nat) : Option Nat :=
  if pathBit b (bkt - 1) then none else some (walkPath b bkt)

/-- The node whose bit a push sets. -/
def parentOf (kj : Nat × Nat) : Nat := nodeOf (kj.1 - 1) (kj.2 / 2)

theorem pushesFrom_split {b : BuddyArea} {l : Nat} (h : pathBit b l = true) (n : Nat) :
    pushesFrom b l (n + 1) = pushesFrom b (l + 1) n := if_pos h

theorem pushesFrom_clear {b : BuddyArea} {l : Nat} (h : pathBit b l = false) (n : Nat) :
    pushesFrom b l (n + 1) = (l + 1, 2 * walkPath b l) :: pushesFrom b (l + 1) n :=
  if_neg (by simp [h])

/-- The path is a descent that peels off the pushed blocks. -/
theorem pushes_descent (b : BuddyArea) (l n : Nat) :
    Descent l (walkPath b l) (pushesFrom b l n) (l + n) (walkPath b (l + n)) := by
  induction n generalizing l with
  | zero => exact .here _ _
  | succ n ih =>
    have hDown := ih (l + 1)
    rw [show l + 1 + n = l + (n + 1) by omega] at hDown
    cases hBit : pathBit b l with
    | true =>
      rw [pushesFrom_split hBit]
      have hPass := hDown.pass
      rw [walkPath_split hBit] at hPass
      rwa [Nat.mul_div_cancel_left _ (by omega)] at hPass
    | false =>
      rw [pushesFrom_clear hBit]
      have hPeel := hDown.peel
      have hSibling : (2 * walkPath b l + 1) ^^^ 1 = 2 * walkPath b l := by
        rw [xor_one_eq, if_neg (by omega)]
        omega
      rw [walkPath_clear hBit, hSibling] at hPeel
      rwa [show (2 * walkPath b l + 1) / 2 = walkPath b l by omega] at hPeel

/-- Only the left children of unsplit nodes are pushed. -/
theorem pushes_clear {b : BuddyArea} {l n : Nat} :
    ∀ kj ∈ pushesFrom b l n, b.bit (parentOf kj) = false := by
  induction n generalizing l with
  | zero => simp [pushesFrom]
  | succ n ih =>
    cases hBit : pathBit b l with
    | true =>
      rw [pushesFrom_split hBit]
      exact ih
    | false =>
      rw [pushesFrom_clear hBit]
      intro kj hkj
      rcases List.mem_cons.mp hkj with rfl | hkj
      · unfold parentOf
        rw [Nat.add_sub_cancel, Nat.mul_div_cancel_left _ (by omega)]
        exact hBit
      · exact ih kj hkj

/-! ## The walk as calls -/

/-- The calls of `buddy_pushback` on the blocks of a list. -/
def pushBlocks (M : Nat) (b : BuddyArea) (l : List (Nat × Nat)) (h : Heap) : Outcome Heap :=
  l.foldlM (fun h kj => buddyPushback h (b.headAt kj.1) (b.blockAt M kj.1 kj.2)) h

/-- `node_set_split` on the parents of the blocks of a list. -/
def setParents (b : BuddyArea) (l : List (Nat × Nat)) : BuddyArea :=
  l.foldl (fun b kj => b.split (parentOf kj)) b

/-- The end of the walk: the order of the returned block is recorded. -/
def serve (M bkt : Nat) (b : BuddyArea) (m : Mem) :
    Option Nat → Outcome (Option Nat × BuddyArea × Mem)
  | none => .ok (none, b, m)
  | some j => do
    let m ← m.setOrder (phys2page m.physMem (b.blockAt M bkt j)) bkt
    pure (some (b.blockAt M bkt j), b, m)

theorem setParents_cons (b : BuddyArea) (kj : Nat × Nat) (l : List (Nat × Nat)) :
    setParents b (kj :: l) = setParents (b.split (parentOf kj)) l := rfl

theorem setParents_sameFrame (b : BuddyArea) (l : List (Nat × Nat)) :
    SameFrame b (setParents b l) ∧ (setParents b l).available = b.available := by
  induction l generalizing b with
  | nil => exact ⟨SameFrame.refl b, rfl⟩
  | cons kj l ih =>
    obtain ⟨hFrame, hAvailable⟩ := ih (b.split (parentOf kj))
    rw [setParents_cons]
    exact ⟨(split_sameFrame b _).trans hFrame, hAvailable⟩

theorem setParents_bit (b : BuddyArea) (l : List (Nat × Nat)) (x : Nat) :
    (setParents b l).bit x = true ↔ b.bit x = true ∨ ∃ kj ∈ l, x = parentOf kj := by
  induction l generalizing b with
  | nil => simp [setParents]
  | cons kj l ih =>
    rw [setParents_cons, ih, bit_split_iff]
    simp only [List.mem_cons, exists_eq_or_imp, or_assoc]

/-- The walk from level `l` on: it pushes the blocks, sets the bits of their parents, and returns
what is left. -/
theorem walkLoop_eq {M bkt : Nat} {b0 : BuddyArea} (h0 : Extent M b0) (hBkt : bkt < M - 11)
    (hInt : bkt ≤ 30) (hTree : PathInTree b0 bkt) :
    ∀ (n l : Nat) (b : BuddyArea) (m : Mem), l + n = bkt → SameFrame b0 b →
      (∀ k j, l ≤ k → j < 2 ^ k → b.bit (nodeOf k j) = b0.bit (nodeOf k j)) →
      (n = 0 → returned b0 bkt = none) →
      buddyTreeWalkLoop bkt n (nodeOf l (walkPath b0 l)) (l + 1) b m =
        pushBlocks M b0 (pushesFrom b0 l n) m.heap >>= fun heap =>
          serve M bkt (setParents b (pushesFrom b0 l n)) { m with heap } (returned b0 bkt) := by
  intro n
  induction n with
  | zero =>
    intro l b m _ _ _ hNone
    rw [hNone rfl]
    rfl
  | succ n ih =>
    intro l b m hl hFrame hAgree _
    have h := h0.congr hFrame
    have hIndex := walkPath_lt b0 l
    have hIn : nodeOf l (walkPath b0 l) / 8 < b.treeSz := hFrame.2.1 ▸ hTree l (by omega)
    have hBits : b.bit (nodeOf l (walkPath b0 l)) = pathBit b0 l :=
      hAgree l _ (Nat.le_refl l) hIndex
    rw [buddyTreeWalkLoop, nodeIsSplit_eq hIn, hBits, ok_bind_eq]
    cases hBit : pathBit b0 l with
    | true =>
      have hNext := ih (l + 1) b m (by omega) hFrame (fun k j hk => hAgree k j (by omega)) (by
        intro hn
        unfold returned
        rw [show bkt - 1 = l by omega, if_pos hBit])
      rw [if_pos rfl, nodeLeft_eq (by omega) hIndex, pushesFrom_split hBit, ← hNext,
        walkPath_split hBit]
    | false =>
      have hLeft : 2 * walkPath b0 l < 2 ^ (l + 1) := by rw [Nat.pow_succ]; omega
      have hRight : 2 * walkPath b0 l + 1 < 2 ^ (l + 1) := by rw [Nat.pow_succ]; omega
      have hFrame' := hFrame.trans (split_sameFrame b (nodeOf l (walkPath b0 l)))
      have h' := h0.congr hFrame'
      have hParent : parentOf (l + 1, 2 * walkPath b0 l) = nodeOf l (walkPath b0 l) := by
        unfold parentOf
        rw [Nat.add_sub_cancel, Nat.mul_div_cancel_left _ (by omega)]
      rw [if_neg Bool.false_ne_true, nodeSetSplit_eq hIn, ok_bind_eq, pushesFrom_clear hBit,
        setParents_cons, hParent, pushBlocks, List.foldlM_cons, bind_assoc,
        h'.freelistAt_eq (by omega), ok_bind_eq, nodeLeft_eq (by omega) hIndex,
        h'.node2ptr_eq (by omega) (by omega) hLeft, hFrame'.headAt_eq, hFrame'.blockAt_eq]
      congr 1
      funext heap
      by_cases hLast : l + 1 = bkt
      · have hEnd : n = 0 := by omega
        subst hEnd
        have hReturned : returned b0 bkt = some (2 * walkPath b0 l + 1) := by
          unfold returned
          rw [show bkt - 1 = l by omega, if_neg (by simp [hBit]), ← hLast, walkPath_clear hBit]
        rw [if_pos hLast, nodeRight_eq (by omega) hIndex, hReturned]
        subst hLast
        rw [h'.node2ptr_eq (by omega) (by omega) hRight]
        rfl
      · rw [if_neg hLast, nodeRight_eq (by omega) hIndex, ← walkPath_clear hBit]
        refine ih (l + 1) _ { m with heap } (by omega) hFrame' ?_ (by omega)
        intro k j hk hj
        rw [bit_split_level b hIndex hj (by omega)]
        exact hAgree k j (by omega) hj

/-! ## What a walk should do -/

/-- The walk pushes the blocks `pushed`, returns block `ret` of level `bkt` and leaves the area
`b'`. -/
structure Splits (M bkt : Nat) (b : BuddyArea) (pushed : List (Nat × Nat)) (ret : Option Nat)
    (b' : BuddyArea) : Prop where
  call : ∀ m, buddyTreeWalk b bkt m =
    pushBlocks M b pushed m.heap >>= fun heap => serve M bkt b' { m with heap } ret
  inTree : ∀ m byte, buddyTreeWalk b bkt m ≠ .error (.fault (.tree byte))
  inside : (∀ kj ∈ pushed, 1 ≤ kj.1 ∧ kj.1 ≤ bkt ∧ kj.2 < 2 ^ kj.1) ∧ ∀ j ∈ ret, j < 2 ^ bkt
  apart : (Descent.blocks b.base M (ret.toList.map (bkt, ·) ++ pushed)).Pairwise Span.Apart
  clear : ∀ kj ∈ pushed, b.bit (parentOf kj) = false
  bits : ∀ x, b'.bit x = true ↔ b.bit x = true ∨ ∃ kj ∈ pushed, x = parentOf kj
  frame : SameFrame b b' ∧ b'.available = b.available
  tiles : ∀ l < bkt, (∀ i < l, b.bit (nodeOf i 0) = true) → b.bit (nodeOf l 0) = false →
    (∀ k j, l < k → k < bkt → j < 2 ^ (k - l) → b.bit (nodeOf k j) = false) →
      Span.union (Descent.blocks b.base M (ret.toList.map (bkt, ·) ++ pushed)) =
        (block b.base M l 0).bytes

/-- Pushing only follows links. -/
theorem pushBlocks_error {M : Nat} {b : BuddyArea} {l : List (Nat × Nat)} {h : Heap} {e : Stop}
    (hErr : pushBlocks M b l h = .error e) : ∃ a, e = .fault (.list a) := by
  induction l generalizing h with
  | nil => cases hErr
  | cons kj l ih =>
    unfold pushBlocks at hErr
    rw [List.foldlM_cons] at hErr
    rcases bind_eq_error.mp hErr with hErr | ⟨h', -, hErr⟩
    · exact listPushback_error hErr
    · exact ih hErr

theorem serve_error {M bkt : Nat} {b : BuddyArea} {m : Mem} {ret : Option Nat} {e : Stop}
    (hErr : serve M bkt b m ret = .error e) : e = .fault .page := by
  cases ret with
  | none => cases hErr
  | some j =>
    rcases bind_eq_error.mp hErr with hErr | ⟨m', -, hErr⟩
    · unfold Mem.setOrder Mem.writePage at hErr
      split at hErr
      · cases hErr
        rfl
      · split at hErr <;> cases hErr
        rfl
    · cases hErr

/-- The first unsplit node of the path, with nothing split below it, is peeled off level by level
from there on. -/
theorem pushes_length {b : BuddyArea} {bkt l : Nat}
    (hClear : ∀ k j, l ≤ k → k < bkt → j < 2 ^ (k - l) → b.bit (nodeOf k j) = false) :
    ∀ n i, l ≤ i → i + n ≤ bkt → walkPath b i < 2 ^ (i - l) →
      (pushesFrom b i n).length = n ∧ walkPath b (i + n) < 2 ^ (i + n - l) := by
  intro n
  induction n with
  | zero => exact fun i _ _ hPath => ⟨rfl, hPath⟩
  | succ n ih =>
    intro i hi hEnd hPath
    have hBit : pathBit b i = false := hClear i _ hi (by omega) hPath
    have hNext : walkPath b (i + 1) < 2 ^ (i + 1 - l) := by
      rw [walkPath_clear hBit, show i + 1 - l = i - l + 1 by omega, Nat.pow_succ]
      omega
    obtain ⟨hLength, hLast⟩ := ih (i + 1) (by omega) (by omega) hNext
    rw [pushesFrom_clear hBit, List.length_cons, hLength]
    rw [show i + 1 + n = i + (n + 1) by omega] at hLast
    exact ⟨rfl, hLast⟩

/-- Nothing is pushed above the first unsplit node. -/
theorem pushes_skip {b : BuddyArea} {l : Nat} (hSet : ∀ i < l, b.bit (nodeOf i 0) = true)
    (n : Nat) : pushesFrom b 0 (l + n) = pushesFrom b l n := by
  have hSkip : ∀ t ≤ l, pushesFrom b 0 (l + n) = pushesFrom b t (l - t + n) := by
    intro t
    induction t with
    | zero => simp
    | succ t ih =>
      intro ht
      have hLeft : walkPath b t = 0 := walkPath_zero_iff.mpr fun i hi => hSet i (by omega)
      have hBit : pathBit b t = true := by
        unfold pathBit
        rw [hLeft]
        exact hSet t (by omega)
      rw [ih (by omega), show l - t + n = l - (t + 1) + n + 1 by omega, pushesFrom_split hBit]
  simpa using hSkip l (Nat.le_refl l)

theorem splits_of_path {M bkt : Nat} {b : BuddyArea} (h : Extent M b) (hOne : 1 ≤ bkt)
    (hBkt : bkt < M - 11) (hInt : bkt ≤ 30) (hTree : PathInTree b bkt) :
    Splits M bkt b (pushesFrom b 0 bkt) (returned b bkt) (setParents b (pushesFrom b 0 bkt)) := by
  have hCall : ∀ m, buddyTreeWalk b bkt m = pushBlocks M b (pushesFrom b 0 bkt) m.heap >>=
      fun heap => serve M bkt (setParents b (pushesFrom b 0 bkt)) { m with heap }
        (returned b bkt) := fun m =>
    walkLoop_eq h hBkt hInt hTree bkt 0 b m (by omega) (SameFrame.refl b) (fun _ _ _ _ => rfl)
      (by omega)
  have hDescent := pushes_descent b 0 bkt
  rw [Nat.zero_add] at hDescent
  have hEnd := walkPath_lt b bkt
  have hBlocks : ∀ kj ∈ (returned b bkt).toList.map (bkt, ·) ++ pushesFrom b 0 bkt,
      kj ∈ (bkt, walkPath b bkt) :: pushesFrom b 0 bkt := by
    intro kj hkj
    unfold returned at hkj
    split at hkj
    · exact List.mem_cons_of_mem _ (by simpa using hkj)
    · simpa using hkj
  have hApart := hDescent.apart b.base (by omega : bkt ≤ M)
  refine ⟨hCall, ?_, ⟨?_, ?_⟩, ?_, pushes_clear, setParents_bit b _, setParents_sameFrame b _, ?_⟩
  · intro m byte hFault
    rw [hCall] at hFault
    rcases bind_eq_error.mp hFault with hErr | ⟨heap, -, hErr⟩
    · obtain ⟨a, ha⟩ := pushBlocks_error hErr
      cases ha
    · cases serve_error hErr
  · intro kj hkj
    have hLevels := hDescent.levels kj hkj
    exact ⟨by omega, hLevels.2, (hDescent.index_lt hEnd).2 kj hkj⟩
  · intro j hj
    unfold returned at hj
    split at hj
    · cases hj
    · cases hj
      exact hEnd
  · unfold returned
    split
    · exact (List.pairwise_cons.mp hApart).2
    · exact hApart
  · intro l hl hSet hFirst hBelow
    have hLeft : walkPath b l = 0 := walkPath_zero_iff.mpr hSet
    have hClear : ∀ k j, l ≤ k → k < bkt → j < 2 ^ (k - l) → b.bit (nodeOf k j) = false := by
      intro k j hk hk' hj
      rcases Nat.eq_or_lt_of_le hk with rfl | hlt
      · obtain rfl : j = 0 := by simpa using hj
        exact hFirst
      · exact hBelow k j hlt hk' hj
    obtain ⟨hLength, -⟩ := pushes_length hClear (bkt - l) l (Nat.le_refl l) (by omega)
      (by simp [hLeft])
    obtain ⟨-, hLastPath⟩ := pushes_length hClear (bkt - 1 - l) l (Nat.le_refl l)
      (by omega) (by simp [hLeft])
    rw [show l + (bkt - 1 - l) = bkt - 1 by omega] at hLastPath
    have hReturned : returned b bkt = some (walkPath b bkt) := by
      unfold returned
      rw [if_neg]
      have hLast : pathBit b (bkt - 1) = false :=
        hClear (bkt - 1) _ (by omega) (by omega) hLastPath
      simp [hLast]
    have hPushed := pushes_skip hSet (bkt - l)
    rw [Nat.add_sub_cancel' (by omega)] at hPushed
    have hDown := pushes_descent b l (bkt - l)
    rw [Nat.add_sub_cancel' (by omega), hLeft] at hDown
    rw [hReturned, hPushed]
    exact hDown.tiles _ (by omega) (by omega)

/-! ## Outside the tree -/

/-- With a node at every address the walk gets as far as the tree does. -/
theorem walkLoop_fault {M bkt L : Nat} {b0 : BuddyArea} (h0 : Extent M b0) (hBkt : bkt < M - 11)
    (hL : L < bkt) (hInt : L ≤ 31) (hOut : ¬ nodeOf L (walkPath b0 L) / 8 < b0.treeSz) :
    ∀ (n l : Nat) (b : BuddyArea) (m : Mem), l + n = bkt → l ≤ L → SameFrame b0 b →
      (∀ k j, l ≤ k → j < 2 ^ k → b.bit (nodeOf k j) = b0.bit (nodeOf k j)) →
      (∀ x, (m.heap x).isSome) → ∃ byte,
        buddyTreeWalkLoop bkt n (nodeOf l (walkPath b0 l)) (l + 1) b m =
          .error (.fault (.tree byte)) := by
  intro n
  induction n with
  | zero =>
    intro l b m hl
    omega
  | succ n ih =>
    intro l b m hl hle hFrame hAgree hTotal
    have hIndex := walkPath_lt b0 l
    have hSz : b.treeSz = b0.treeSz := hFrame.2.1
    rw [buddyTreeWalkLoop]
    by_cases hIn : nodeOf l (walkPath b0 l) / 8 < b.treeSz
    · have hlt : l < L := by
        rcases Nat.eq_or_lt_of_le hle with rfl | hlt
        · exact absurd (hSz ▸ hIn) hOut
        · exact hlt
      have hBits : b.bit (nodeOf l (walkPath b0 l)) = pathBit b0 l :=
        hAgree l _ (Nat.le_refl l) hIndex
      rw [nodeIsSplit_eq hIn, hBits, ok_bind_eq]
      cases hBit : pathBit b0 l with
      | true =>
        rw [if_pos rfl, nodeLeft_eq (by omega) hIndex, ← walkPath_split hBit]
        exact ih (l + 1) b m (by omega) hlt hFrame (fun k j hk => hAgree k j (by omega)) hTotal
      | false =>
        have hFrame' := hFrame.trans (split_sameFrame b (nodeOf l (walkPath b0 l)))
        have h' := h0.congr hFrame'
        obtain ⟨heap, hPush, hTotal'⟩ := listPushback_total hTotal
          ((b.split (nodeOf l (walkPath b0 l))).headAt (l + 1)) (vmmPhys2virt
            (node2ptr (b.split (nodeOf l (walkPath b0 l)))
              (nodeLeft (nodeOf l (walkPath b0 l))) (l + 1)))
        rw [if_neg Bool.false_ne_true, nodeSetSplit_eq hIn, ok_bind_eq,
          h'.freelistAt_eq (by omega), ok_bind_eq, buddyPushback, hPush, ok_bind_eq,
          if_neg (by omega), nodeRight_eq (by omega) hIndex, ← walkPath_clear hBit]
        refine ih (l + 1) _ { m with heap } (by omega) hlt hFrame' ?_ hTotal'
        intro k j hk hj
        rw [bit_split_level b hIndex hj (by omega)]
        exact hAgree k j (by omega) hj
    · refine ⟨nodeOf l (walkPath b0 l) / 8, ?_⟩
      unfold nodeIsSplit
      rw [if_neg hIn]
      rfl

/-- The walk splits the arena exactly when the tree covers its path. -/
theorem treeWalk_iff {M bkt : Nat} {b : BuddyArea} (h : Extent M b) (hOne : 1 ≤ bkt)
    (hBkt : bkt < M - 11) :
    (∃ pushed ret b', Splits M bkt b pushed ret b') ↔ TreeCovers M bkt b := by
  have hLe := h.order_le
  rw [← pathInTree_iff h hBkt]
  constructor
  · rintro ⟨pushed, ret, b', hSplits⟩
    intro i hi
    by_contra hOut
    have hM : 43 ≤ M := by
      by_contra hSmall
      exact hOut (h.inTree_low (by omega) (by omega) (walkPath_lt b i))
    -- the first level outside is among those that fit an `int`
    obtain ⟨L, hL, hInt, hOut⟩ : ∃ L < bkt, L ≤ 31 ∧ ¬ nodeOf L (walkPath b L) / 8 < b.treeSz := by
      by_cases hInt : i ≤ 31
      · exact ⟨i, hi, hInt, hOut⟩
      · refine ⟨31, by omega, Nat.le_refl _, ?_⟩
        rw [h.inTree_high hM]
        have hPow : 2 ^ (M - 40) ≤ 2 ^ 30 := Nat.pow_le_pow_right (by omega) (by omega)
        unfold nodeOf
        omega
    obtain ⟨byte, hFault⟩ := walkLoop_fault h hBkt hL hInt hOut bkt 0 b
      ⟨fun _ => some ⟨0, 0⟩, [], fun _ => {}⟩ (by omega) (by omega) (SameFrame.refl b)
      (fun _ _ _ _ => rfl) (fun _ => rfl)
    exact hSplits.inTree _ byte hFault
  · intro hTree
    have hInt : bkt ≤ 30 := by
      rcases (pathInTree_iff h hBkt).mp hTree with hM | hUp | ⟨hEdge, -⟩ <;> omega
    exact ⟨_, _, _, splits_of_path h hOne hBkt hInt hTree⟩

/-- An area of `2^M` bytes at 1 MiB with a clear tree. -/
def clearArea (M : Nat) : BuddyArea where
  base := 0x100000
  tree := fun _ => 0
  treeSz := intShl (M - 11)
  freelist := 0xffff800000110000
  min := PGSIZE
  max := 2 ^ M
  available := 2 ^ M

theorem clearArea_extent {M : Nat} (hGe : 12 ≤ M) (hLe : M ≤ 62) : Extent M (clearArea M) := by
  have hPow : 2 ^ M ≤ 2 ^ 62 := Nat.pow_le_pow_right (by omega) hLe
  refine ⟨hGe, by omega, rfl, rfl, rfl, ?_⟩
  unfold clearArea wordSize
  dsimp only
  omega

/-- One page out of 512 KiB. -/
theorem treeWalk_sample : ∃ pushed ret b', Splits 19 7 (clearArea 19) pushed ret b' :=
  (treeWalk_iff (clearArea_extent (by omega) (by omega)) (by omega) (by omega)).mpr
    (Or.inl (by omega))

/-- An area of 8 TiB has a tree of one byte, and the walk to level 4 reads the next one. -/
theorem tree_too_small : Extent 43 (clearArea 43) ∧ (clearArea 43).treeSz = 1 ∧
    buddyTreeWalk (clearArea 43) 4 ⟨fun _ => some ⟨0, 0⟩, [], fun _ => {}⟩ =
      .error (.fault (.tree 1)) ∧
    ¬ ∃ pushed ret b', Splits 43 4 (clearArea 43) pushed ret b' := by
  have hFault : buddyTreeWalk (clearArea 43) 4 ⟨fun _ => some ⟨0, 0⟩, [], fun _ => {}⟩ =
      .error (.fault (.tree 1)) := stopOf_eq.mp (by decide +kernel)
  refine ⟨clearArea_extent (by omega) (by omega), rfl, hFault, ?_⟩
  rintro ⟨pushed, ret, b', hSplits⟩
  exact hSplits.inTree _ 1 hFault

end LunarOS
