import LunarOS.Buddy.Sound

/-!
# The tree walk (`buddy_tree_walk`)

The walk goes down one path from the root, left at a split node and right at any other, up
to the level above the requested one. `walkPath` is that path, read off the bits alone.
`treeWalk_walked` says what the walk does to a sound area: it sets the bits of the path,
pushes the left child of each node whose bit was clear, and returns the right child of the
last node exactly when the bit of that node was clear.
-/

namespace LunarOS

open Logic BuddyArea

/-- Index in its level of the node that the walk meets at each level. -/
def walkPath (b : BuddyArea) : Nat → Nat
  | 0 => 0
  | l + 1 =>
    if b.bit (nodeOf l (walkPath b l)) then 2 * walkPath b l else 2 * walkPath b l + 1

theorem walkPath_split {b : BuddyArea} {l : Nat} (h : b.bit (nodeOf l (walkPath b l)) = true) :
    walkPath b (l + 1) = 2 * walkPath b l := if_pos h

theorem walkPath_clear {b : BuddyArea} {l : Nat} (h : b.bit (nodeOf l (walkPath b l)) = false) :
    walkPath b (l + 1) = 2 * walkPath b l + 1 := by simp [walkPath, h]

theorem walkPath_lt (b : BuddyArea) (l : Nat) : walkPath b l < 2 ^ l := by
  induction l with
  | zero => simp [walkPath]
  | succ l ih =>
    rw [Nat.pow_succ]
    unfold walkPath
    split <;> omega

/-- The bit of the node that the walk meets at level `l`. -/
def pathBit (b : BuddyArea) (l : Nat) : Bool := b.bit (nodeOf l (walkPath b l))

/-- `page->order = bkt` on an existing record. -/
def Mem.withOrder (m : Mem) (ref : PageRef) (bkt : Nat) : Mem :=
  { m with page := fun r => if r = ref then { m.page ref with order := bkt } else m.page r }

theorem Mem.setOrder_eq {m : Mem} {ref : PageRef} (hIn : InMap m.physMem ref) {bkt : Nat}
    (hBkt : bkt < 256) : m.setOrder (some ref) bkt = .ok (m.withOrder ref bkt) := by
  unfold Mem.setOrder
  rw [Mem.writePage_eq hIn, Nat.mod_eq_of_lt hBkt]
  rfl

/-! ## What a push does to the list heads -/

theorem prevOf_linked {h : Heap} {lst entry prev x : Nat} (hne : x ≠ entry) :
    (linked h lst entry prev).prevOf x =
      if x = lst then (h.prevOf x).map fun _ => entry else h.prevOf x := by
  unfold Heap.prevOf linked
  rw [if_neg hne]
  cases h x <;> split <;> simp_all

namespace Sound

variable {M : Nat} {physMem : List MemArea} {b : BuddyArea} {h : Heap}

theorem prevOf_linked_same (hs : Sound M physMem b h) {k k' : Nat} (hk : k < M - 11)
    (j prev : Nat) :
    (LunarOS.linked h (b.headAt k) (b.entryAt M k' j) prev).prevOf (b.headAt k) =
      some (b.entryAt M k' j) := by
  obtain ⟨c, hc, -⟩ := hs.head k hk
  rw [prevOf_linked (hs.head_ne_entry hk k' j), if_pos rfl]
  simp [Heap.prevOf, hc]

theorem prevOf_linked_other (hs : Sound M physMem b h) {i k k' : Nat} (hi : i < M - 11)
    (hne : i ≠ k) (j prev : Nat) :
    (LunarOS.linked h (b.headAt k) (b.entryAt M k' j) prev).prevOf (b.headAt i) =
      h.prevOf (b.headAt i) := by
  rw [prevOf_linked (hs.head_ne_entry hi k' j), if_neg]
  intro heq
  exact hne (headAt_inj.mp heq)

end Sound

/-! ## One turn of the loop -/

section Turn

variable {M bkt n l e : Nat} {b : BuddyArea} {m : Mem}

theorem walkLoop_split (hs : Sound M m.physMem b m.heap) (hl : l + 1 ≤ M - 12) (he : e < 2 ^ l)
    (hBit : b.bit (nodeOf l e) = true) :
    buddyTreeWalkLoop bkt (n + 1) (nodeOf l e) (l + 1) b m =
      buddyTreeWalkLoop bkt n (nodeOf (l + 1) (2 * e)) (l + 1 + 1) b m := by
  have hLe := hs.shape.order_le
  rw [buddyTreeWalkLoop, hs.shape.isSplit_eq (by omega) he, hBit, nodeLeft_eq (by omega) he]
  rfl

theorem walkLoop_clear (hs : Sound M m.physMem b m.heap) (hl : l + 1 ≤ M - 12) (he : e < 2 ^ l)
    (hBit : b.bit (nodeOf l e) = false) {c : ListT} (hc : m.heap (b.headAt (l + 1)) = some c) :
    buddyTreeWalkLoop bkt (n + 1) (nodeOf l e) (l + 1) b m =
      let heap := linked m.heap (b.headAt (l + 1)) (b.entryAt M (l + 1) (2 * e)) c.prev
      if l + 1 = bkt then do
        let m ← { m with heap }.setOrder
          (phys2page m.physMem (b.blockAt M (l + 1) (2 * e + 1))) bkt
        pure (some (b.blockAt M (l + 1) (2 * e + 1)), b.split (nodeOf l e), m)
      else
        buddyTreeWalkLoop bkt n (nodeOf (l + 1) (2 * e + 1)) (l + 1 + 1) (b.split (nodeOf l e))
          { m with heap } := by
  have hLe := hs.shape.order_le
  have hSplit := hs.split (nodeOf l e)
  have hLeft : 2 * e < 2 ^ (l + 1) := by rw [Nat.pow_succ]; omega
  have hRight : 2 * e + 1 < 2 ^ (l + 1) := by rw [Nat.pow_succ]; omega
  rw [buddyTreeWalkLoop, hs.shape.isSplit_eq (by omega) he, hBit, ok_bind_eq,
    if_neg Bool.false_ne_true, hs.shape.setSplit_eq (by omega) he, ok_bind_eq,
    hSplit.shape.freelistAt_eq (by omega), ok_bind_eq, nodeLeft_eq (by omega) he,
    hSplit.shape.node2ptr_eq hl hLeft, nodeRight_eq (by omega) he]
  have hPush := hSplit.pushback (by omega : l + 1 < M - 11) hl hLeft hc
  simp only [split_headAt, split_blockAt, split_entryAt] at hPush ⊢
  rw [hPush, ok_bind_eq]
  by_cases hLast : l + 1 = bkt
  · subst hLast
    rw [if_pos rfl, if_pos rfl, hSplit.shape.node2ptr_eq hl hRight]
    rfl
  · rw [if_neg hLast, if_neg hLast]

end Turn

/-! ## The whole walk -/

/-- What the loop does from level `l` on; `b0` is the area at the start of the walk, `b` the
area when the loop reaches level `l`. -/
structure Walked (M bkt : Nat) (b0 : BuddyArea) (l : Nat) (b : BuddyArea) (m : Mem)
    (ret : Option Nat) (b' : BuddyArea) (m' : Mem) : Prop where
  sameFrame : SameFrame b b'
  available : b'.available = b.available
  physMem : m'.physMem = m.physMem
  sound : Sound M m.physMem b' m'.heap
  bit : ∀ x, b'.bit x = true ↔
    b.bit x = true ∨ ∃ i, l ≤ i ∧ i < bkt ∧ x = nodeOf i (walkPath b0 i)
  pushed : ∀ i, l ≤ i → i < bkt → pathBit b0 i = false →
    m'.heap.prevOf (b.headAt (i + 1)) = some (b.entryAt M (i + 1) (2 * walkPath b0 i))
  kept : ∀ k < M - 11, (∀ i, l ≤ i → i < bkt → pathBit b0 i = false → k ≠ i + 1) →
    m'.heap.prevOf (b.headAt k) = m.heap.prevOf (b.headAt k)
  found : l < bkt → pathBit b0 (bkt - 1) = false → ∃ ref,
    ret = some (b.blockAt M bkt (2 * walkPath b0 (bkt - 1) + 1)) ∧
    phys2page m.physMem (b.blockAt M bkt (2 * walkPath b0 (bkt - 1) + 1)) = some ref ∧
    InMap m.physMem ref ∧ m'.page = (m.withOrder ref bkt).page
  missed : (l < bkt → pathBit b0 (bkt - 1) = true) → ret = none ∧ m'.page = m.page

theorem exists_level_iff {p : Nat → Prop} {l bkt : Nat} (hl : l < bkt) :
    (∃ i, l ≤ i ∧ i < bkt ∧ p i) ↔ p l ∨ ∃ i, l + 1 ≤ i ∧ i < bkt ∧ p i := by
  constructor
  · rintro ⟨i, hi, hi', h⟩
    rcases Nat.eq_or_lt_of_le hi with rfl | hlt
    · exact Or.inl h
    · exact Or.inr ⟨i, hlt, hi', h⟩
  · rintro (h | ⟨i, hi, hi', h⟩)
    · exact ⟨l, Nat.le_refl l, hl, h⟩
    · exact ⟨i, Nat.le_of_succ_le hi, hi', h⟩

namespace Walked

variable {M bkt l : Nat} {b0 b b' : BuddyArea} {m m' : Mem} {ret : Option Nat}

/-- The loop ends at the requested level. -/
theorem stop (hs : Sound M m.physMem b m.heap) : Walked M bkt b0 bkt b m none b m := by
  have hEnd : ∀ i, bkt ≤ i → ¬ i < bkt := fun i hi => Nat.not_lt.mpr hi
  refine ⟨SameFrame.refl b, rfl, rfl, hs, ?_, ?_, fun _ _ _ => rfl, ?_, fun _ => ⟨rfl, rfl⟩⟩
  · intro x
    constructor
    · exact Or.inl
    · rintro (h | ⟨i, hi, hi', _⟩)
      · exact h
      · exact absurd hi' (hEnd i hi)
  · intro i hi hi'
    exact absurd hi' (hEnd i hi)
  · intro h
    exact absurd h (Nat.lt_irrefl bkt)

/-- A turn at a split node changes nothing. -/
theorem left (hBit : pathBit b0 l = true) (hl : l < bkt)
    (hSet : b.bit (nodeOf l (walkPath b0 l)) = true) (w : Walked M bkt b0 (l + 1) b m ret b' m') :
    Walked M bkt b0 l b m ret b' m' := by
  refine ⟨w.sameFrame, w.available, w.physMem, w.sound, ?_, ?_, ?_, ?_, ?_⟩
  · intro x
    rw [w.bit, exists_level_iff hl]
    constructor
    · rintro (h | h)
      · exact Or.inl h
      · exact Or.inr (Or.inr h)
    · rintro (h | h | h)
      · exact Or.inl h
      · exact Or.inl (h ▸ hSet)
      · exact Or.inr h
  · intro i hi hi' hClear
    have hne : l ≠ i := by
      rintro rfl
      rw [hBit] at hClear
      cases hClear
    exact w.pushed i (by omega) hi' hClear
  · intro k hk hOther
    exact w.kept k hk fun i hi => hOther i (by omega)
  · intro _ hClear
    have hne : l + 1 < bkt := by
      by_contra hge
      rw [show bkt - 1 = l by omega, hBit] at hClear
      cases hClear
    exact w.found hne hClear
  · intro hMissed
    exact w.missed fun _ => hMissed hl

section

variable {prev : Nat} (hs : Sound M m.physMem b m.heap) (hLevel : l + 1 ≤ M - 12)
  (hBit : pathBit b0 l = false)

include hs hLevel hBit

/-- A turn at a clear node above the last one splits it and pushes its left child. -/
theorem right (hl : l + 1 < bkt)
    (w : Walked M bkt b0 (l + 1) (b.split (nodeOf l (walkPath b0 l)))
      { m with heap := linked m.heap (b.headAt (l + 1))
                 (b.entryAt M (l + 1) (2 * walkPath b0 l)) prev } ret b' m') :
    Walked M bkt b0 l b m ret b' m' := by
  refine ⟨(split_sameFrame b _).trans w.sameFrame, w.available, w.physMem, w.sound, ?_, ?_, ?_,
    ?_, ?_⟩
  · intro x
    rw [w.bit, bit_split_iff, exists_level_iff (by omega : l < bkt), or_assoc]
  · intro i hi hi' hClear
    rcases Nat.eq_or_lt_of_le hi with rfl | hlt
    · have hKept := w.kept (l + 1) (by omega) (by omega)
      exact hKept.trans (hs.prevOf_linked_same (by omega) _ _)
    · exact w.pushed i hlt hi' hClear
  · intro k hk hOther
    have hne := hOther l (Nat.le_refl l) (by omega) hBit
    have hKept := w.kept k hk fun i hi => hOther i (by omega)
    exact hKept.trans (hs.prevOf_linked_other hk hne _ _)
  · intro _ hClear
    exact w.found hl hClear
  · intro hMissed
    exact w.missed fun _ => hMissed (by omega)

/-- The last turn at a clear node returns its right child, with the order in its record. -/
theorem found_here {ref : PageRef}
    (hRef : phys2page m.physMem (b.blockAt M (l + 1) (2 * walkPath b0 l + 1)) = some ref)
    (hIn : InMap m.physMem ref)
    (hs' : Sound M m.physMem (b.split (nodeOf l (walkPath b0 l)))
      (linked m.heap (b.headAt (l + 1)) (b.entryAt M (l + 1) (2 * walkPath b0 l)) prev)) :
    Walked M (l + 1) b0 l b m (some (b.blockAt M (l + 1) (2 * walkPath b0 l + 1)))
      (b.split (nodeOf l (walkPath b0 l)))
      (Mem.withOrder { m with heap := linked m.heap (b.headAt (l + 1))
                                (b.entryAt M (l + 1) (2 * walkPath b0 l)) prev } ref (l + 1)) := by
  refine ⟨split_sameFrame b _, rfl, rfl, hs', ?_, ?_, ?_, ?_, ?_⟩
  · intro x
    rw [bit_split_iff]
    constructor
    · rintro (h | h)
      · exact Or.inl h
      · exact Or.inr ⟨l, Nat.le_refl l, Nat.lt_succ_self l, h⟩
    · rintro (h | ⟨i, hi, hi', h⟩)
      · exact Or.inl h
      · obtain rfl : i = l := by omega
        exact Or.inr h
  · intro i hi hi' _
    obtain rfl : i = l := by omega
    exact hs.prevOf_linked_same (by omega) _ _
  · intro k hk hOther
    exact hs.prevOf_linked_other hk (hOther l (Nat.le_refl l) (Nat.lt_succ_self l) hBit) _ _
  · intro _ _
    exact ⟨ref, rfl, hRef, hIn, rfl⟩
  · intro hMissed
    have hSet := hMissed (Nat.lt_succ_self l)
    rw [Nat.add_sub_cancel, hBit] at hSet
    cases hSet

end

end Walked

theorem walkLoop_walked {M bkt : Nat} {b0 : BuddyArea} (hBkt : bkt ≤ M - 12) :
    ∀ (n l : Nat) (b : BuddyArea) (m : Mem), l + n = bkt → Sound M m.physMem b m.heap →
      (∀ k j, l ≤ k → j < 2 ^ k → b.bit (nodeOf k j) = b0.bit (nodeOf k j)) →
      ∃ ret b' m', buddyTreeWalkLoop bkt n (nodeOf l (walkPath b0 l)) (l + 1) b m =
          .ok (ret, b', m') ∧ Walked M bkt b0 l b m ret b' m' := by
  intro n
  induction n with
  | zero =>
    intro l b m hl hs _
    obtain rfl : l = bkt := hl
    exact ⟨none, b, m, rfl, .stop hs⟩
  | succ n ih =>
    intro l b m hl hs hAgree
    have hLevel : l + 1 ≤ M - 12 := by omega
    have hIndex := walkPath_lt b0 l
    have hBits : b.bit (nodeOf l (walkPath b0 l)) = pathBit b0 l :=
      hAgree l _ (Nat.le_refl _) hIndex
    cases hBit : pathBit b0 l with
    | true =>
      rw [hBit] at hBits
      obtain ⟨ret, b', m', hRun, w⟩ := ih (l + 1) b m (by omega) hs
        (fun k j hk => hAgree k j (by omega))
      rw [walkPath_split hBit] at hRun
      exact ⟨ret, b', m', (walkLoop_split hs hLevel hIndex hBits).trans hRun,
        w.left hBit (by omega) hBits⟩
    | false =>
      rw [hBit] at hBits
      obtain ⟨c, hc, -⟩ := hs.head (l + 1) (by omega)
      have hLeft : 2 * walkPath b0 l < 2 ^ (l + 1) := by rw [Nat.pow_succ]; omega
      have hRight : 2 * walkPath b0 l + 1 < 2 ^ (l + 1) := by rw [Nat.pow_succ]; omega
      -- the state after this turn
      let b1 := b.split (nodeOf l (walkPath b0 l))
      let heap1 := linked m.heap (b.headAt (l + 1))
        (b.entryAt M (l + 1) (2 * walkPath b0 l)) c.prev
      have hs1 : Sound M m.physMem b1 heap1 :=
        (hs.linked hLevel hLeft c.prev).split (nodeOf l (walkPath b0 l))
      rw [walkLoop_clear hs hLevel hIndex hBits hc]
      dsimp only
      by_cases hLast : l + 1 = bkt
      · subst hLast
        obtain ⟨ref, hRef, hIn⟩ := hs.record hLevel hRight
        have hByte : l + 1 < 256 := by
          have := hs.shape.order_le
          omega
        have hOrder : ({ m with heap := heap1 } : Mem).setOrder (some ref) (l + 1) =
            .ok (({ m with heap := heap1 } : Mem).withOrder ref (l + 1)) :=
          Mem.setOrder_eq (m := { m with heap := heap1 }) hIn hByte
        rw [if_pos rfl, hRef, hOrder]
        exact ⟨_, _, _, rfl, .found_here hs hLevel hBit hRef hIn hs1⟩
      · have hAgree1 : ∀ k j, l + 1 ≤ k → j < 2 ^ k →
            b1.bit (nodeOf k j) = b0.bit (nodeOf k j) := by
          intro k j hk hj
          rw [bit_split_level b hIndex hj (by omega)]
          exact hAgree k j (by omega) hj
        obtain ⟨ret, b', m', hRun, w⟩ :=
          ih (l + 1) b1 { m with heap := heap1 } (by omega) hs1 hAgree1
        rw [walkPath_clear hBit] at hRun
        rw [if_neg hLast]
        exact ⟨ret, b', m', hRun, w.right hs hLevel hBit (by omega)⟩

/-- `buddy_tree_walk` on a sound area. -/
theorem treeWalk_walked {M bkt : Nat} {b : BuddyArea} {m : Mem} (hBkt : bkt ≤ M - 12)
    (hs : Sound M m.physMem b m.heap) :
    ∃ ret b' m', buddyTreeWalk b bkt m = .ok (ret, b', m') ∧ Walked M bkt b 0 b m ret b' m' :=
  walkLoop_walked hBkt bkt 0 b m (by omega) hs fun _ _ _ _ => rfl

end LunarOS
