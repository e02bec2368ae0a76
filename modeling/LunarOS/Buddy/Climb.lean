import LunarOS.Buddy.Sound

/-!
# Freeing (`buddy_free`)

The loop of `buddy_free` climbs from the freed node while the flipped bit of its parent is
clear, removing the sibling each time. On a sound area the level and the node number stay in
step, so everything it touches is a block of the arena; `Climbed` says where it stops, and
`buddyFree_ok` puts the whole call together.
-/

namespace LunarOS

open Logic BuddyArea

/-- The loop went from node `j` of level `k` up to node `j'` of level `k'`. -/
structure Climbed (M : Nat) (physMem : List MemArea) (k : Nat) (b : BuddyArea) (k' j' : Nat)
    (b' : BuddyArea) (h' : Heap) : Prop where
  level : k' ≤ k
  index : j' < 2 ^ k'
  sameFrame : SameFrame b b'
  available : b'.available = b.available
  sound : Sound M physMem b' h'

section Loop

variable {M : Nat} {physMem : List MemArea} {b : BuddyArea} {h : Heap} {bound k j : Nat}

/-- One turn of the loop below the root. -/
theorem freeLoop_turn (hSizes : Sizes M b) (hk : k + 1 ≤ M - 12) (hj : j < 2 ^ (k + 1)) :
    buddyFreeLoop (bound + 1) (nodeOf (k + 1) j) (k + 1) b h =
      if b.bit (nodeOf k (j / 2)) = false then
        .ok (nodeOf (k + 1) j, k + 1, b.flip (nodeOf k (j / 2)), h)
      else
        buddyRemove h (b.blockAt M (k + 1) (j ^^^ 1)) >>=
          buddyFreeLoop bound (nodeOf k (j / 2)) k (b.flip (nodeOf k (j / 2))) := by
  have hLe := hSizes.order_le
  have hNode : nodeOf (k + 1) j ≠ 0 := (nodeOf_pos (by omega : 0 < k + 1) j).ne'
  have hHalf : j / 2 < 2 ^ k := by rw [Nat.pow_succ] at hj; omega
  have hFlip := hSizes.congr (flip_sameFrame b (nodeOf k (j / 2)))
  rw [buddyFreeLoop, if_neg hNode, hSizes.parentFlip_eq hk hj, ok_bind_eq,
    nodeParent_eq (by omega) hj, hFlip.isSplit_eq (by omega) hHalf, ok_bind_eq, bit_flip_same,
    nodeSibling_eq (by omega) hj, hFlip.node2ptr_eq hk (xor_one_lt hj),
    sub64_eq (by omega) (by unfold wordSize; omega), Nat.add_sub_cancel, flip_blockAt]
  cases b.bit (nodeOf k (j / 2)) <;> rfl

theorem freeLoop_root : buddyFreeLoop bound (nodeOf 0 0) 0 b h = .ok (nodeOf 0 0, 0, b, h) := by
  cases bound <;> simp [buddyFreeLoop]

theorem freeLoop_climbed {bound k j : Nat} {b : BuddyArea} {h : Heap} (hs : Sound M physMem b h)
    (hk : k ≤ M - 12) (hj : j < 2 ^ k) (hBound : nodeOf k j ≤ bound) {node bkt : Nat}
    {b' : BuddyArea} {h' : Heap}
    (hOk : buddyFreeLoop bound (nodeOf k j) k b h = .ok (node, bkt, b', h')) :
    ∃ j', node = nodeOf bkt j' ∧ Climbed M physMem k b bkt j' b' h' := by
  induction bound generalizing k j b h with
  | zero =>
    have hStay : buddyFreeLoop 0 (nodeOf k j) k b h = .ok (nodeOf k j, k, b, h) := rfl
    rw [hStay] at hOk
    cases hOk
    exact ⟨j, rfl, Nat.le_refl _, hj, SameFrame.refl _, rfl, hs⟩
  | succ bound ih =>
    cases k with
    | zero =>
      obtain rfl : j = 0 := by omega
      rw [freeLoop_root] at hOk
      cases hOk
      exact ⟨0, rfl, Nat.le_refl 0, hj, SameFrame.refl _, rfl, hs⟩
    | succ k =>
      have hHalf : j / 2 < 2 ^ k := by rw [Nat.pow_succ] at hj; omega
      have hFlip := hs.flip (nodeOf k (j / 2))
      rw [freeLoop_turn hs.sizes hk hj] at hOk
      split at hOk
      · cases hOk
        exact ⟨j, rfl, Nat.le_refl _, hj, flip_sameFrame b _, rfl, hFlip⟩
      · obtain ⟨h1, hRemove, hOk⟩ := bind_eq_ok.mp hOk
        obtain ⟨c, -, hPrev, -, rfl⟩ := (hs.remove_eq_ok hk (xor_one_lt hj)).mp hRemove
        have hDown : nodeOf k (j / 2) ≤ bound := by
          have hParent := nodeOf_parent k j
          have hPos := nodeOf_pos (by omega : 0 < k + 1) j
          omega
        have hs1 := (hs.unlinked hk (xor_one_lt hj) hPrev ⟨0, 0⟩).flip (nodeOf k (j / 2))
        obtain ⟨j', hNode, hClimb⟩ := ih hs1 (by omega) hHalf hDown hOk
        exact ⟨j', hNode, Nat.le_succ_of_le hClimb.level, hClimb.index,
          (flip_sameFrame b _).trans hClimb.sameFrame, hClimb.available, hClimb.sound⟩

/-- A freed block whose parent's bit is set is merged at least once. -/
theorem freeLoop_merges {bound k j : Nat} {b : BuddyArea} {h : Heap} (hs : Sound M physMem b h)
    (hk : k + 1 ≤ M - 12) (hj : j < 2 ^ (k + 1)) (hBound : nodeOf (k + 1) j ≤ bound)
    (hBit : b.bit (nodeOf k (j / 2)) = true) {node bkt : Nat} {b' : BuddyArea} {h' : Heap}
    (hOk : buddyFreeLoop bound (nodeOf (k + 1) j) (k + 1) b h = .ok (node, bkt, b', h')) :
    bkt ≤ k := by
  have hPos := nodeOf_pos (by omega : 0 < k + 1) j
  have hParent := nodeOf_parent k j
  have hHalf : j / 2 < 2 ^ k := by rw [Nat.pow_succ] at hj; omega
  obtain ⟨less, rfl⟩ : ∃ less, bound = less + 1 := ⟨bound - 1, by omega⟩
  rw [freeLoop_turn hs.sizes hk hj, if_neg (by simp [hBit])] at hOk
  obtain ⟨h1, hRemove, hOk⟩ := bind_eq_ok.mp hOk
  obtain ⟨c, -, hPrev, -, rfl⟩ := (hs.remove_eq_ok hk (xor_one_lt hj)).mp hRemove
  have hs1 := (hs.unlinked hk (xor_one_lt hj) hPrev ⟨0, 0⟩).flip (nodeOf k (j / 2))
  obtain ⟨_, -, hClimb⟩ := freeLoop_climbed hs1 (by omega) hHalf (by omega) hOk
  exact hClimb.level

end Loop

/-! ## The whole call -/

/-- `memset(page, 0, sizeof(struct page))` -/
def Mem.withoutPage (m : Mem) (ref : PageRef) : Mem :=
  { m with page := fun r => if r = ref then {} else m.page r }

/-- A completed `buddy_free` of an address of the arena: where the loop stopped, what was
credited and which list got the block. -/
theorem buddyFree_ok {M i : Nat} {b b' : BuddyArea} {m m' : Mem} {ref : PageRef}
    (hs : Sound M m.physMem b m.heap) (hi : i < 2 ^ (M - 12))
    (hRef : phys2page m.physMem (b.base + i * PGSIZE) = some ref)
    (hOrder : (m.page ref).order ≤ M - 12)
    (hOk : buddyFree b m (b.base + i * PGSIZE) = .ok (b', m')) :
    ∃ k j b1 h1 c,
      buddyFreeLoop
        (nodeOf (m.page ref).order (i * PGSIZE / 2 ^ (M - (m.page ref).order)))
        (nodeOf (m.page ref).order (i * PGSIZE / 2 ^ (M - (m.page ref).order)))
        (m.page ref).order b m.heap = .ok (nodeOf k j, k, b1, h1) ∧
      Climbed M m.physMem (m.page ref).order b k j b1 h1 ∧
      h1 (b.headAt k) = some c ∧
      b' = { b1 with available := add64 b.available (intShl (M - k)) } ∧
      m' = { m.withoutPage ref with
        heap := linked h1 (b.headAt k) (b.entryAt M k j) c.prev } := by
  have hGe := hs.order_ge
  have hLe := hs.shape.order_le
  obtain ⟨ref', hRef', hIn⟩ := hs.ground.record i hi
  obtain rfl := Option.some.inj (hRef.symm.trans hRef')
  have hOff : i * PGSIZE < 2 ^ M := by
    have hPow : 2 ^ M = 2 ^ (M - 12) * PGSIZE := by
      rw [show PGSIZE = 2 ^ 12 from rfl, ← Nat.pow_add]
      congr 1
      omega
    rw [hPow]
    exact Nat.mul_lt_mul_of_pos_right hi (by decide)
  have hPtr : b.base + i * PGSIZE ≠ 0 := by
    intro hZero
    simp [phys2page, hZero] at hRef
  generalize hk0 : (m.page ref).order = k0 at hOrder ⊢
  have hIndex : i * PGSIZE / 2 ^ (M - k0) < 2 ^ k0 := by
    rw [Nat.div_lt_iff_lt_mul (Nat.two_pow_pos _), ← Nat.pow_add]
    rwa [Nat.add_sub_cancel' (by omega)]
  unfold buddyFree at hOk
  rw [if_neg hPtr, hRef] at hOk
  dsimp only at hOk
  rw [Mem.readPage_eq hIn, ok_bind_eq, hk0, hs.shape.ptr2node_eq hOrder hOff] at hOk
  obtain ⟨⟨node, k, b1, h1⟩, hLoop, hOk⟩ := bind_eq_ok.mp hOk
  obtain ⟨j, rfl, hClimb⟩ := freeLoop_climbed hs hOrder hIndex (Nat.le_refl _) hLoop
  have hs1 := hClimb.sound
  have hLevel := hClimb.level
  have hCredit : intShl (sub64 (log2 b1.max) k) = intShl (M - k) := by
    rw [hs1.shape.log2_max, sub64_eq (by omega) (by unfold wordSize; omega)]
  obtain ⟨c, hc, -⟩ := hs1.head k (by omega)
  have hHead := hClimb.sameFrame.headAt_eq k
  have hEntry := hClimb.sameFrame.entryAt_eq M k j
  -- the credited area has the shape of the area the loop left
  let b2 : BuddyArea := { b1 with available := add64 b1.available (intShl (M - k)) }
  have hs2 : Sound M m.physMem b2 h1 := hs1.congr ⟨rfl, rfl, rfl, rfl, rfl⟩ (add64_lt _ _)
  have hPush := hs2.pushback (by omega : k < M - 11) (by omega) hClimb.index hc
  dsimp only at hOk
  rw [hCredit] at hOk
  change (freelistAt b2 k >>= fun a => buddyPushback h1 a (node2ptr b2 (nodeOf k j) k) >>= _) = _
    at hOk
  rw [hs2.shape.freelistAt_eq (by omega), ok_bind_eq, hs2.shape.node2ptr_eq (by omega) hClimb.index,
    hPush, ok_bind_eq] at hOk
  have hWrite : ({ m with heap := linked h1 (b2.headAt k) (b2.entryAt M k j) c.prev } :
      Mem).writePage (some ref) (fun _ => {}) = .ok { m.withoutPage ref with
        heap := linked h1 (b2.headAt k) (b2.entryAt M k j) c.prev } := if_pos hIn
  rw [hWrite, ok_bind_eq] at hOk
  obtain ⟨rfl, rfl⟩ := Prod.mk.inj (Except.ok.inj hOk)
  refine ⟨k, j, b1, h1, c, hLoop, hClimb, hHead ▸ hc, ?_, ?_⟩
  · rw [hClimb.available]
  · rw [← hHead, ← hEntry]
    rfl

end LunarOS
