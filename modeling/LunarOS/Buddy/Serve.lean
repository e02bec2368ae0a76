import LunarOS.Buddy.Walk

/-!
# The ways a request ends (`buddy_alloc`)

On a sound area a request that `buddy_find_bkt` accepts ends in one of four ways. It is
refused by the test on `available`; it is charged and indexes past the free lists, when it
is larger than `max`; it is charged and pops, which faults; or it is charged and walks the
tree. Popping faults because `buddy_pop` returns the direct-map address of the block: up to
1 GiB `ptr2node` turns it into a node far outside the tree, and above that the address has
no record to write the order to.
-/

namespace LunarOS

open Logic BuddyArea

/-! ## The test on `available` -/

/-- The bytes that `buddy_alloc` charges for a request. -/
def charge (requested : Nat) : Nat := intShl (sizeOrder requested)

/-- The test on `available` refuses the request. -/
def Refused (b : BuddyArea) (requested : Nat) : Prop := b.available < charge requested

instance (b : BuddyArea) (requested : Nat) : Decidable (Refused b requested) :=
  inferInstanceAs (Decidable (_ < _))

/-- `available` after a charge that the test lets through. -/
def BuddyArea.charged (b : BuddyArea) (sz : Nat) : BuddyArea :=
  { b with available := b.available - sz }

/-- The free list at `head` is empty, as `list_empty` sees it. -/
def EmptyAt (h : Heap) (head : Nat) : Prop := h.prevOf head = some head

instance (h : Heap) (head : Nat) : Decidable (EmptyAt h head) :=
  inferInstanceAs (Decidable (_ = _))

theorem charge_pos (r : Nat) : 0 < charge r := intShl_pos _

/-- Up to 1 GiB the charge is the class size. -/
theorem charge_eq {r : Nat} (hr : sizeOrder r ≤ 30) : charge r = 2 ^ sizeOrder r := intShl_eq hr

theorem wraps_iff {a sz : Nat} (ha : a < wordSize) (hPos : 0 < sz) (hSz : sz < wordSize) :
    a < sub64 a sz ↔ a < sz := by
  unfold sub64 wordSize at *
  omega

theorem charged_sameFrame (b : BuddyArea) (sz : Nat) : SameFrame b (b.charged sz) :=
  ⟨rfl, rfl, rfl, rfl, rfl⟩

@[simp] theorem charged_bit (b : BuddyArea) (sz n : Nat) : (b.charged sz).bit n = b.bit n := rfl
@[simp] theorem charged_headAt (b : BuddyArea) (sz k : Nat) :
    (b.charged sz).headAt k = b.headAt k := rfl
@[simp] theorem charged_blockAt (b : BuddyArea) (sz M k j : Nat) :
    (b.charged sz).blockAt M k j = b.blockAt M k j := rfl
@[simp] theorem charged_entryAt (b : BuddyArea) (sz M k j : Nat) :
    (b.charged sz).entryAt M k j = b.entryAt M k j := rfl

@[simp] theorem charged_baseEntry (b : BuddyArea) (sz : Nat) :
    (b.charged sz).baseEntry = b.baseEntry := rfl

@[simp] theorem charged_walkPath (b : BuddyArea) (sz l : Nat) :
    walkPath (b.charged sz) l = walkPath b l := by
  induction l with
  | zero => rfl
  | succ l ih => simp [walkPath, ih]

@[simp] theorem charged_pathBit (b : BuddyArea) (sz l : Nat) :
    pathBit (b.charged sz) l = pathBit b l := by simp [pathBit]

theorem Sound.charged {M : Nat} {physMem : List MemArea} {b : BuddyArea} {h : Heap}
    (hs : Sound M physMem b h) (sz : Nat) : Sound M physMem (b.charged sz) h :=
  hs.congr (charged_sameFrame b sz) (lt_of_le_of_lt (Nat.sub_le _ _) hs.available_lt)

/-! ## Popping faults -/

/-- In a small area the node that `buddy_alloc` computes from a kernel address lies outside the
tree. -/
theorem Sizes.parentFlip_fault {M : Nat} {b : BuddyArea} (h : Sizes M b) (hSmall : M ≤ 30)
    {k ptr : Nat} (hk : k ≤ M - 12) (hGe : VMM_KERNEL_START ≤ ptr) (hLt : ptr < wordSize) :
    ptr2node b ptr k ≠ 0 ∧
      ∃ byte, nodeParentFlip b (ptr2node b ptr k) = .error (.fault (.tree byte)) := by
  have hOrder := h.order_ge
  have hRoom := h.end_le
  have hPow : 2 ^ k ≤ 2 ^ 30 := Nat.pow_le_pow_right (by omega) (by omega)
  have hPos := Nat.two_pow_pos k
  have hSize := Nat.two_pow_pos M
  have hLow : 2 ^ 12 ≤ 2 ^ (M - k) := Nat.pow_le_pow_right (by omega) (by omega)
  have hHigh : 2 ^ (M - k) ≤ 2 ^ 30 := Nat.pow_le_pow_right (by omega) (by omega)
  unfold VMM_KERNEL_START at hGe
  unfold wordSize at hLt
  have hNode : 2 ^ 33 ≤ ptr2node b ptr k ∧ ptr2node b ptr k < 2 ^ 53 := by
    have hQuot : 2 ^ 33 ≤ (ptr - b.base) / 2 ^ (M - k) := by
      rw [Nat.le_div_iff_mul_le (Nat.two_pow_pos _)]
      calc 2 ^ 33 * 2 ^ (M - k) ≤ 2 ^ 33 * 2 ^ 30 := Nat.mul_le_mul_left _ hHigh
        _ ≤ ptr - b.base := by omega
    have hQuot' : (ptr - b.base) / 2 ^ (M - k) < 2 ^ 52 := by
      rw [Nat.div_lt_iff_lt_mul (Nat.two_pow_pos _)]
      calc ptr - b.base < 2 ^ 52 * 2 ^ 12 := by omega
        _ ≤ 2 ^ 52 * 2 ^ (M - k) := Nat.mul_le_mul_left _ hLow
    unfold ptr2node
    rw [h.log2_max, sub64_eq (by omega : k ≤ M) (by unfold wordSize; omega),
      sub64_eq (by omega : b.base ≤ ptr) hLt, shr64_eq (by omega), intShl_eq (by omega)]
    generalize (ptr - b.base) / 2 ^ (M - k) = q at hQuot hQuot'
    rw [add64_eq (by unfold wordSize; omega), sub64_eq (by omega) (by unfold wordSize; omega)]
    omega
  generalize ptr2node b ptr k = node at hNode
  have hTree : 2 ^ (M - 11) ≤ 2 ^ 19 := Nat.pow_le_pow_right (by omega) (by omega)
  refine ⟨by omega, nodeParent node / 8, ?_⟩
  unfold nodeParentFlip
  apply if_neg
  rw [h.treeSz_eq, intShl_eq (by omega)]
  unfold nodeParent
  rw [sub64_eq (by omega) (by unfold wordSize; omega)]
  omega

/-- `buddy_pop` on a list that is not empty returns the entry at its direct-map address. -/
theorem buddyPop_nonempty {h : Heap} {head : Nat} {c : ListT} (hc : h head = some c)
    (hPrev : c.prev ≠ head) :
    (∃ a, buddyPop h head = .error (.fault (.list a))) ∨
      ∃ h', buddyPop h head = .ok (some c.prev, h') := by
  unfold buddyPop
  rw [listPop_nonempty hc hPrev]
  cases hRemove : listRemove h c.prev with
  | error e =>
    left
    obtain ⟨a, rfl⟩ := listRemove_error hRemove
    exact ⟨a, rfl⟩
  | ok h' =>
    right
    exact ⟨h'.write c.prev ⟨0, 0⟩, rfl⟩

theorem nodeParentFlip_error {b : BuddyArea} {node : Nat} {e : Stop}
    (hErr : nodeParentFlip b node = .error e) : ∃ byte, e = .fault (.tree byte) := by
  unfold nodeParentFlip at hErr
  dsimp only at hErr
  split at hErr
  · cases hErr
  · cases hErr
    exact ⟨_, rfl⟩

section Alloc

variable {M fuel r bkt : Nat} {b : BuddyArea} {m : Mem}

/-- What `buddy_alloc` does with an entry it popped. -/
theorem Sound.pop_faults (hs : Sound M m.physMem b m.heap) {ptr : Nat} (hBkt : bkt ≤ M - 12)
    (hGe : VMM_KERNEL_START ≤ ptr) (hLt : ptr < wordSize) (heap : Heap) :
    ∃ f, (∀ k, f ≠ .bucket k) ∧ (do
      let b ← if ptr2node b ptr bkt ≠ 0 then nodeParentFlip b (ptr2node b ptr bkt) else pure b
      let m ← Mem.setOrder { m with heap } (phys2page m.physMem ptr) bkt
      pure (some ptr, b, m)) = (.error (.fault f) : Outcome (Option Nat × BuddyArea × Mem)) := by
  rcases Nat.lt_or_ge 30 M with hLarge | hSmall
  · -- the record is asked for after the flip
    rw [hs.ground.physical hLarge ptr hGe]
    have hWrite : Mem.setOrder { m with heap } none bkt = .error (.fault .page) := rfl
    dsimp only
    split
    · cases hFlip : nodeParentFlip b (ptr2node b ptr bkt) with
      | ok b' => exact ⟨.page, by simp, by rw [ok_bind_eq, hWrite, error_bind_eq]⟩
      | error e =>
        obtain ⟨byte, rfl⟩ := nodeParentFlip_error hFlip
        exact ⟨.tree byte, by simp, by rw [error_bind_eq]⟩
    · exact ⟨.page, by simp, by rw [pure_bind, hWrite, error_bind_eq]⟩
  · obtain ⟨hNode, byte, hFault⟩ := hs.shape.parentFlip_fault hSmall hBkt hGe hLt
    refine ⟨.tree byte, by simp, ?_⟩
    rw [if_pos hNode, hFault, error_bind_eq]

theorem Sound.small {physMem : List MemArea} {h : Heap} (hs : Sound M physMem b h)
    (hr : r ≤ 2 ^ M) : r ≤ 2 ^ 63 := by
  have := hs.shape.order_le
  exact hr.trans (Nat.pow_le_pow_right (by omega) (by omega))

theorem available_ge (hAvail : b.available < wordSize) (hPass : ¬ Refused b r) :
    ¬ b.available < sub64 b.available (charge r) ∧
      sub64 b.available (charge r) = b.available - charge r := by
  rw [wraps_iff hAvail (charge_pos r) (intShl_lt _)]
  exact ⟨hPass, sub64_eq (Nat.le_of_not_lt hPass) hAvail⟩

theorem buddyAlloc_refused (hSizes : Sizes M b) (hAvail : b.available < wordSize)
    (hFind : buddyFindBkt fuel b r = some bkt) (hRefused : Refused b r) :
    buddyAlloc b m r fuel = .ok (none, b, m) := by
  obtain ⟨hr, rfl⟩ := findBkt_some hSizes hFind
  unfold buddyAlloc
  rw [hFind]
  dsimp only
  rw [realsz_eq hSizes hr]
  exact if_pos ((wraps_iff hAvail (charge_pos r) (intShl_lt _)).mpr hRefused)

/-- A request that passes the test is charged and looks at its free list. -/
theorem buddyAlloc_charged (hSizes : Sizes M b) (hAvail : b.available < wordSize)
    (hFind : buddyFindBkt fuel b r = some bkt) (hPass : ¬ Refused b r) :
    buddyAlloc b m r fuel = (do
      let head ← freelistAt (b.charged (charge r)) bkt
      let (ptr, heap) ← buddyPop m.heap head
      let m := { m with heap }
      match ptr with
      | none => buddyTreeWalk (b.charged (charge r)) bkt m
      | some ptr =>
        let node := ptr2node (b.charged (charge r)) ptr bkt
        let b ← if node ≠ 0 then nodeParentFlip (b.charged (charge r)) node
          else pure (b.charged (charge r))
        let m ← m.setOrder (phys2page m.physMem ptr) bkt
        pure (some ptr, b, m)) := by
  obtain ⟨hr, rfl⟩ := findBkt_some hSizes hFind
  obtain ⟨hTest, hRest⟩ := available_ge hAvail hPass
  unfold buddyAlloc
  rw [hFind]
  dsimp only
  rw [realsz_eq hSizes hr]
  change (if b.available < sub64 b.available (charge r) then _ else _) = _
  rw [if_neg hTest]
  unfold BuddyArea.charged
  rw [← hRest]
  rfl

/-- A charged request above `max` indexes past the free lists. -/
theorem buddyAlloc_oversize (hs : Sound M m.physMem b m.heap)
    (hFind : buddyFindBkt fuel b r = some bkt) (hPass : ¬ Refused b r)
    (hOver : 2 ^ M < r) : buddyAlloc b m r fuel = .error (.fault (.bucket bkt)) := by
  obtain ⟨hr, hBkt⟩ := findBkt_some hs.sizes hFind
  rw [buddyAlloc_charged hs.sizes hs.available_lt hFind hPass,
    (hs.charged (charge r)).shape.freelistAt_error (hBkt ▸ bucket_wraps hs.sizes hOver hr)]
  rfl

theorem bucket_le (hs : Sound M m.physMem b m.heap) (hr : r ≤ 2 ^ M)
    (hFind : buddyFindBkt fuel b r = some bkt) : bkt = bucketOf M r ∧ bkt ≤ M - 12 := by
  obtain ⟨-, rfl⟩ := findBkt_some hs.sizes hFind
  rw [bucket_eq hs.sizes hr]
  exact ⟨rfl, bucketOf_le M r⟩

/-- A charged request whose free list is not empty faults. -/
theorem buddyAlloc_pops (hs : Sound M m.physMem b m.heap)
    (hFind : buddyFindBkt fuel b r = some bkt) (hPass : ¬ Refused b r)
    (hr : r ≤ 2 ^ M) (hNonempty : ¬ EmptyAt m.heap (b.headAt bkt)) :
    ∃ f, (∀ k, f ≠ .bucket k) ∧ buddyAlloc b m r fuel = .error (.fault f) := by
  obtain ⟨-, hBkt⟩ := bucket_le hs hr hFind
  have hOrder := hs.order_ge
  obtain ⟨c, hc, hMapped⟩ := hs.head bkt (by omega)
  have hPrev : c.prev ≠ b.headAt bkt := by
    intro heq
    apply hNonempty
    simp [EmptyAt, Heap.prevOf, hc, heq]
  have hCharged := hs.charged (charge r)
  rw [buddyAlloc_charged hs.sizes hs.available_lt hFind hPass,
    hCharged.shape.freelistAt_eq (by omega), ok_bind_eq, charged_headAt]
  rcases buddyPop_nonempty hc hPrev with ⟨a, hPop⟩ | ⟨h', hPop⟩
  · exact ⟨.list a, by simp, by rw [hPop, error_bind_eq]⟩
  · obtain ⟨hGe, hLt⟩ := hs.ground.kernel c.prev hMapped
    rw [hPop, ok_bind_eq]
    exact hCharged.pop_faults hBkt hGe hLt h'

/-- A charged request whose free list is empty walks the tree. -/
theorem buddyAlloc_walks (hs : Sound M m.physMem b m.heap)
    (hFind : buddyFindBkt fuel b r = some bkt) (hPass : ¬ Refused b r)
    (hr : r ≤ 2 ^ M) (hEmpty : EmptyAt m.heap (b.headAt bkt)) :
    buddyAlloc b m r fuel = buddyTreeWalk (b.charged (charge r)) bkt m := by
  obtain ⟨-, hBkt⟩ := bucket_le hs hr hFind
  have hOrder := hs.order_ge
  obtain ⟨c, hc, hMapped⟩ := hs.head bkt (by omega)
  have hPrev : c.prev = b.headAt bkt := by simpa [EmptyAt, Heap.prevOf, hc] using hEmpty
  have hCharged := hs.charged (charge r)
  rw [buddyAlloc_charged hs.sizes hs.available_lt hFind hPass,
    hCharged.shape.freelistAt_eq (by omega), ok_bind_eq, charged_headAt]
  unfold buddyPop
  rw [listPop_empty hc hPrev]
  rfl

/-! ## All ways together -/

/-- The ways a request ends that `buddy_find_bkt` accepts. -/
inductive AllocEnds (M : Nat) (b : BuddyArea) (m : Mem) (r bkt : Nat) :
    Outcome (Option Nat × BuddyArea × Mem) → Prop
  | refused : Refused b r → AllocEnds M b m r bkt (.ok (none, b, m))
  | oversize : ¬ Refused b r → 2 ^ M < r → AllocEnds M b m r bkt (.error (.fault (.bucket bkt)))
  | popped {f : Fault} : ¬ Refused b r → r ≤ 2 ^ M → ¬ EmptyAt m.heap (b.headAt (bucketOf M r)) →
      (∀ k, f ≠ .bucket k) → AllocEnds M b m r bkt (.error (.fault f))
  | walked {ret : Option Nat} {b' : BuddyArea} {m' : Mem} : ¬ Refused b r → r ≤ 2 ^ M →
      EmptyAt m.heap (b.headAt (bucketOf M r)) →
      buddyTreeWalk (b.charged (charge r)) (bucketOf M r) m = .ok (ret, b', m') →
      Walked M (bucketOf M r) (b.charged (charge r)) 0 (b.charged (charge r)) m ret b' m' →
      AllocEnds M b m r bkt (.ok (ret, b', m'))

theorem buddyAlloc_ends (hs : Sound M m.physMem b m.heap)
    (hFind : buddyFindBkt fuel b r = some bkt) :
    AllocEnds M b m r bkt (buddyAlloc b m r fuel) := by
  by_cases hRefused : Refused b r
  · rw [buddyAlloc_refused hs.sizes hs.available_lt hFind hRefused]
    exact .refused hRefused
  by_cases hr : r ≤ 2 ^ M
  · obtain ⟨rfl, hLe⟩ := bucket_le hs hr hFind
    by_cases hEmpty : EmptyAt m.heap (b.headAt (bucketOf M r))
    · obtain ⟨ret, b', m', hWalk, w⟩ := treeWalk_walked hLe (hs.charged (charge r))
      rw [buddyAlloc_walks hs hFind hRefused hr hEmpty, hWalk]
      exact .walked hRefused hr hEmpty hWalk w
    · obtain ⟨f, hBucket, hErr⟩ := buddyAlloc_pops hs hFind hRefused hr hEmpty
      rw [hErr]
      exact .popped hRefused hr hEmpty hBucket
  · have hOver := Nat.lt_of_not_le hr
    rw [buddyAlloc_oversize hs hFind hRefused hOver]
    exact .oversize hRefused hOver

/-- A call that returned got past the search. -/
theorem find_of_ok {res : Option Nat × BuddyArea × Mem} (hOk : buddyAlloc b m r fuel = .ok res) :
    ∃ bkt, buddyFindBkt fuel b r = some bkt := by
  cases hFind : buddyFindBkt fuel b r with
  | some bkt => exact ⟨bkt, rfl⟩
  | none =>
    unfold buddyAlloc at hOk
    rw [hFind] at hOk
    cases hOk

/-- So did a call that faulted. -/
theorem find_of_fault {f : Fault} (hErr : buddyAlloc b m r fuel = .error (.fault f)) :
    ∃ bkt, buddyFindBkt fuel b r = some bkt := by
  cases hFind : buddyFindBkt fuel b r with
  | some bkt => exact ⟨bkt, rfl⟩
  | none =>
    unfold buddyAlloc at hErr
    rw [hFind] at hErr
    cases hErr

end Alloc

end LunarOS
