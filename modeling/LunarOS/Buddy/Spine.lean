import LunarOS.Buddy.Single

/-!
# Requests without frees

As long as nothing is freed each served request descends one level further along the left
edge of the tree and then takes the rightmost block of its class. `Spine M n last` describes
the area after `n` of them, the last from bucket `last`: the left edge is split down to level
`n`, the subtree below is untouched, and the lists up to `last` are not empty. So a request
is served exactly from a bucket above `last`, and its walk always finds a block.
-/

namespace LunarOS

open Logic BuddyArea

/-! ## Where the blocks lie -/

/-- The live blocks after `n` requests, the last one first: each lies at the end of what the
earlier ones have left. -/
inductive Stacked (M base : Nat) : Nat → List Block → Prop
  | nil : Stacked M base 0 []
  | cons {n k : Nat} {live : List Block} : Stacked M base n live → n < k → k ≤ M - 12 →
      Stacked M base (n + 1) (⟨base + rightmost (k - n) * 2 ^ (M - k), k⟩ :: live)

theorem stacked_end {M n k : Nat} (hn : n < k) (hk : k ≤ M) :
    rightmost (k - n) * 2 ^ (M - k) + 2 ^ (M - k) = 2 ^ (M - n) ∧
      2 ^ (M - (n + 1)) ≤ rightmost (k - n) * 2 ^ (M - k) := by
  have hPos := Nat.two_pow_pos (k - n)
  have hEnd : rightmost (k - n) * 2 ^ (M - k) + 2 ^ (M - k) = 2 ^ (M - n) := by
    calc rightmost (k - n) * 2 ^ (M - k) + 2 ^ (M - k)
        = (rightmost (k - n) + 1) * 2 ^ (M - k) := by ring
      _ = 2 ^ (k - n) * 2 ^ (M - k) := by
          unfold rightmost
          rw [Nat.sub_add_cancel hPos]
      _ = 2 ^ (M - n) := by
          rw [← Nat.pow_add]
          congr 1
          omega
  have hHalf : 2 ^ (M - n) = 2 * 2 ^ (M - (n + 1)) := by
    rw [← Nat.pow_succ']
    congr 1
    omega
  have hSmall : 2 ^ (M - k) ≤ 2 ^ (M - (n + 1)) := Nat.pow_le_pow_right (by omega) (by omega)
  exact ⟨hEnd, by omega⟩

namespace Stacked

variable {M base n : Nat} {live : List Block}

/-- Every block lies above what is left, inside the arena. -/
theorem bounds (h : Stacked M base n live) : ∀ blk ∈ live,
    0 < blk.bkt ∧ blk.bkt ≤ M - 12 ∧ base + 2 ^ (M - n) ≤ blk.ptr ∧
      blk.ptr + 2 ^ (M - blk.bkt) ≤ base + 2 ^ M := by
  induction h with
  | nil => simp
  | @cons n k live _ hn hk ih =>
    obtain ⟨hEnd, hLow⟩ := stacked_end hn (by omega : k ≤ M)
    have hLess : 2 ^ (M - n) ≤ 2 ^ M := Nat.pow_le_pow_right (by omega) (by omega)
    have hMono : 2 ^ (M - (n + 1)) ≤ 2 ^ (M - n) := Nat.pow_le_pow_right (by omega) (by omega)
    intro blk hMem
    rcases List.mem_cons.mp hMem with rfl | hOld
    · dsimp only
      omega
    · obtain ⟨hPos, hLe, hStart, hStop⟩ := ih blk hOld
      exact ⟨hPos, hLe, by omega, hStop⟩

theorem pairwise (h : Stacked M base n live) :
    live.Pairwise fun x y => (Span.mk x.ptr (2 ^ (M - x.bkt))).Apart ⟨y.ptr, 2 ^ (M - y.bkt)⟩ := by
  induction h with
  | nil => exact .nil
  | @cons n k live hRest hn hk ih =>
    obtain ⟨hEnd, -⟩ := stacked_end hn (by omega : k ≤ M)
    refine List.pairwise_cons.mpr ⟨?_, ih⟩
    intro blk hMem
    obtain ⟨-, -, hStart, -⟩ := hRest.bounds blk hMem
    left
    dsimp only
    omega

end Stacked

/-! ## The invariant -/

/-- What a live block must be for `buddy_free` to find its node again. -/
structure Tagged (M : Nat) (b : BuddyArea) (m : Mem) (blk : Block) (l e : Nat) : Prop where
  bucket : blk.bkt = l + 1
  index : e < 2 ^ l
  address : blk.ptr = b.blockAt M (l + 1) (2 * e + 1)
  parent : b.bit (nodeOf l e) = true
  record : ∃ ref, phys2page m.physMem blk.ptr = some ref ∧ (m.page ref).order = blk.bkt

structure Spine (M n last : Nat) (s : Sys) : Prop where
  sound : Sound M s.m.physMem s.b s.m.heap
  stacked : Stacked M s.b.base n s.live
  tagged : ∀ blk ∈ s.live, ∃ l e, Tagged M s.b s.m blk l e
  edge : ∀ l < n, s.b.bit (nodeOf l 0) = true
  clear : ∀ l j, n ≤ l → j < 2 ^ (l - n) → s.b.bit (nodeOf l j) = false
  last_ge : n ≤ last
  last_le : last ≤ M - 12
  nonempty : ∀ i ≤ last, ¬ EmptyAt s.m.heap (s.b.headAt i)
  empty : ∀ i, last < i → i < M - 11 → EmptyAt s.m.heap (s.b.headAt i)

namespace Spine

variable {M n last r : Nat} {s s' : Sys}

theorem of_rest (hr : Rest M s.m.physMem s.b s.m.heap) (hLive : s.live = []) :
    Spine M 0 0 s := by
  refine ⟨hr.sound, hLive ▸ .nil, ?_, by omega, fun l j _ _ => hr.clear _, Nat.le_refl 0,
    Nat.zero_le _, ?_, ?_⟩
  · simp [hLive]
  · intro i hi hEmpty
    have := hr.bucket_pos hEmpty
    omega
  · intro i hi hi'
    simp [EmptyAt, Heap.prevOf, hr.others i hi hi']

theorem walkPath_eq (hs : Spine M n last s) (l : Nat) : walkPath s.b l = rightmost (l - n) := by
  induction l with
  | zero => simp [walkPath, rightmost]
  | succ l ih =>
    rcases Nat.lt_or_ge l n with hlt | hge
    · have hSet : s.b.bit (nodeOf l (walkPath s.b l)) = true := by
        rw [ih, show l - n = 0 by omega]
        exact hs.edge l hlt
      rw [walkPath_split hSet, ih, show l + 1 - n = 0 by omega, show l - n = 0 by omega]
      rfl
    · have hClear : s.b.bit (nodeOf l (walkPath s.b l)) = false := by
        rw [ih]
        exact hs.clear l _ hge (rightmost_lt _)
      rw [walkPath_clear hClear, ih, show l + 1 - n = l - n + 1 by omega, rightmost_succ]

theorem pathBit_clear (hs : Spine M n last s) {l : Nat} (hl : n ≤ l) :
    pathBit s.b l = false := by
  unfold pathBit
  rw [hs.walkPath_eq]
  exact hs.clear l _ hl (rightmost_lt _)

/-- A list is empty exactly above the last bucket. -/
theorem lt_of_empty (hs : Spine M n last s) {i : Nat} (hEmpty : EmptyAt s.m.heap (s.b.headAt i)) :
    last < i := by
  by_contra hle
  exact hs.nonempty i (Nat.le_of_not_lt hle) hEmpty

/-- A record belongs to one page only. -/
theorem record_ne (hs : Spine M n last s) {k j : Nat} (hk : k ≤ M - 12) (hj : j < 2 ^ k)
    {ref ref' : PageRef} (hRef : phys2page s.m.physMem (s.b.blockAt M k j) = some ref)
    {blk : Block} (hMem : blk ∈ s.live)
    (hRef' : phys2page s.m.physMem blk.ptr = some ref') (hne : blk.ptr ≠ s.b.blockAt M k j) :
    ref' ≠ ref := by
  rintro rfl
  obtain ⟨l, e, hTag⟩ := hs.tagged blk hMem
  obtain ⟨-, hBkt, -⟩ := hs.stacked.bounds blk hMem
  have hIndex : 2 * e + 1 < 2 ^ (l + 1) := by
    have := hTag.index
    rw [Nat.pow_succ]
    omega
  have hLevel : l + 1 ≤ M - 12 := hTag.bucket ▸ hBkt
  have hAddress := hTag.address
  obtain ⟨i, hi, hEq, -⟩ := block_page hk hs.sound.order_ge hj s.b
  obtain ⟨i', hi', hEq', -⟩ := block_page hLevel hs.sound.order_ge hIndex s.b
  rw [hAddress, hEq'] at hRef'
  rw [hEq] at hRef
  have hPage := hs.sound.ground.own i' hi' i hi (hRef'.trans hRef.symm)
  rw [hAddress, hEq', hEq, hPage] at hne
  exact hne rfl

/-! ## What the walk of a request does -/

section Walk

variable {c k : Nat} {ret : Option Nat} {b' : BuddyArea} {m' : Mem}

theorem charged_path (hs : Spine M n last s) (l : Nat) :
    walkPath (s.b.charged c) l = rightmost (l - n) := by
  rw [charged_walkPath, hs.walkPath_eq]

theorem charged_clear (hs : Spine M n last s) {l : Nat} (hl : n ≤ l) :
    pathBit (s.b.charged c) l = false := by
  rw [charged_pathBit, hs.pathBit_clear hl]

theorem walked_bit (hs : Spine M n last s)
    (w : Walked M k (s.b.charged c) 0 (s.b.charged c) s.m ret b' m') (x : Nat) :
    b'.bit x = true ↔ s.b.bit x = true ∨ ∃ l < k, x = nodeOf l (rightmost (l - n)) := by
  have hSet := w.bit x
  simp only [hs.charged_path, Nat.zero_le, true_and, charged_bit] at hSet
  exact hSet

/-- The block is the rightmost one of its class below the edge. -/
theorem walked_found (hs : Spine M n last s) (hk : last < k)
    (w : Walked M k (s.b.charged c) 0 (s.b.charged c) s.m ret b' m') :
    ∃ ref, ret = some (s.b.blockAt M k (rightmost (k - n))) ∧
      phys2page s.m.physMem (s.b.blockAt M k (rightmost (k - n))) = some ref ∧
      m'.page = (s.m.withOrder ref k).page := by
  have hLast := hs.last_ge
  have hIndex : 2 * rightmost (k - 1 - n) + 1 = rightmost (k - n) := by
    rw [← rightmost_succ]
    congr 1
    omega
  obtain ⟨ref, hRet, hRef, -, hPage⟩ := w.found (by omega) (hs.charged_clear (by omega))
  rw [hs.charged_path, hIndex, charged_blockAt] at hRet hRef
  exact ⟨ref, hRet, hRef, hPage⟩

theorem rightmost_fits (k n : Nat) : rightmost (k - n) < 2 ^ k :=
  (rightmost_lt _).trans_le (Nat.pow_le_pow_right (by omega) (by omega))

/-- The block lies below the earlier ones. -/
theorem block_new (hs : Spine M n last s) (hn : n < k) (hk : k ≤ M) {blk : Block}
    (hMem : blk ∈ s.live) : blk.ptr ≠ s.b.blockAt M k (rightmost (k - n)) := by
  obtain ⟨-, -, hStart, -⟩ := hs.stacked.bounds blk hMem
  obtain ⟨hEnd, -⟩ := stacked_end hn hk
  have hPos := Nat.two_pow_pos (M - k)
  unfold blockAt
  omega

/-- The nodes split below the edge are rightmost, hence not in the left half. -/
theorem walked_clear (hs : Spine M n last s)
    (w : Walked M k (s.b.charged c) 0 (s.b.charged c) s.m ret b' m') {l j : Nat}
    (hl : n + 1 ≤ l) (hj : j < 2 ^ (l - (n + 1))) : b'.bit (nodeOf l j) = false := by
  have hj' : j < 2 ^ (l - n) := hj.trans_le (Nat.pow_le_pow_right (by omega) (by omega))
  have hFit : j < 2 ^ l := hj'.trans_le (Nat.pow_le_pow_right (by omega) (by omega))
  by_contra hSet
  rcases (hs.walked_bit w _).mp (by simpa using hSet) with hOld | ⟨i, _, hEq⟩
  · rw [hs.clear l j (by omega) hj'] at hOld
    cases hOld
  · obtain ⟨rfl, rfl⟩ := nodeOf_inj hFit (rightmost_fits i n) hEq
    rw [show l - n = l - (n + 1) + 1 by omega, rightmost_succ] at hj
    unfold rightmost at hj
    have := Nat.two_pow_pos (l - (n + 1))
    omega

theorem walked_kept (w : Walked M k (s.b.charged c) 0 (s.b.charged c) s.m ret b' m') {i : Nat}
    (hi : i < M - 11) (hOther : ∀ l < k, pathBit (s.b.charged c) l = false → i ≠ l + 1) :
    EmptyAt m'.heap (b'.headAt i) ↔ EmptyAt s.m.heap (s.b.headAt i) := by
  have hKept := w.kept i hi fun l _ hl => hOther l hl
  rw [charged_headAt] at hKept
  unfold EmptyAt
  rw [w.sameFrame.headAt_eq, charged_headAt, hKept]

/-- The lists up to the bucket of the walk have an entry: an old one, or the block pushed. -/
theorem walked_nonempty (hs : Spine M n last s) (hk : k ≤ M - 12)
    (w : Walked M k (s.b.charged c) 0 (s.b.charged c) s.m ret b' m') {i : Nat} (hi : i ≤ k) :
    ¬ EmptyAt m'.heap (b'.headAt i) := by
  have hOrder := hs.sound.order_ge
  by_cases hPushed : ∃ l < k, pathBit (s.b.charged c) l = false ∧ i = l + 1
  · obtain ⟨l, hl, hClear, rfl⟩ := hPushed
    have hPush := w.pushed l (Nat.zero_le _) hl hClear
    rw [charged_headAt, charged_entryAt] at hPush
    unfold EmptyAt
    rw [w.sameFrame.headAt_eq, charged_headAt, hPush]
    exact fun hEq => hs.sound.head_ne_entry (by omega : l + 1 < M - 11) _ _
      (Option.some.inj hEq).symm
  · intro hEmpty
    rw [walked_kept w (by omega) fun l hl hClear hEq => hPushed ⟨l, hl, hClear, hEq⟩] at hEmpty
    have hAbove := hs.lt_of_empty hEmpty
    have hLast := hs.last_ge
    exact hPushed ⟨i - 1, by omega, hs.charged_clear (by omega), by omega⟩

end Walk

/-- A completed request was refused, or took the next block of the stack. -/
theorem alloc (hs : Spine M n last s) (h : Step s (.alloc r) s') :
    (Refused s.b r ∧ s' = s) ∨
      (¬ Refused s.b r ∧ r ≤ 2 ^ M ∧ Spine M (n + 1) (bucketOf M r) s' ∧ SameFrame s.b s'.b ∧
        s'.b.available = s.b.available - charge r ∧
        ∃ ptr, s'.live = ⟨ptr, bucketOf M r⟩ :: s.live) := by
  rcases h.alloc_inv hs.sound with hRefused | ⟨hPass, hSize, hEmpty, ret, b', m', rfl, -, w⟩
  · exact Or.inl hRefused
  right
  generalize hk : bucketOf M r = k at hEmpty w
  have hBkt : k ≤ M - 12 := hk ▸ bucketOf_le M r
  have hAbove := hs.lt_of_empty hEmpty
  have hLast := hs.last_ge
  have hOrder := hs.sound.order_ge
  have hFrame : SameFrame s.b b' := (charged_sameFrame s.b _).trans w.sameFrame
  obtain ⟨ref, hRet, hRef, hPage⟩ := hs.walked_found hAbove w
  have hLive : s.handOut ret k = ⟨s.b.blockAt M k (rightmost (k - n)), k⟩ :: s.live := by
    rw [hRet]
    rfl
  refine ⟨hPass, hSize, ⟨w.physMem ▸ w.sound, ?_, ?_, ?_, ?_, by omega, hBkt, ?_, ?_⟩, hFrame,
    w.available, _, hLive⟩
  · rw [hLive]
    dsimp only
    rw [hFrame.1]
    exact hs.stacked.cons (by omega) hBkt
  · rw [hLive]
    intro blk hMem
    rcases List.mem_cons.mp hMem with rfl | hOld
    · refine ⟨k - 1, rightmost (k - 1 - n), by dsimp only; omega, rightmost_fits _ _, ?_, ?_, ref,
        ?_, ?_⟩
      · rw [Nat.sub_add_cancel (by omega), hFrame.blockAt_eq, ← rightmost_succ,
          show k - 1 - n + 1 = k - n by omega]
      · exact (hs.walked_bit w _).mpr (Or.inr ⟨k - 1, by omega, rfl⟩)
      · rw [w.physMem]
        exact hRef
      · simp [hPage, Mem.withOrder]
    · obtain ⟨l, e, hTag⟩ := hs.tagged blk hOld
      obtain ⟨ref', hRef', hKeep⟩ := hTag.record
      refine ⟨l, e, hTag.bucket, hTag.index, ?_, ?_, ref', ?_, ?_⟩
      · rw [hFrame.blockAt_eq]
        exact hTag.address
      · exact (hs.walked_bit w _).mpr (Or.inl hTag.parent)
      · rw [w.physMem]
        exact hRef'
      · have hNew := hs.block_new (by omega : n < k) (by omega) hOld
        have hne := hs.record_ne hBkt (rightmost_fits k n) hRef hOld hRef' hNew
        simp only [hPage, Mem.withOrder, if_neg hne]
        exact hKeep
  · intro l hl
    rcases Nat.lt_succ_iff_lt_or_eq.mp hl with hlt | rfl
    · exact (hs.walked_bit w _).mpr (Or.inl (hs.edge l hlt))
    · refine (hs.walked_bit w _).mpr (Or.inr ⟨l, by omega, ?_⟩)
      rw [Nat.sub_self]
      rfl
  · exact fun l j hl hj => hs.walked_clear w hl hj
  · exact fun i hi => hs.walked_nonempty hBkt w hi
  · intro i hi hi'
    exact (walked_kept w hi' fun l hl _ => by omega).mpr (hs.empty i (by omega) hi')

/-- A request for a bucket above the last one is served. -/
theorem serves (hs : Spine M n last s) (hPass : ¬ Refused s.b r) (hSize : r ≤ 2 ^ M)
    (hEmpty : EmptyAt s.m.heap (s.b.headAt (bucketOf M r))) :
    ∃ fuel ptr b' m', buddyAlloc s.b s.m r fuel = .ok (some ptr, b', m') := by
  have hAbove := hs.lt_of_empty hEmpty
  obtain ⟨fuel, ret, b', m', -, hOk, w⟩ := alloc_completes hs.sound hPass hSize hEmpty
  obtain ⟨ref, hRet, -⟩ := hs.walked_found hAbove w
  exact ⟨fuel, _, b', m', hRet ▸ hOk⟩

end Spine

end LunarOS
