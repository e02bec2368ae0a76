import LunarOS.Buddy.Coalescing

/-!
# Completeness

`Fits M s r` says that some naturally aligned block of the class of a request overlaps no
live block. In a tidy run whose credits give back all of the area, such a request never gets
`NULL`: the live blocks and the free one are disjoint inside the arena, so the test on
`available` lets the request through, and the walk finds a block whenever the list of the
class is empty. (When the list is not empty the request pops, which faults.) Only the class
of 2 GiB is turned down in any case, because its size is a negative `int`.
-/

namespace LunarOS

open Logic BuddyArea

/-- Block `j` of bucket `bkt` overlaps no live block. -/
def FreeBlock (s : Sys) (bkt j : Nat) : Prop :=
  j < 2 ^ bkt ∧ ∀ blk ∈ s.live,
    (s.b.span blk).Apart ⟨s.b.base + j * s.b.classSize bkt, s.b.classSize bkt⟩

def Fits (M : Nat) (s : Sys) (requested : Nat) : Prop :=
  ∃ j, FreeBlock s (bucketOf M requested) j

/-- The request is not of the class of 2 GiB. -/
def IntSized (requested : Nat) : Prop := requested ≤ 2 ^ 30 ∨ 2 ^ 31 < requested

instance (requested : Nat) : Decidable (IntSized requested) :=
  inferInstanceAs (Decidable (_ ∨ _))

/-- A block is freed only while it is the only live one, its credit gives back all of the area
and does not wrap, and no block of the class of 2 GiB is asked for. -/
structure SoleCredit (s : Sys) (op : Op) : Prop where
  sole : Sole s op
  credit : ∀ ptr, op = .free ptr →
    s.b.max ≤ s.b.available + intShl (log2 s.b.max) ∧
      s.b.available + intShl (log2 s.b.max) < wordSize
  sized : ∀ r, op = .alloc r → r ≤ s.b.max → IntSized r

instance : ∀ s op, Decidable (SoleCredit s op)
  | s, .alloc r =>
    decidable_of_iff (r ≤ s.b.max → IntSized r) <| by
      constructor
      · exact fun h => ⟨by rintro _ ⟨⟩, by rintro _ ⟨⟩, by rintro _ ⟨⟩; exact h⟩
      · exact fun h => h.sized r rfl
  | s, .free ptr =>
    decidable_of_iff (Sole s (.free ptr) ∧ s.b.max ≤ s.b.available + intShl (log2 s.b.max) ∧
        s.b.available + intShl (log2 s.b.max) < wordSize) <| by
      constructor
      · exact fun h => ⟨h.1, fun _ _ => h.2, by rintro _ ⟨⟩⟩
      · exact fun h => ⟨h.sole, h.credit ptr rfl⟩

section Completeness

variable {M n last r : Nat} {s s' : Sys}

/-- What is available covers everything that is not live. -/
def Covered (M : Nat) (s : Sys) : Prop := 2 ^ M ≤ s.b.available + s.liveBytes

/-- Such a request is charged its class size at most. -/
theorem charge_le (hShape : Shape M s.b) (hSize : r ≤ 2 ^ M) (hSized : IntSized r) :
    charge r ≤ 2 ^ sizeOrder r := by
  have hLe := hShape.order_le
  have hFit := sizeOrder_le hShape.order_ge hSize
  have hLow : sizeOrder r ≤ 30 ↔ r ≤ 2 ^ 30 := sizeOrder_le_iff (by omega)
  have hHigh : sizeOrder r ≤ 31 ↔ r ≤ 2 ^ 31 := sizeOrder_le_iff (by omega)
  unfold IntSized at hSized
  exact intShl_le (by omega) (by omega)

theorem Tidy.covered_step (ht : Tidy M s) (hCovered : Covered M s) {op : Op}
    (hSole : SoleCredit s op) (h : Step s op s') : Covered M s' := by
  have hShape := ht.coherent.sound.shape
  cases op with
  | alloc r =>
    obtain ⟨n, last, hs⟩ := ht.spine
    rcases hs.alloc h with ⟨-, rfl⟩ | ⟨hPass, hSize, -, hFrame, hAvail, ptr, hLive⟩
    · exact hCovered
    · have hSum := liveBytes_served hShape hSize hPass hFrame hAvail hLive
      have hCharge := charge_le hShape hSize (hSole.sized r rfl (hShape.max_eq ▸ hSize))
      unfold Covered at *
      omega
  | free ptr =>
    obtain ⟨-, -, hAvail⟩ := ht.free (hSole.sole ptr rfl) h
    obtain ⟨hGives, hCredit⟩ := hSole.credit ptr rfl
    rw [hShape.log2_max] at hGives hCredit
    rw [hShape.max_eq] at hGives
    unfold Covered
    rw [hAvail, add64_eq hCredit]
    omega

/-- The live blocks and a free one are disjoint, so together they fit into the arena. -/
theorem Spine.fits_le (hs : Spine M n last s) {bkt j : Nat} (hBkt : bkt ≤ M)
    (hFree : FreeBlock s bkt j) : s.b.classSize bkt + s.liveBytes ≤ 2 ^ M := by
  have hShape := hs.sound.shape
  obtain ⟨hj, hApart⟩ := hFree
  have hSpan : ∀ blk ∈ s.live, s.b.span blk = ⟨blk.ptr, 2 ^ (M - blk.bkt)⟩ := by
    intro blk hMem
    obtain ⟨-, hLe, -⟩ := hs.stacked.bounds blk hMem
    unfold BuddyArea.span
    rw [LunarOS.classSize_eq hShape.toSizes (by omega)]
  let free : Span := ⟨s.b.base + j * s.b.classSize bkt, s.b.classSize bkt⟩
  have hPairwise : (free :: s.live.map s.b.span).Pairwise Span.Apart := by
    refine List.pairwise_cons.mpr ⟨?_, ?_⟩
    · intro a ha
      obtain ⟨blk, hMem, rfl⟩ := List.mem_map.mp ha
      exact (hApart blk hMem).symm
    · refine List.pairwise_map.mpr (hs.stacked.pairwise.imp_of_mem ?_)
      intro x y hx hy hxy
      rw [hSpan x hx, hSpan y hy]
      exact hxy
  have hWithin : ∀ a ∈ free :: s.live.map s.b.span, a.Within ⟨s.b.base, 2 ^ M⟩ := by
    intro a ha
    rcases List.mem_cons.mp ha with rfl | ha
    · have hEnd := block_end_le hBkt hj
      simp only [free, Span.Within, LunarOS.classSize_eq hShape.toSizes hBkt]
      omega
    · obtain ⟨blk, hMem, rfl⟩ := List.mem_map.mp ha
      obtain ⟨-, -, hStart, hStop⟩ := hs.stacked.bounds blk hMem
      rw [hSpan blk hMem]
      exact ⟨(Nat.le_add_right _ _).trans hStart, hStop⟩
  have hSum := Span.sum_len_le hPairwise hWithin
  rw [List.map_cons, List.sum_cons, List.map_map] at hSum
  exact hSum

/-- Completeness in tidy runs: a request that fits is not answered with `NULL`, and it is
served whenever the list of its class is empty. -/
theorem complete_of_sole {s0 : Sys} {ops : List Op} (hFresh : Fresh M s0)
    (hRun : Run (Guarded SoleCredit Step) s0 ops s) {r : Nat} (hr : r ≤ s.b.max)
    (hSized : IntSized r) (hFits : Fits M s r) :
    (∀ fuel b' m', buddyAlloc s.b s.m r fuel ≠ .ok (none, b', m')) ∧
      (EmptyAt s.m.heap (s.b.headAt (bucketOf M r)) →
        ∃ fuel ptr b' m', buddyAlloc s.b s.m r fuel = .ok (some ptr, b', m')) := by
  have hInv : Tidy M s ∧ Covered M s := by
    refine hRun.invariant (fun t => Tidy M t ∧ Covered M t) ?_ ⟨hFresh.tidy, ?_⟩
    · rintro t op t' ⟨ht, hCovered⟩ ⟨hSole, h⟩
      exact ⟨ht.step hSole.sole h, ht.covered_step hCovered hSole h⟩
    · simp [Covered, hFresh.available]
  obtain ⟨ht, hCovered⟩ := hInv
  obtain ⟨n, last, hs⟩ := ht.spine
  have hShape := hs.sound.shape
  rw [hShape.max_eq] at hr
  obtain ⟨j, hFree⟩ := hFits
  have hBkt := bucketOf_le M r
  have hClass := classSize_bucketOf hShape hr
  have hCharge := charge_le hShape hr hSized
  have hPass : ¬ Refused s.b r := by
    have hRoom := hs.fits_le (by omega) hFree
    unfold Covered at hCovered
    unfold Refused
    omega
  refine ⟨?_, fun hEmpty => hs.serves hPass hr hEmpty⟩
  intro fuel b' m' hOk
  obtain ⟨bkt, hFind⟩ := find_of_ok hOk
  have hEnds := buddyAlloc_ends hs.sound hFind
  rw [hOk] at hEnds
  cases hEnds with
  | refused hRefused => exact hPass hRefused
  | walked _ _ hEmpty _ w =>
    have hAbove := hs.lt_of_empty hEmpty
    have hLast := hs.last_ge
    obtain ⟨ref, hRet, -⟩ := w.found (by omega) (by
      rw [charged_pathBit]
      exact hs.pathBit_clear (by omega))
    cases hRet

end Completeness

/-- 64 KiB are taken and given back, and 128 KiB are taken: a request for 32 KiB is then not
turned down. -/
theorem complete_sample : ∃ s,
    Run (Guarded SoleCredit Step) sample [.alloc 0x10000, .free 0x270000, .alloc 0x20000] s ∧
      ∀ fuel b' m', buddyAlloc s.b s.m 0x8000 fuel ≠ .ok (none, b', m') := by
  have hBucket : bucketOf 19 0x8000 = 4 := by
    unfold bucketOf
    rw [sizeOrder_eq (n := 14) (by omega) (by omega) (by omega)]
  have hEnd : (sample.performGuarded SoleCredit 12
      [.alloc 0x10000, .free 0x270000, .alloc 0x20000]).map
        (fun s => (s.live, s.b.base, s.b.max)) = some ([⟨0x260000, 2⟩], 0x200000, 0x80000) := by
    decide +kernel
  obtain ⟨s, hAll, hState⟩ := Option.map_eq_some_iff.mp hEnd
  simp only [Prod.mk.injEq] at hState
  obtain ⟨hLive, hBase, hMax⟩ := hState
  have hRun := Sys.performGuarded_run hAll
  refine ⟨s, hRun, (complete_of_sole sample_fresh hRun (by omega) (by decide) ⟨0, ?_⟩).1⟩
  rw [hBucket]
  unfold FreeBlock BuddyArea.span BuddyArea.classSize
  rw [hLive, hBase, hMax]
  decide

/-- After 128 KiB and 64 KiB are taken and the latter is freed, a request for 128 KiB gets
`NULL`, although the first 128 KiB of the arena are free. -/
theorem free_block_not_found : Fresh 19 sample ∧ ∃ s, Run Step sample
    [.alloc 0x20000, .alloc 0x10000, .free 0x230000] s ∧ 0x20000 ≤ s.b.max ∧
    Fits 19 s 0x20000 ∧ ∃ fuel b' m', buddyAlloc s.b s.m 0x20000 fuel = .ok (none, b', m') := by
  have hBucket : bucketOf 19 0x20000 = 2 := by
    unfold bucketOf
    rw [sizeOrder_eq (n := 16) (by omega) (by omega) (by omega)]
  have hEnd : (sample.performAll 12 [.alloc 0x20000, .alloc 0x10000, .free 0x230000]).map
      (fun s => (s.live, s.b.base, s.b.max,
        (buddyAlloc s.b s.m 0x20000 12).toOption.map fun res => res.1)) =
      some ([⟨0x260000, 2⟩], 0x200000, 0x80000, some none) := by decide +kernel
  obtain ⟨s, hAll, hState⟩ := Option.map_eq_some_iff.mp hEnd
  simp only [Prod.mk.injEq] at hState
  obtain ⟨hLive, hBase, hMax, hRet⟩ := hState
  refine ⟨sample_fresh, s, Sys.performAll_run hAll, by omega, ⟨0, ?_⟩, 12, ?_⟩
  · rw [hBucket]
    unfold FreeBlock BuddyArea.span BuddyArea.classSize
    rw [hLive, hBase, hMax]
    decide
  · obtain ⟨⟨ret, b', m'⟩, hOk, rfl⟩ := Option.map_eq_some_iff.mp hRet
    exact ⟨b', m', toOption_eq_some.mp hOk⟩

end LunarOS
