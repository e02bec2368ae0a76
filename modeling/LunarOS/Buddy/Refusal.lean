import LunarOS.Buddy.Reach

/-!
# Refused requests

`AtomicRefusal s r` says that a request of `r` bytes is either served or refused without a
trace: the call returns, an oversize request gives `NULL`, `NULL` leaves area and memory as
they were, and no list index is out of range. `atomicRefusal_iff` gives the exact requests
for which this holds in a reachable state: those that the test on `available` refuses, and
those of at most `max` bytes that find their list empty and the last node of the walk with
a clear bit. Every other request hangs (above `2^63`), indexes past the lists (above `max`),
faults on a popped entry, or is charged for a walk that ends in `NULL`.
-/

namespace LunarOS

open Logic BuddyArea

structure AtomicRefusal (s : Sys) (requested : Nat) : Prop where
  returns : ∃ fuel ret b' m', buddyAlloc s.b s.m requested fuel = .ok (ret, b', m')
  oversize : s.b.max < requested → ∀ fuel ret b' m',
    buddyAlloc s.b s.m requested fuel = .ok (ret, b', m') → ret = none
  unchanged : ∀ fuel b' m',
    buddyAlloc s.b s.m requested fuel = .ok (none, b', m') → b' = s.b ∧ m' = s.m
  in_bounds : ∀ fuel k, buddyAlloc s.b s.m requested fuel ≠ .error (.fault (.bucket k))

/-- The walk of a request finds a block: the bit above the requested level is clear. -/
def WalkFinds (M : Nat) (b : BuddyArea) (requested : Nat) : Prop :=
  0 < bucketOf M requested ∧ pathBit b (bucketOf M requested - 1) = false

section Walks

variable {M r : Nat} {b b' : BuddyArea} {m m' : Mem} {ret : Option Nat}

/-- The two ends of a walk, seen from the area before the charge. -/
theorem Walked.ret_eq (w : Walked M (bucketOf M r) (b.charged (charge r)) 0
    (b.charged (charge r)) m ret b' m') :
    (WalkFinds M b r ∧
      ret = some (b.blockAt M (bucketOf M r) (2 * walkPath b (bucketOf M r - 1) + 1))) ∨
    (¬ WalkFinds M b r ∧ ret = none) := by
  by_cases hFinds : WalkFinds M b r
  · left
    obtain ⟨ref, hRet, -⟩ := w.found hFinds.1 (by simpa using hFinds.2)
    exact ⟨hFinds, by simpa using hRet⟩
  · right
    refine ⟨hFinds, (w.missed fun hPos => ?_).1⟩
    by_contra hClear
    exact hFinds ⟨hPos, by simpa using hClear⟩

end Walks

section Requests

variable {M r fuel : Nat} {s : Sys}

/-- Above `2^63` the search for the bucket never ends. -/
theorem buddyAlloc_hangs (hs : Sound M s.m.physMem s.b s.m.heap) (hr : 2 ^ 63 < r) :
    Hangs (buddyAlloc s.b s.m r) := by
  intro fuel
  have hNone : buddyFindBkt fuel s.b r = none := findBkt_diverges hs.sizes hr fuel
  unfold buddyAlloc
  rw [hNone]

/-- A call that returns and leaves no trace of a refusal is one of these two. -/
theorem AtomicRefusal.request (h : AtomicRefusal s r) (hs : Sound M s.m.physMem s.b s.m.heap) :
    r ≤ 2 ^ 63 ∧ (Refused s.b r ∨
      r ≤ 2 ^ M ∧ EmptyAt s.m.heap (s.b.headAt (bucketOf M r)) ∧ WalkFinds M s.b r) := by
  obtain ⟨fuel, ret, b', m', hOk⟩ := h.returns
  obtain ⟨bkt, hFind⟩ := find_of_ok hOk
  have hEnds := buddyAlloc_ends hs hFind
  refine ⟨(findBkt_some hs.sizes hFind).1, ?_⟩
  rw [hOk] at hEnds
  cases hEnds with
  | refused hRefused => exact Or.inl hRefused
  | walked hPass hr hEmpty _ w =>
    right
    refine ⟨hr, hEmpty, ?_⟩
    rcases w.ret_eq with ⟨hFinds, -⟩ | ⟨-, rfl⟩
    · exact hFinds
    · -- the charge of a failed walk is never given back
      obtain ⟨rfl, -⟩ := h.unchanged fuel b' m' hOk
      have hCharge := w.available
      have hPos := charge_pos r
      unfold Refused at hPass
      unfold BuddyArea.charged at hCharge
      dsimp only at hCharge
      omega

/-- Whatever the fuel, such a request stays in the search or returns, and `NULL` leaves no
trace. -/
theorem buddyAlloc_atomic (hs : Sound M s.m.physMem s.b s.m.heap)
    (hEnd : Refused s.b r ∨
      r ≤ 2 ^ M ∧ EmptyAt s.m.heap (s.b.headAt (bucketOf M r)) ∧ WalkFinds M s.b r)
    {bkt : Nat} (hFind : buddyFindBkt fuel s.b r = some bkt) : ∃ ret b' m',
      buddyAlloc s.b s.m r fuel = .ok (ret, b', m') ∧ (2 ^ M < r → ret = none) ∧
        (ret = none → b' = s.b ∧ m' = s.m) := by
  by_cases hRefused : Refused s.b r
  · exact ⟨none, s.b, s.m, buddyAlloc_refused hs.sizes hs.available_lt hFind hRefused,
      fun _ => rfl, fun _ => ⟨rfl, rfl⟩⟩
  · obtain ⟨hr, hEmpty, hFinds⟩ := hEnd.resolve_left hRefused
    obtain ⟨rfl, hLe⟩ := bucket_le hs hr hFind
    obtain ⟨ret, b', m', hWalk, w⟩ := treeWalk_walked hLe (hs.charged (charge r))
    rw [← buddyAlloc_walks hs hFind hRefused hr hEmpty] at hWalk
    refine ⟨ret, b', m', hWalk, by omega, ?_⟩
    rintro rfl
    rcases w.ret_eq with ⟨-, hRet⟩ | ⟨hMiss, -⟩
    · cases hRet
    · exact absurd hFinds hMiss

end Requests

theorem atomicRefusal_iff {M : Nat} {s0 s : Sys} (hFresh : Fresh M s0) (hReach : Reach Step s0 s)
    (r : Nat) : AtomicRefusal s r ↔
      r ≤ 2 ^ 63 ∧ (Refused s.b r ∨
        r ≤ s.b.max ∧ EmptyAt s.m.heap (s.b.headAt (bucketOf M r)) ∧ WalkFinds M s.b r) := by
  have hs := (Reach.coherent hFresh hReach).sound
  rw [hs.shape.max_eq]
  constructor
  · intro h
    exact h.request hs
  · rintro ⟨hSmall, hEnd⟩
    refine ⟨?_, ?_, ?_, ?_⟩
    · obtain ⟨fuel, hFind⟩ := findBkt_exists hs.sizes hSmall
      obtain ⟨ret, b', m', hOk, -⟩ := buddyAlloc_atomic hs hEnd hFind
      exact ⟨fuel, ret, b', m', hOk⟩
    · intro hOver fuel ret b' m' hOk
      obtain ⟨bkt, hFind⟩ := find_of_ok hOk
      obtain ⟨ret1, b1, m1, hOk1, hNone, -⟩ := buddyAlloc_atomic hs hEnd hFind
      rw [hOk] at hOk1
      cases hOk1
      exact hNone (hs.shape.max_eq ▸ hOver)
    · intro fuel b' m' hOk
      obtain ⟨bkt, hFind⟩ := find_of_ok hOk
      obtain ⟨ret1, b1, m1, hOk1, -, hSame⟩ := buddyAlloc_atomic hs hEnd hFind
      rw [hOk] at hOk1
      cases hOk1
      exact hSame rfl
    · intro fuel k hErr
      obtain ⟨bkt, hFind⟩ := find_of_fault hErr
      obtain ⟨ret1, b1, m1, hOk1, -⟩ := buddyAlloc_atomic hs hEnd hFind
      rw [hErr] at hOk1
      cases hOk1

/-- With 64 KiB live, 32 KiB are served, and one byte more than the arena holds is refused by the
test on `available`. -/
theorem atomicRefusal_sample : ∃ s, Run Step sample [.alloc 0x10000] s ∧
    AtomicRefusal s 0x8000 ∧ AtomicRefusal s 0x80001 := by
  have hBucket : bucketOf 19 0x8000 = 4 := by
    unfold bucketOf
    rw [sizeOrder_eq (n := 14) (by omega) (by omega) (by omega)]
  have hCharge : charge 0x80001 = 0x100000 := by
    unfold charge
    rw [sizeOrder_eq (n := 19) (by omega) (by omega) (by omega)]
    rfl
  have hEnd : (sample.performAll 12 [.alloc 0x10000]).map (fun s =>
      (s.b.max, s.b.available, decide (EmptyAt s.m.heap (s.b.headAt 4)), pathBit s.b 3)) =
      some (0x80000, 0x70000, true, false) := by decide +kernel
  obtain ⟨s, hAll, hState⟩ := Option.map_eq_some_iff.mp hEnd
  simp only [Prod.mk.injEq, decide_eq_true_eq] at hState
  obtain ⟨hMax, hAvailable, hEmpty, hClear⟩ := hState
  have hRun := Sys.performAll_run hAll
  have hReach : Reach Step sample s := ⟨_, hRun⟩
  refine ⟨s, hRun, (atomicRefusal_iff sample_fresh hReach 0x8000).mpr ⟨by omega, Or.inr ?_⟩,
    (atomicRefusal_iff sample_fresh hReach 0x80001).mpr ⟨by omega, Or.inl ?_⟩⟩
  · unfold WalkFinds
    rw [hBucket]
    exact ⟨by omega, hEmpty, by omega, hClear⟩
  · unfold Refused
    rw [hCharge, hAvailable]
    omega

/-- A request of `2^63 + 1` bytes never returns, not even on a newly built area. -/
theorem huge_request_hangs : Fresh 19 sample ∧ Reach Step sample sample ∧
    2 ^ 63 + 1 < wordSize ∧ Hangs (buddyAlloc sample.b sample.m (2 ^ 63 + 1)) ∧
    ¬ AtomicRefusal sample (2 ^ 63 + 1) := by
  have hHangs := buddyAlloc_hangs (r := 2 ^ 63 + 1) sample_fresh.rest.sound (by omega)
  refine ⟨sample_fresh, ⟨[], .nil⟩, by unfold wordSize; omega, hHangs, ?_⟩
  intro h
  obtain ⟨fuel, ret, b', m', hOk⟩ := h.returns
  rw [hHangs fuel] at hOk
  cases hOk

end LunarOS
