import LunarOS.Buddy.Reach

/-!
# Physical and direct-map addresses

Free lists are threaded through the blocks at their direct-map addresses; the tree and the
page records go by physical ones. `PhysicalResult` says that a request keeps the two apart:
the call returns without leaving the tree, and a block it returns is a physical address from
which `ptr2node`, `phys2page` and `buddy_free` find the same node. The walk does so; a pop
returns the direct-map address, so `physicalResult_iff` asks for the request to be refused or
to find its list empty.
-/

namespace LunarOS

open Logic BuddyArea

/-- What `ptr` must be for a request served from bucket `bkt`. -/
structure PhysicalBlock (b : BuddyArea) (m : Mem) (ptr bkt j : Nat) : Prop where
  index : j < 2 ^ bkt
  address : ptr = b.base + j * (b.max >>> bkt)
  node : ptr2node b ptr bkt = nodeOf bkt j
  in_tree : nodeOf bkt j / 8 < b.treeSz
  /-- the record from which `buddy_free` reads the level -/
  record : ∃ ref, phys2page m.physMem ptr = some ref ∧ InMap m.physMem ref ∧
    (m.page ref).order = bkt

def PhysicalResult (M : Nat) (s : Sys) (requested : Nat) : Prop :=
  ∃ fuel ret b' m', buddyAlloc s.b s.m requested fuel = .ok (ret, b', m') ∧
    ∀ ptr, ret = some ptr → ∃ j, PhysicalBlock b' m' ptr (bucketOf M requested) j

/-- A block found by the walk. -/
theorem Walked.physical {M bkt : Nat} {b b' : BuddyArea} {m m' : Mem} {ptr : Nat}
    (hBkt : bkt ≤ M - 12) (w : Walked M bkt b 0 b m (some ptr) b' m') :
    ∃ j, PhysicalBlock b' m' ptr bkt j := by
  have hShape := w.sound.shape
  have hOrder := hShape.order_ge
  by_cases hFound : 0 < bkt ∧ pathBit b (bkt - 1) = false
  · obtain ⟨hPos, hClear⟩ := hFound
    obtain ⟨ref, hRet, hRef, hIn, hPage⟩ := w.found hPos hClear
    have hIndex : 2 * walkPath b (bkt - 1) + 1 < 2 ^ bkt := by
      have hPath := walkPath_lt b (bkt - 1)
      rw [show 2 ^ bkt = 2 * 2 ^ (bkt - 1) by rw [← Nat.pow_succ']; congr 1; omega]
      omega
    obtain rfl := Option.some.inj hRet
    have hSame : b.blockAt M bkt (2 * walkPath b (bkt - 1) + 1) =
        b'.blockAt M bkt (2 * walkPath b (bkt - 1) + 1) := by
      unfold blockAt
      rw [w.sameFrame.1]
    refine ⟨_, hIndex, ?_, ?_, hShape.node_in_tree hBkt hIndex, ref, ?_, ?_, ?_⟩
    · rw [hSame, show b'.max >>> bkt = 2 ^ (M - bkt) from classSize_eq hShape.toSizes (by omega)]
      rfl
    · rw [hSame]
      exact hShape.ptr2node_block hBkt hIndex
    · rw [w.physMem]
      exact hRef
    · rw [w.physMem]
      exact hIn
    · simp [hPage, Mem.withOrder]
  · have hMissed := (w.missed fun hPos => by
      by_contra hClear
      exact hFound ⟨hPos, by simpa using hClear⟩).1
    cases hMissed

theorem physicalResult_iff {M : Nat} {s0 s : Sys} (hFresh : Fresh M s0) (hReach : Reach Step s0 s)
    {r : Nat} (hr : r ≤ s.b.max) : PhysicalResult M s r ↔
      Refused s.b r ∨ EmptyAt s.m.heap (s.b.headAt (bucketOf M r)) := by
  have hs := (Reach.coherent hFresh hReach).sound
  rw [hs.shape.max_eq] at hr
  constructor
  · rintro ⟨fuel, ret, b', m', hOk, -⟩
    obtain ⟨bkt, hFind⟩ := find_of_ok hOk
    have hEnds := buddyAlloc_ends hs hFind
    rw [hOk] at hEnds
    cases hEnds with
    | refused hRefused => exact Or.inl hRefused
    | walked _ _ hEmpty _ _ => exact Or.inr hEmpty
  · intro hEnd
    by_cases hRefused : Refused s.b r
    · obtain ⟨fuel, hFind⟩ := findBkt_exists hs.sizes (hs.small hr)
      refine ⟨fuel, none, s.b, s.m, buddyAlloc_refused hs.sizes hs.available_lt hFind hRefused, ?_⟩
      rintro ptr ⟨⟩
    · have hEmpty := hEnd.resolve_left hRefused
      obtain ⟨fuel, ret, b', m', -, hOk, w⟩ := alloc_completes hs hRefused hr hEmpty
      refine ⟨fuel, ret, b', m', hOk, ?_⟩
      rintro ptr rfl
      exact w.physical (bucketOf_le M r)

/-- With 64 KiB live, 32 KiB come from the walk. -/
theorem physicalResult_sample : ∃ s, Run Step sample [.alloc 0x10000] s ∧
    0x8000 ≤ s.b.max ∧ PhysicalResult 19 s 0x8000 := by
  have hBucket : bucketOf 19 0x8000 = 4 := by
    unfold bucketOf
    rw [sizeOrder_eq (n := 14) (by omega) (by omega) (by omega)]
  have hEnd : (sample.performAll 12 [.alloc 0x10000]).map
      (fun s => (s.b.max, decide (EmptyAt s.m.heap (s.b.headAt 4)))) = some (0x80000, true) := by
    decide +kernel
  obtain ⟨s, hAll, hState⟩ := Option.map_eq_some_iff.mp hEnd
  simp only [Prod.mk.injEq, decide_eq_true_eq] at hState
  obtain ⟨hMax, hEmpty⟩ := hState
  have hRun := Sys.performAll_run hAll
  have hFits : 0x8000 ≤ s.b.max := by omega
  refine ⟨s, hRun, hFits, (physicalResult_iff sample_fresh ⟨_, hRun⟩ hFits).mpr (Or.inr ?_)⟩
  rw [hBucket]
  exact hEmpty

/-- The whole of a newly built area is popped, and flipping the parent of the node of its
direct-map address touches `tree[2199007592447]`. -/
theorem popped_block_is_virtual : Fresh 19 sample ∧ Reach Step sample sample ∧
    0x80000 ≤ sample.b.max ∧ ¬ PhysicalResult 19 sample 0x80000 ∧
    buddyAlloc sample.b sample.m 0x80000 7 = .error (.fault (.tree 2199007592447)) := by
  have hBucket : bucketOf 19 0x80000 = 0 := by
    unfold bucketOf
    rw [sizeOrder_eq (n := 18) (by omega) (by omega) (by omega)]
  have hCharge : charge 0x80000 = 0x80000 := by
    unfold charge
    rw [sizeOrder_eq (n := 18) (by omega) (by omega) (by omega)]
    rfl
  refine ⟨sample_fresh, ⟨[], .nil⟩, by decide, ?_, stopOf_eq.mp (by decide +kernel)⟩
  rintro ⟨fuel, ret, b', m', hOk, -⟩
  obtain ⟨bkt, hFind⟩ := find_of_ok hOk
  have hEnds := buddyAlloc_ends sample_fresh.rest.sound hFind
  rw [hOk] at hEnds
  cases hEnds with
  | refused hRefused =>
    unfold Refused at hRefused
    rw [hCharge, sample_fresh.available] at hRefused
    omega
  | walked _ _ hEmpty _ _ =>
    rw [hBucket] at hEmpty
    revert hEmpty
    decide

end LunarOS
