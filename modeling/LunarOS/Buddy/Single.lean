import LunarOS.Buddy.Edge
import LunarOS.Buddy.Reach

/-!
# One block out of an area at rest

`Rings k` is a sound area whose right edge is split above level `k`: one block is out, taken
from bucket `k` at rest. Freeing it brings the area back to rest, up to the back link of the
base entry.
-/

namespace LunarOS

open Logic BuddyArea

/-- The state that the walk leaves at bucket `k` of a sound area. -/
structure Rings (M : Nat) (physMem : List MemArea) (k : Nat) (b : BuddyArea) (h : Heap) : Prop
    extends Edge M k b h where
  sound : Sound M physMem b h

theorem Rings.of_rest {M : Nat} {physMem : List MemArea} {b : BuddyArea} {h : Heap}
    (hr : Rest M physMem b h) : Rings M physMem 0 b h := by
  refine ⟨⟨?_, hr.root, by omega, hr.others⟩, hr.sound⟩
  intro x
  simp [hr.clear x]

/-! ## The loops on a ringed area -/

section Loops

variable {M : Nat}

theorem treeWalk_rings {bkt : Nat} {b b' : BuddyArea} {m m' : Mem} {ret : Option Nat}
    (hBkt : bkt ≤ M - 12) (hr : Rest M m.physMem b m.heap)
    (hOk : buddyTreeWalk b bkt m = .ok (ret, b', m')) : Rings M m.physMem bkt b' m'.heap := by
  obtain ⟨_, _, _, hWalk, w⟩ := treeWalk_walked hBkt hr.sound
  rw [hOk] at hWalk
  cases hWalk
  have hEdge := (Rings.of_rest hr).toEdge
  exact ⟨(Edge.walkLoop hBkt bkt 0 (by omega) hr.sound.placed hEdge hOk).1, w.sound⟩

theorem freeLoop_rings {physMem : List MemArea} {k : Nat} {b : BuddyArea} {h : Heap} {bound : Nat}
    (hr : Rings M physMem k b h) (hk : k ≤ M - 12) (hBound : nodeOf k (rightmost k) ≤ bound) :
    ∃ b' h', buddyFreeLoop bound (nodeOf k (rightmost k)) k b h = .ok (nodeOf 0 0, 0, b', h') ∧
      Rings M physMem 0 b' h' := by
  obtain ⟨b', h', hRun, hEdge, -⟩ := hr.toEdge.freeLoop hr.sound.placed hk hBound
  obtain ⟨_, -, hClimb⟩ := freeLoop_climbed hr.sound hk (rightmost_lt k) hBound hRun
  exact ⟨b', h', hRun, ⟨hEdge, hClimb.sound⟩⟩

end Loops

/-! ## The two steps -/

/-- The only live block was taken from an area at rest. -/
structure Single (M k : Nat) (s : Sys) : Prop where
  rings : Rings M s.m.physMem k s.b s.m.heap
  level_pos : 0 < k
  level_le : k ≤ M - 12
  live : s.live = [⟨s.b.blockAt M k (rightmost k), k⟩]
  record : ∃ ref, phys2page s.m.physMem (s.b.blockAt M k (rightmost k)) = some ref ∧
    (s.m.page ref).order = k

section Steps

variable {M k r : Nat} {s s' : Sys}

theorem Rest.not_pathBit {physMem : List MemArea} {b : BuddyArea} {h : Heap}
    (hr : Rest M physMem b h) (l : Nat) : pathBit b l = false := hr.clear _

theorem Rest.walkPath_eq {physMem : List MemArea} {b : BuddyArea} {h : Heap}
    (hr : Rest M physMem b h) (l : Nat) : walkPath b l = rightmost l := by
  induction l with
  | zero => rfl
  | succ l ih => rw [walkPath_clear (hr.not_pathBit l), ih, rightmost_succ]

/-- The list of the whole area is not empty, so nothing can be served from it. -/
theorem Rest.bucket_pos {physMem : List MemArea} {b : BuddyArea} {h : Heap}
    (hr : Rest M physMem b h) {i : Nat} (hEmpty : EmptyAt h (b.headAt i)) : 0 < i := by
  rcases Nat.eq_zero_or_pos i with rfl | hPos
  · have hOrder := hr.sound.order_ge
    have hNe := hr.sound.head_ne_entry (by omega : 0 < M - 11) 0 0
    have hPrev : b.baseEntry = b.headAt 0 := by
      simpa [EmptyAt, Heap.prevOf, hr.root] using hEmpty
    simp [hPrev] at hNe
  · exact hPos

/-- A request to an area at rest is refused, or hands out the rightmost block of its class. -/
theorem Rest.alloc (hr : Rest M s.m.physMem s.b s.m.heap) (hLive : s.live = [])
    (h : Step s (.alloc r) s') : (Refused s.b r ∧ s' = s) ∨
      (¬ Refused s.b r ∧ r ≤ 2 ^ M ∧ Single M (bucketOf M r) s' ∧ SameFrame s.b s'.b ∧
        s'.b.available = s.b.available - charge r) := by
  rcases h.alloc_inv hr.sound with hRefused | ⟨hPass, hSize, hEmpty, ret, b', m', rfl, hWalk, w⟩
  · exact Or.inl hRefused
  · right
    have hBkt := bucketOf_le M r
    have hPos := hr.bucket_pos hEmpty
    have hRest : Rest M s.m.physMem (s.b.charged (charge r)) s.m.heap :=
      ⟨hr.sound.charged _, hr.clear, hr.root, hr.base, hr.others⟩
    obtain ⟨ref, hRet, hRef, -, hPage⟩ := w.found hPos (hRest.not_pathBit _)
    have hFrame : SameFrame s.b b' := (charged_sameFrame s.b _).trans w.sameFrame
    rw [hRest.walkPath_eq, ← rightmost_succ, Nat.sub_add_cancel hPos, charged_blockAt,
      ← hFrame.blockAt_eq] at hRet hRef
    refine ⟨hPass, hSize, ⟨w.physMem ▸ treeWalk_rings hBkt hRest hWalk, hPos, hBkt, ?_, ref, ?_, ?_⟩,
      hFrame, w.available⟩
    · simp [hRet, Sys.handOut, hLive]
    · rw [w.physMem]
      exact hRef
    · simp [hPage, Mem.withOrder]

/-- Hanging the base block back on its list, once every ring is undone. -/
theorem Rings.rest {physMem : List MemArea} {b : BuddyArea} {h : Heap}
    (hr : Rings M physMem 0 b h) {a : Nat} (ha : a < wordSize) :
    Rest M physMem { b with available := a }
      (linked h (b.headAt 0) b.baseEntry b.baseEntry) := by
  have hEdge := hr.toEdge.hang hr.sound.placed
  have hLinked := hr.sound.linked (k := 0) (j := 0) (Nat.zero_le _) (by omega) b.baseEntry
  rw [entryAt_zero] at hLinked
  refine ⟨hLinked.congr ⟨rfl, rfl, rfl, rfl, rfl⟩ ha, ?_, hEdge.root, ⟨_, linked_entry ..⟩,
    hEdge.others⟩
  intro n
  change b.bit n = false
  by_contra hSet
  obtain ⟨l, hl, -⟩ := (hr.bit n).mp (by simpa using hSet)
  omega

/-- Freeing the only live block. -/
theorem Single.free (hc : Coherent M s) (hSingle : Single M k s) {ptr : Nat}
    (h : Step s (.free ptr) s') :
    Rest M s'.m.physMem s'.b s'.m.heap ∧ s'.live = [] ∧ SameFrame s.b s'.b ∧
      s'.b.available = add64 s.b.available (intShl M) := by
  obtain ⟨blk, hMem, i, ref, k', j, b1, h1, c, rfl, hi, hPtr, hRef, hOrder, hLoop, hClimb, hHead,
    hEnd⟩ := h.free_inv hc
  obtain rfl : blk = ⟨s.b.blockAt M k (rightmost k), k⟩ := by simpa [hSingle.live] using hMem
  -- the record of the block still holds the bucket it was taken from
  obtain ⟨ref', hRef', hOrder'⟩ := hSingle.record
  obtain rfl := Option.some.inj (hRef.symm.trans hRef')
  have hIndex : i * PGSIZE / 2 ^ (M - k) = rightmost k := by
    have hEq : rightmost k * 2 ^ (M - k) = i * PGSIZE := Nat.add_left_cancel hPtr
    rw [← hEq, Nat.mul_div_cancel _ (Nat.two_pow_pos _)]
  obtain ⟨b2, h2, hRun, hRings⟩ := freeLoop_rings hSingle.rings hSingle.level_le (Nat.le_refl _)
  rw [hOrder', hIndex, hRun] at hLoop
  have hFinal := Except.ok.inj hLoop
  simp only [Prod.mk.injEq] at hFinal
  obtain ⟨-, rfl, rfl, rfl⟩ := hFinal
  have hj : j = 0 := by
    have := hClimb.index
    omega
  have hFrame := hClimb.sameFrame
  rw [← hFrame.headAt_eq, hRings.root] at hHead
  have hRest := hRings.rest (add64_lt s.b.available (intShl M))
  rw [hFrame.headAt_eq, hFrame.baseEntry_eq] at hRest
  rw [hj, entryAt_zero, ← Option.some.inj hHead, hFrame.baseEntry_eq] at hEnd
  subst hEnd
  exact ⟨hRest, by simp [hSingle.live], hFrame, rfl⟩

end Steps

end LunarOS
