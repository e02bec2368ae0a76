import LunarOS.Buddy.Climb
import LunarOS.Buddy.Init
import LunarOS.Buddy.Serve

/-!
# Reachable states

What a completed `buddy_alloc` and a completed `buddy_free` do to a system is said once, by
`Step.alloc_inv` and `Step.free_inv`. `Coherent` is the invariant of every run: the area is
sound, and each live block starts with a page of the arena whose record holds a level of the
tree.
-/

namespace LunarOS

open Logic BuddyArea

/-! ## What a step does -/

/-- The live blocks after a request that ended with `ret`. -/
def Sys.handOut (s : Sys) (ret : Option Nat) (bkt : Nat) : List Block :=
  match ret with
  | none => s.live
  | some ptr => ⟨ptr, bkt⟩ :: s.live

section Alloc

variable {M r : Nat} {s s' : Sys}

/-- A completed request was refused, or it walked the tree. -/
theorem Step.alloc_inv (hs : Sound M s.m.physMem s.b s.m.heap) (h : Step s (.alloc r) s') :
    (Refused s.b r ∧ s' = s) ∨
      (¬ Refused s.b r ∧ r ≤ 2 ^ M ∧ EmptyAt s.m.heap (s.b.headAt (bucketOf M r)) ∧
        ∃ ret b' m', s' = ⟨b', m', s.handOut ret (bucketOf M r)⟩ ∧
          buddyTreeWalk (s.b.charged (charge r)) (bucketOf M r) s.m = .ok (ret, b', m') ∧
          Walked M (bucketOf M r) (s.b.charged (charge r)) 0 (s.b.charged (charge r)) s.m
            ret b' m') := by
  have hKey : ∀ {fuel : Nat} {ret : Option Nat} {b' : BuddyArea} {m' : Mem},
      buddyAlloc s.b s.m r fuel = .ok (ret, b', m') → ∃ bkt,
      buddyFindBkt fuel s.b r = some bkt ∧
      ((Refused s.b r ∧ ret = none ∧ b' = s.b ∧ m' = s.m) ∨
        (¬ Refused s.b r ∧ r ≤ 2 ^ M ∧ bkt = bucketOf M r ∧
          EmptyAt s.m.heap (s.b.headAt (bucketOf M r)) ∧
          buddyTreeWalk (s.b.charged (charge r)) (bucketOf M r) s.m = .ok (ret, b', m') ∧
          Walked M (bucketOf M r) (s.b.charged (charge r)) 0 (s.b.charged (charge r)) s.m
            ret b' m')) := by
    intro fuel ret b' m' hOk
    obtain ⟨bkt, hFind⟩ := find_of_ok hOk
    have hEnds := buddyAlloc_ends hs hFind
    rw [hOk] at hEnds
    refine ⟨bkt, hFind, ?_⟩
    cases hEnds with
    | refused hRefused => exact Or.inl ⟨hRefused, rfl, rfl, rfl⟩
    | walked hPass hr hEmpty hWalk w =>
      exact Or.inr ⟨hPass, hr, (bucket_le hs hr hFind).1, hEmpty, hWalk, w⟩
  cases h with
  | served hFind hOk =>
    obtain ⟨bkt, hFind', hEnd⟩ := hKey hOk
    obtain rfl := Option.some.inj (hFind.symm.trans hFind')
    rcases hEnd with ⟨-, hNone, -, -⟩ | ⟨hRefused, hr, rfl, hEmpty, hWalk⟩
    · cases hNone
    · exact Or.inr ⟨hRefused, hr, hEmpty, _, _, _, rfl, hWalk⟩
  | refused hOk =>
    obtain ⟨bkt, -, hEnd⟩ := hKey hOk
    rcases hEnd with ⟨hRefused, -, rfl, rfl⟩ | ⟨hRefused, hr, -, hEmpty, hWalk⟩
    · exact Or.inl ⟨hRefused, rfl⟩
    · exact Or.inr ⟨hRefused, hr, hEmpty, _, _, _, rfl, hWalk⟩

/-- A request whose free list is empty completes. -/
theorem alloc_completes (hs : Sound M s.m.physMem s.b s.m.heap) (hPass : ¬ Refused s.b r)
    (hr : r ≤ 2 ^ M) (hEmpty : EmptyAt s.m.heap (s.b.headAt (bucketOf M r))) :
    ∃ fuel ret b' m', buddyFindBkt fuel s.b r = some (bucketOf M r) ∧
      buddyAlloc s.b s.m r fuel = .ok (ret, b', m') ∧
      Walked M (bucketOf M r) (s.b.charged (charge r)) 0 (s.b.charged (charge r)) s.m
        ret b' m' := by
  obtain ⟨fuel, hFind⟩ := findBkt_exists hs.sizes (hs.small hr)
  rw [bucket_eq hs.sizes hr] at hFind
  obtain ⟨ret, b', m', hWalk, w⟩ := treeWalk_walked (bucketOf_le M r) (hs.charged (charge r))
  exact ⟨fuel, ret, b', m', hFind, (buddyAlloc_walks hs hFind hPass hr hEmpty).trans hWalk, w⟩

end Alloc

/-! ## The invariant -/

structure Coherent (M : Nat) (s : Sys) : Prop where
  sound : Sound M s.m.physMem s.b s.m.heap
  live : ∀ blk ∈ s.live, ∃ i < 2 ^ (M - 12), blk.ptr = s.b.base + i * PGSIZE ∧
    ∃ ref, phys2page s.m.physMem blk.ptr = some ref ∧ (s.m.page ref).order ≤ M - 12

section Runs

variable {M : Nat} {s s' : Sys} {op : Op}

theorem Fresh.coherent (hFresh : Fresh M s) : Coherent M s := by
  refine ⟨hFresh.rest.sound, ?_⟩
  simp [hFresh.live]

/-- A completed free of a live block. -/
theorem Step.free_inv (hc : Coherent M s) {ptr : Nat} (h : Step s (.free ptr) s') :
    ∃ blk ∈ s.live, ∃ i ref k j b1 h1 c, blk.ptr = ptr ∧ i < 2 ^ (M - 12) ∧
      ptr = s.b.base + i * PGSIZE ∧ phys2page s.m.physMem ptr = some ref ∧
      (s.m.page ref).order ≤ M - 12 ∧
      buddyFreeLoop
        (nodeOf (s.m.page ref).order (i * PGSIZE / 2 ^ (M - (s.m.page ref).order)))
        (nodeOf (s.m.page ref).order (i * PGSIZE / 2 ^ (M - (s.m.page ref).order)))
        (s.m.page ref).order s.b s.m.heap = .ok (nodeOf k j, k, b1, h1) ∧
      Climbed M s.m.physMem (s.m.page ref).order s.b k j b1 h1 ∧
      h1 (s.b.headAt k) = some c ∧
      s' = ⟨{ b1 with available := add64 s.b.available (intShl (M - k)) },
        { s.m.withoutPage ref with
          heap := linked h1 (s.b.headAt k) (s.b.entryAt M k j) c.prev },
        s.live.erase blk⟩ := by
  cases h with
  | @freed blk b m hMem hOk =>
    obtain ⟨i, hi, hPtr, ref, hRef, hOrder⟩ := hc.live blk hMem
    rw [hPtr] at hOk hRef
    obtain ⟨k, j, b1, h1, c, hLoop, hClimb, hHead, rfl, rfl⟩ :=
      buddyFree_ok hc.sound hi hRef hOrder hOk
    exact ⟨blk, hMem, i, ref, k, j, b1, h1, c, rfl, hi, hPtr, hPtr ▸ hRef, hOrder, hLoop, hClimb,
      hHead, rfl⟩

theorem Coherent.step (hc : Coherent M s) (h : Step s op s') : Coherent M s' := by
  have hs := hc.sound
  have hLe := hs.shape.order_le
  cases op with
  | alloc r =>
    rcases h.alloc_inv hs with ⟨-, rfl⟩ | ⟨-, -, -, ret, b', m', rfl, -, w⟩
    · exact hc
    · have hBkt := bucketOf_le M r
      have hBase : b'.base = s.b.base := w.sameFrame.1
      refine ⟨w.physMem ▸ w.sound, ?_⟩
      by_cases hFound : 0 < bucketOf M r ∧
          pathBit (s.b.charged (charge r)) (bucketOf M r - 1) = false
      · obtain ⟨hPos, hClear⟩ := hFound
        obtain ⟨ref, rfl, hRef, -, hPage⟩ := w.found hPos hClear
        have hIndex : 2 * walkPath (s.b.charged (charge r)) (bucketOf M r - 1) + 1 <
            2 ^ bucketOf M r := by
          have hPath := walkPath_lt (s.b.charged (charge r)) (bucketOf M r - 1)
          rw [show bucketOf M r = bucketOf M r - 1 + 1 by omega, Nat.pow_succ]
          simp only [Nat.add_sub_cancel]
          omega
        intro blk hMem
        rcases List.mem_cons.mp hMem with rfl | hOld
        · obtain ⟨i, hi, hEq, -⟩ := block_page hBkt hs.order_ge hIndex s.b
          refine ⟨i, hi, ?_, ref, ?_, ?_⟩
          · rw [hBase]
            exact hEq
          · rw [w.physMem]
            exact hRef
          · simp only [hPage, Mem.withOrder, if_true]
            exact hBkt
        · obtain ⟨i, hi, hEq, ref', hRef', hOrder⟩ := hc.live blk hOld
          refine ⟨i, hi, hBase ▸ hEq, ref', w.physMem ▸ hRef', ?_⟩
          simp only [hPage, Mem.withOrder]
          split
          · exact hBkt
          · exact hOrder
      · have hMissed := w.missed (by
          intro hPos
          by_contra hNot
          exact hFound ⟨hPos, by simpa using hNot⟩)
        obtain ⟨rfl, hPage⟩ := hMissed
        intro blk hMem
        obtain ⟨i, hi, hEq, ref', hRef', hOrder⟩ := hc.live blk hMem
        exact ⟨i, hi, hBase ▸ hEq, ref', w.physMem ▸ hRef', hPage ▸ hOrder⟩
  | free ptr =>
    obtain ⟨blk, -, i, ref, k, j, b1, h1, c, -, -, -, -, hOrder, -, hClimb, -, rfl⟩ :=
      h.free_inv hc
    have hLevel : k ≤ M - 12 := hClimb.level.trans hOrder
    refine ⟨?_, ?_⟩
    · have hLinked := hClimb.sound.linked (k := k) hLevel hClimb.index c.prev
      rw [hClimb.sameFrame.headAt_eq, hClimb.sameFrame.entryAt_eq] at hLinked
      exact hLinked.congr ⟨rfl, rfl, rfl, rfl, rfl⟩ (add64_lt _ _)
    · intro blk' hMem
      obtain ⟨i', hi', hEq, ref', hRef', hOrder⟩ := hc.live blk' (List.mem_of_mem_erase hMem)
      refine ⟨i', hi', hClimb.sameFrame.1.symm ▸ hEq, ref', hRef', ?_⟩
      simp only [Mem.withoutPage]
      split
      · exact Nat.zero_le _
      · exact hOrder

/-- No operation moves the area. -/
theorem Step.sameFrame (hc : Coherent M s) (h : Step s op s') : SameFrame s.b s'.b := by
  cases op with
  | alloc r =>
    rcases h.alloc_inv hc.sound with ⟨-, rfl⟩ | ⟨-, -, -, ret, b', m', rfl, -, w⟩
    · exact SameFrame.refl _
    · exact (charged_sameFrame s.b _).trans w.sameFrame
  | free ptr =>
    obtain ⟨blk, -, i, ref, k, j, b1, h1, c, -, -, -, -, -, -, hClimb, -, rfl⟩ := h.free_inv hc
    exact hClimb.sameFrame

/-- Every state that a newly built area gets to is coherent. -/
theorem Reach.coherent {s0 : Sys} (hFresh : Fresh M s0) (h : Reach Step s0 s) : Coherent M s :=
  h.invariant (Coherent M) (fun _ _ _ hc hStep => hc.step hStep) hFresh.coherent

end Runs

end LunarOS
