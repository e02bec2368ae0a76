import LunarOS.Buddy.Single

/-!
# Double allocation and the representation of the free lists

`NoDoubleAllocation` says that the live blocks are disjoint from each other and from every
block on a free list; `Represented` that the free lists are rings of distinct blocks and that
each bit says whether exactly one of the two children is free. A newly built area has both.
The first block taken by a walk ends both, because `buddy_tree_walk` leaves the block it
splits on its list, and a popped block faults: so they last exactly as long as no request is
served at all.
-/

namespace LunarOS

open Logic BuddyArea

/-! ## The two properties -/

structure NoDoubleAllocation (s : Sys) : Prop where
  live : s.live.Pairwise fun x y => (s.b.span x).Apart (s.b.span y)
  /-- `p` is the physical address of an entry of list `k` -/
  free : ∀ blk ∈ s.live, ∀ k < buddyMaxBucket s.b, ∀ p,
    Visits s.m.heap (s.b.headAt k) (p + VMM_RESERVED_DM_START) →
    (s.b.span blk).Apart ⟨p, s.b.classSize k⟩

/-- `lists k` is what hangs off `freelist[k]`. -/
structure Represents (M : Nat) (s : Sys) (lists : Nat → List Nat) : Prop where
  ring : ∀ k < buddyMaxBucket s.b, Circular s.m.heap (s.b.headAt k) (lists k)
  blocks : ∀ k < buddyMaxBucket s.b, ∀ x ∈ lists k, ∃ j < 2 ^ k, x = s.b.entryAt M k j
  disjoint : ∀ k < buddyMaxBucket s.b, ∀ k' < buddyMaxBucket s.b, k ≠ k' →
    ∀ x ∈ lists k, x ∉ lists k'
  bit : ∀ k, k + 1 < buddyMaxBucket s.b → ∀ j < 2 ^ k, s.b.bit (nodeOf k j) = true ↔
    Xor (s.b.entryAt M (k + 1) (2 * j) ∈ lists (k + 1))
      (s.b.entryAt M (k + 1) (2 * j + 1) ∈ lists (k + 1))
  buddies : ∀ k, k + 1 < buddyMaxBucket s.b → ∀ j < 2 ^ k,
    ¬ (s.b.entryAt M (k + 1) (2 * j) ∈ lists (k + 1) ∧
      s.b.entryAt M (k + 1) (2 * j + 1) ∈ lists (k + 1))

def Represented (M : Nat) (s : Sys) : Prop := ∃ lists, Represents M s lists

/-- A request that the test on `available` turns down in a newly built area: its class size, as
the shift of an `int` computes it, is more than the whole area. -/
def TurnedDown (s : Sys) (op : Op) : Prop := ∃ r, op = .alloc r ∧ s.b.max < charge r

/-! ## A newly built area -/

section Fresh

variable {M : Nat} {s s' : Sys}

theorem Fresh.refused_iff (hFresh : Fresh M s) (r : Nat) :
    Refused s.b r ↔ s.b.max < charge r := by
  unfold Refused
  rw [hFresh.available, hFresh.shape.max_eq]

/-- A request that is not turned down, if it completes, is served by a walk. -/
theorem Fresh.split_step (hFresh : Fresh M s) {op : Op} (hOp : ¬ TurnedDown s op)
    (h : Step s op s') : ∃ k, Single M k s' := by
  cases op with
  | alloc r =>
    rcases hFresh.rest.alloc hFresh.live h with ⟨hRefused, -⟩ | ⟨-, -, hSingle, -⟩
    · exact absurd ⟨r, rfl, (hFresh.refused_iff r).mp hRefused⟩ hOp
    · exact ⟨_, hSingle⟩
  | free ptr =>
    obtain ⟨blk, hMem, -⟩ := h.free_inv hFresh.coherent
    rw [hFresh.live] at hMem
    cases hMem

/-- The rule for both properties. -/
theorem Fresh.throughout_iff (hFresh : Fresh M s) {P : Sys → Prop} (hP : P s)
    (hSingle : ∀ k s', Single M k s' → ¬ P s') {ops : List Op} (hRun : Run Step s ops s') :
    Throughout Step P s ops ↔ ∀ op ∈ ops, TurnedDown s op := by
  refine throughout_iff_forall (TurnedDown s) (fun t => t = s) ?_ ?_ ?_ rfl hRun
  · rintro _ rfl
    exact hP
  · rintro _ op t rfl ⟨r, rfl, hCharge⟩ h
    rcases hFresh.rest.alloc hFresh.live h with ⟨-, hSame⟩ | ⟨hPass, -⟩
    · exact hSame
    · exact absurd ((hFresh.refused_iff r).mpr hCharge) hPass
  · rintro _ op t rfl hOp h
    obtain ⟨k, hOne⟩ := hFresh.split_step hOp h
    exact hSingle k t hOne

/-- Of the requests up to `max` only the class of `2^31` bytes is turned down: its size is a
negative `int`. -/
theorem Fresh.turnedDown_iff (hFresh : Fresh M s) {r : Nat} (hr : r ≤ s.b.max) :
    TurnedDown s (.alloc r) ↔ 2 ^ 30 < r ∧ r ≤ 2 ^ 31 := by
  have hShape := hFresh.shape
  have hLe := hShape.order_le
  rw [hShape.max_eq] at hr
  have hFit := sizeOrder_le hShape.order_ge hr
  have hClass : 2 ^ 30 < r ∧ r ≤ 2 ^ 31 ↔ sizeOrder r = 31 := by
    have hLow : sizeOrder r ≤ 30 ↔ r ≤ 2 ^ 30 := sizeOrder_le_iff (by omega)
    have hHigh : sizeOrder r ≤ 31 ↔ r ≤ 2 ^ 31 := sizeOrder_le_iff (by omega)
    omega
  have hTurned : TurnedDown s (.alloc r) ↔ 2 ^ M < intShl (sizeOrder r) := by
    unfold TurnedDown
    rw [hShape.max_eq]
    constructor
    · rintro ⟨r', hSame, hCharge⟩
      cases hSame
      exact hCharge
    · exact fun hCharge => ⟨r, rfl, hCharge⟩
  have hPow : 2 ^ M ≤ 2 ^ 42 := Nat.pow_le_pow_right (by omega) hLe
  rw [hTurned, hClass]
  constructor
  · intro hCharge
    by_contra hOther
    have hSmall := intShl_le (by omega : sizeOrder r < 63) hOther
    have hMono : 2 ^ sizeOrder r ≤ 2 ^ M := Nat.pow_le_pow_right (by omega) hFit
    omega
  · intro hSign
    rw [hSign]
    have hShift : intShl 31 = 2 ^ 64 - 2 ^ 31 := rfl
    omega

end Fresh

/-! ## Double allocation -/

/-- The block taken by the first walk lies in the base block, which is still on its list. -/
theorem Single.doubly_owned {M k : Nat} {s : Sys} (hs : Single M k s) :
    ¬ NoDoubleAllocation s := by
  intro h
  have hShape := hs.rings.sound.shape
  have hOrder := hShape.order_ge
  have hLevel := hs.level_le
  have hNe : s.b.headAt 0 ≠ s.b.baseEntry := by
    simpa using hShape.head_ne_entry (by omega : 0 < M - 11) 0 0
  have hVisits : Visits s.m.heap (s.b.headAt 0) (s.b.base + VMM_RESERVED_DM_START) :=
    Visits.first hs.rings.root hNe.symm
  have hBuckets : 0 < buddyMaxBucket s.b := by
    rw [hShape.maxBucket_eq]
    omega
  have hMem : ⟨s.b.blockAt M k (rightmost k), k⟩ ∈ s.live := by simp [hs.live]
  have hApart := h.free _ hMem 0 hBuckets _ hVisits
  have hWithin : (s.b.span ⟨s.b.blockAt M k (rightmost k), k⟩).Within
      ⟨s.b.base, s.b.classSize 0⟩ := by
    have hEnd := block_end_le (by omega : k ≤ M) (rightmost_lt k)
    simp only [Span.Within, BuddyArea.span, blockAt, classSize_eq hShape.toSizes (by omega : k ≤ M),
      classSize_eq hShape.toSizes (Nat.zero_le M), Nat.sub_zero]
    omega
  refine hWithin.not_apart ?_ hApart
  change 0 < s.b.classSize k
  rw [classSize_eq hShape.toSizes (by omega)]
  exact Nat.two_pow_pos _

/-- In a completed run no block is ever owned twice exactly when nothing is served. -/
theorem noDoubleAllocation_iff {M : Nat} {s s' : Sys} (hFresh : Fresh M s) {ops : List Op}
    (hRun : Run Step s ops s') :
    Throughout Step NoDoubleAllocation s ops ↔ ∀ op ∈ ops, TurnedDown s op := by
  refine hFresh.throughout_iff ⟨?_, ?_⟩ (fun k s' => Single.doubly_owned) hRun
  · simp [hFresh.live]
  · simp [hFresh.live]

/-- An area of 4 GiB turns down 2 GiB. -/
theorem noDoubleAllocation_sample : 0x80000000 ≤ large.b.max ∧
    ∃ s', Run Step large [.alloc 0x80000000] s' ∧
      Throughout Step NoDoubleAllocation large [.alloc 0x80000000] := by
  have hMax : large.b.max = 0x100000000 := rfl
  obtain ⟨s', hRun⟩ := large_turns_down
  refine ⟨by omega, s', hRun, (noDoubleAllocation_iff large_fresh hRun).mpr ?_⟩
  intro op hMem
  obtain rfl := List.mem_singleton.mp hMem
  exact (large_fresh.turnedDown_iff (by omega)).mpr (by omega)

/-- Six operations after which two live blocks overlap: 128 KiB at `0x260000` and 64 KiB at
`0x270000`. -/
theorem double_allocation : Fresh 19 sample ∧ ∃ s, Run Step sample
    [.alloc 0x10000, .alloc 0x8000, .free 0x238000, .alloc 0x8000, .free 0x258000,
      .alloc 0x20000] s ∧
      s.live.map s.b.span = [⟨0x260000, 0x20000⟩, ⟨0x270000, 0x10000⟩] ∧
      ¬ NoDoubleAllocation s := by
  have hEnd : (sample.performAll 12 [.alloc 0x10000, .alloc 0x8000, .free 0x238000,
      .alloc 0x8000, .free 0x258000, .alloc 0x20000]).map (fun s => s.live.map s.b.span) =
      some [⟨0x260000, 0x20000⟩, ⟨0x270000, 0x10000⟩] := by decide +kernel
  obtain ⟨s, hRun, hSpans⟩ := Option.map_eq_some_iff.mp hEnd
  refine ⟨sample_fresh, s, Sys.performAll_run hRun, hSpans, fun h => ?_⟩
  have hLive := List.pairwise_map.mpr h.live
  rw [hSpans] at hLive
  revert hLive
  decide

/-! ## Representation -/

theorem Fresh.represented {M : Nat} {s : Sys} (hFresh : Fresh M s) : Represented M s := by
  have hRest := hFresh.rest
  have hShape := hFresh.shape
  have hOrder := hShape.order_ge
  obtain ⟨-, ⟨-, hRoot, -, hOthers⟩, hBase⟩ := hFresh.heap
  refine ⟨fun k => if k = 0 then [s.b.baseEntry] else [], ?_, ?_, ?_, ?_, ?_⟩
  · intro k hk
    rw [hShape.maxBucket_eq] at hk
    by_cases hZero : k = 0
    · subst hZero
      have hNe : s.b.headAt 0 ≠ s.b.baseEntry := by
        simpa using hShape.head_ne_entry hk 0 0
      exact circular_singleton hNe hRoot hBase
    · simp only [hZero, if_false]
      exact circular_nil (hOthers k (Nat.pos_of_ne_zero hZero) hk)
  · intro k _ x hx
    by_cases hZero : k = 0
    · subst hZero
      exact ⟨0, by omega, by simpa using hx⟩
    · simp [hZero] at hx
  · intro k _ k' _ hne x hx
    by_cases hZero : k = 0
    · simp [show k' ≠ 0 by omega]
    · simp [hZero] at hx
  · intro k _ j _
    simp [hRest.clear, Xor]
  · intro k _ j _
    simp

/-- The base entry no longer points back at the list it is on. -/
theorem Single.not_represented {M k : Nat} {s : Sys} (hs : Single M k s) :
    ¬ Represented M s := by
  rintro ⟨lists, h⟩
  have hShape := hs.rings.sound.shape
  have hOrder := hShape.order_ge
  have hBuckets : 0 < buddyMaxBucket s.b := by
    rw [hShape.maxBucket_eq]
    omega
  have hEntry := (hs.rings.ring 0 hs.level_pos).2
  rw [hung_zero] at hEntry
  have hBack := (h.ring 0 hBuckets).head_next_prev hs.rings.root hEntry
  have := headAt_inj.mp hBack
  omega

/-- In a completed run lists and bits represent the free blocks exactly when nothing is served. -/
theorem represented_iff {M : Nat} {s s' : Sys} (hFresh : Fresh M s) {ops : List Op}
    (hRun : Run Step s ops s') :
    Throughout Step (Represented M) s ops ↔ ∀ op ∈ ops, TurnedDown s op :=
  hFresh.throughout_iff hFresh.represented (fun _ _ => Single.not_represented) hRun

/-- An area of 4 GiB still has its lists after turning down 2 GiB twice. -/
theorem represented_sample : ∃ s', Run Step large [.alloc 0x80000000, .alloc 0x7FFFFFFF] s' ∧
    Throughout Step (Represented 32) large [.alloc 0x80000000, .alloc 0x7FFFFFFF] := by
  have hMax : large.b.max = 0x100000000 := rfl
  have hSome : (large.performAll 20 [.alloc 0x80000000, .alloc 0x7FFFFFFF]).isSome := by
    decide +kernel
  obtain ⟨s', hAll⟩ := Option.isSome_iff_exists.mp hSome
  have hRun := Sys.performAll_run hAll
  refine ⟨s', hRun, (represented_iff large_fresh hRun).mpr ?_⟩
  intro op hMem
  simp only [List.mem_cons, List.not_mem_nil, or_false] at hMem
  rcases hMem with rfl | rfl
  · exact (large_fresh.turnedDown_iff (by omega)).mpr (by omega)
  · exact (large_fresh.turnedDown_iff (by omega)).mpr (by omega)

/-- Half of a newly built area is enough to break the lists: the entry at the base is still the
first one of list 0, and its own links are those of list 1. -/
theorem first_walk_breaks_lists : Fresh 19 sample ∧ ∃ s, Run Step sample [.alloc 0x40000] s ∧
    s.b.headAt 0 = 0xffff800000110140 ∧
    s.m.heap 0xffff800000110140 = some ⟨0xffff888000200000, 0xffff888000200000⟩ ∧
    s.b.headAt 1 = 0xffff800000110150 ∧
    s.m.heap 0xffff888000200000 = some ⟨0xffff800000110150, 0xffff800000110150⟩ ∧
    ¬ Represented 19 s := by
  have hEnd : (sample.performAll 12 [.alloc 0x40000]).map (fun s =>
      (buddyMaxBucket s.b, s.b.headAt 0, s.m.heap 0xffff800000110140, s.b.headAt 1,
        s.m.heap 0xffff888000200000)) =
      some (8, 0xffff800000110140, some ⟨0xffff888000200000, 0xffff888000200000⟩,
        0xffff800000110150, some ⟨0xffff800000110150, 0xffff800000110150⟩) := by
    decide +kernel
  obtain ⟨s, hAll, hAt⟩ := Option.map_eq_some_iff.mp hEnd
  simp only [Prod.mk.injEq] at hAt
  obtain ⟨hBuckets, hHead, hFirst, hHead', hEntry⟩ := hAt
  refine ⟨sample_fresh, s, Sys.performAll_run hAll, hHead, hFirst, hHead', hEntry, ?_⟩
  rintro ⟨lists, h⟩
  have hRing := h.ring 0 (by omega)
  rw [hHead] at hRing
  have hBack := hRing.head_next_prev hFirst hEntry
  cases hBack

end LunarOS
