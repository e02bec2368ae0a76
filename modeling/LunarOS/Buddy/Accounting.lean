import LunarOS.Buddy.Spine
import Mathlib.Algebra.BigOperators.Group.List.Basic

/-!
# Byte accounting

`Accounted s` says that `available` is what the live blocks leave of `max`. Requests of up to
1 GiB keep it: what is charged is the class size of the block handed out, and a walk never
fails before the first free. Up to 2 GiB they are turned down, and above that the charge has
lost the class size. The first free breaks the law: the bit above the freed block is set, so
the block is merged at least once, and `buddy_free` credits the size of the merged block.
-/

namespace LunarOS

open Logic BuddyArea

/-- Bytes in live blocks, by class size. -/
def Sys.liveBytes (s : Sys) : Nat := (s.live.map fun blk => s.b.classSize blk.bkt).sum

def Accounted (s : Sys) : Prop := s.b.available + s.liveBytes = s.b.max

/-- A request whose class size an `int` can hold, or one that is too large for the area. -/
def Countable (s : Sys) (op : Op) : Prop := ∃ r, op = .alloc r ∧ (r ≤ 2 ^ 31 ∨ s.b.max < r)

section Accounting

variable {M n last r : Nat} {s s' : Sys}

theorem SameFrame.classSize_eq {b b' : BuddyArea} (h : SameFrame b b') (bkt : Nat) :
    b'.classSize bkt = b.classSize bkt := by
  unfold classSize
  rw [h.2.2.2.2]

/-- The class size of a request, seen from its bucket. -/
theorem classSize_bucketOf (hShape : Shape M s.b) (hSize : r ≤ 2 ^ M) :
    s.b.classSize (bucketOf M r) = 2 ^ sizeOrder r := by
  have hFit := sizeOrder_le hShape.order_ge hSize
  unfold bucketOf
  rw [LunarOS.classSize_eq hShape.toSizes (by omega), Nat.sub_sub_self hFit]

/-- A served request moves its charge out of `available` and its class size to the live blocks. -/
theorem liveBytes_served (hShape : Shape M s.b) (hSize : r ≤ 2 ^ M) (hPass : ¬ Refused s.b r)
    (hFrame : SameFrame s.b s'.b) (hAvail : s'.b.available = s.b.available - charge r) {ptr : Nat}
    (hLive : s'.live = ⟨ptr, bucketOf M r⟩ :: s.live) :
    s'.b.available + s'.liveBytes + charge r =
      s.b.available + s.liveBytes + 2 ^ sizeOrder r := by
  have hClass := classSize_bucketOf hShape hSize
  have hSum : s'.liveBytes = 2 ^ sizeOrder r + s.liveBytes := by
    unfold Sys.liveBytes
    simp only [hLive, List.map_cons, List.sum_cons, SameFrame.classSize_eq hFrame, hClass]
  unfold Refused at hPass
  omega

theorem Accounted.available_le (hShape : Shape M s.b) (hAcc : Accounted s) :
    s.b.available ≤ 2 ^ 42 := by
  have hPow : 2 ^ M ≤ 2 ^ 42 := Nat.pow_le_pow_right (by omega) hShape.order_le
  unfold Accounted at hAcc
  rw [hShape.max_eq] at hAcc
  omega

/-- A request for 2 GiB does not pass the test, so what passes is charged its class size. -/
theorem Accounted.charge_eq (hShape : Shape M s.b) (hAcc : Accounted s) (hr : r ≤ 2 ^ 31)
    (hPass : ¬ Refused s.b r) : charge r = 2 ^ sizeOrder r := by
  have hAvail := hAcc.available_le hShape
  have hOrder : sizeOrder r ≤ 31 := sizeOrder_le (by omega) hr
  apply LunarOS.charge_eq
  by_contra hSign
  apply hPass
  have hShift : intShl 31 = 2 ^ 64 - 2 ^ 31 := rfl
  unfold Refused charge
  rw [show sizeOrder r = 31 by omega]
  omega

theorem Accounted.step (hs : Spine M n last s) (hAcc : Accounted s)
    (hr : r ≤ 2 ^ 31 ∨ s.b.max < r) (h : Step s (.alloc r) s') : Accounted s' := by
  have hShape := hs.sound.shape
  rcases hs.alloc h with ⟨-, rfl⟩ | ⟨hPass, hSize, -, hFrame, hAvail, ptr, hLive⟩
  · exact hAcc
  · rw [hShape.max_eq] at hr
    have hSum := liveBytes_served hShape hSize hPass hFrame hAvail hLive
    rw [hAcc.charge_eq hShape (by omega) hPass] at hSum
    have hMax := hFrame.2.2.2.2
    unfold Accounted at *
    omega

/-- The live blocks leave what the left edge of the tree has not yet split. -/
theorem Stacked.sum_le {base : Nat} {live : List Block} (h : Stacked M base n live) (hn : n ≤ M) :
    (live.map fun blk => 2 ^ (M - blk.bkt)).sum + 2 ^ (M - n) ≤ 2 ^ M := by
  induction h with
  | nil => simp
  | @cons n k live _ hk hLe ih =>
    have hRest := ih (by omega)
    have hHalf : 2 ^ (M - n) = 2 * 2 ^ (M - (n + 1)) := by
      rw [← Nat.pow_succ']
      congr 1
      omega
    have hSmall : 2 ^ (M - k) ≤ 2 ^ (M - (n + 1)) := Nat.pow_le_pow_right (by omega) (by omega)
    rw [List.map_cons, List.sum_cons]
    dsimp only
    omega

theorem Spine.liveBytes_le (hs : Spine M n last s) : s.liveBytes + 2 ^ (M - n) ≤ 2 ^ M := by
  have hShape := hs.sound.shape
  have hGe := hShape.order_ge
  have hLast := hs.last_le
  have hn := hs.last_ge
  have hSum := hs.stacked.sum_le (by omega)
  have hClasses : s.liveBytes = (s.live.map fun blk => 2 ^ (M - blk.bkt)).sum := by
    unfold Sys.liveBytes
    congr 1
    refine List.map_congr_left fun blk hMem => ?_
    obtain ⟨-, hLe, -⟩ := hs.stacked.bounds blk hMem
    exact LunarOS.classSize_eq hShape.toSizes (by omega)
  omega

/-- Above 2 GiB the charge is not the class size. -/
theorem Accounted.not_step (hs : Spine M n last s) (hAcc : Accounted s) (hLow : 2 ^ 31 < r)
    (hHigh : r ≤ s.b.max) (h : Step s (.alloc r) s') : ¬ Accounted s' := by
  have hShape := hs.sound.shape
  have hGe := hShape.order_ge
  have hLe := hShape.order_le
  rw [hShape.max_eq] at hHigh
  have hFit := sizeOrder_le hGe hHigh
  have hOrder : 31 < sizeOrder r := by
    have hLow' : sizeOrder r ≤ 31 ↔ r ≤ 2 ^ 31 := sizeOrder_le_iff (by omega)
    omega
  have hCharge : charge r ≤ 2 ^ 10 := by
    unfold charge intShl
    rw [if_neg (by omega)]
    exact Nat.pow_le_pow_right (by omega) (by omega)
  have hRoom := hs.liveBytes_le
  have hLast := hs.last_le
  have hn := hs.last_ge
  have hPage : 2 ^ 12 ≤ 2 ^ (M - n) := Nat.pow_le_pow_right (by omega) (by omega)
  have hClass : 2 ^ 32 ≤ 2 ^ sizeOrder r := Nat.pow_le_pow_right (by omega) (by omega)
  rcases hs.alloc h with ⟨hRefused, -⟩ | ⟨hPass, hSize, -, hFrame, hAvail, ptr, hLive⟩
  · unfold Refused at hRefused
    unfold Accounted at hAcc
    rw [hShape.max_eq] at hAcc
    omega
  · have hSum := liveBytes_served hShape hSize hPass hFrame hAvail hLive
    have hMax := hFrame.2.2.2.2
    unfold Accounted at *
    omega

/-- A block that is merged is credited another size than its own. -/
theorem credit_ne {k l : Nat} (hLe : M ≤ 42) (hLevel : l + 1 ≤ M - 12) (hMerged : k ≤ l) :
    intShl (M - k) ≠ 2 ^ (M - (l + 1)) := by
  have hPow : 2 ^ (M - (l + 1)) ≤ 2 ^ 42 := Nat.pow_le_pow_right (by omega) (by omega)
  unfold intShl
  split
  · unfold wordSize
    omega
  · intro hSame
    have hExponent := Nat.pow_right_injective (Nat.le_refl 2) hSame
    omega

/-- The first free credits more than the block it frees. -/
theorem not_accounted_of_free (hs : Spine M n last s) (hc : Coherent M s) (hAcc : Accounted s)
    {ptr : Nat} (h : Step s (.free ptr) s') : ¬ Accounted s' := by
  obtain ⟨blk, hMem, i, ref, k, j, b1, h1, c, rfl, hi, hPtr, hRef, hOrder, hLoop, hClimb, -,
    rfl⟩ := h.free_inv hc
  obtain ⟨l, e, hTag⟩ := hs.tagged blk hMem
  have hShape := hs.sound.shape
  have hGe := hShape.order_ge
  have hLe := hShape.order_le
  obtain ⟨ref', hRef', hTagOrder⟩ := hTag.record
  obtain rfl := Option.some.inj (hRef.symm.trans hRef')
  have hBucket : (s.m.page ref).order = l + 1 := hTagOrder.trans hTag.bucket
  have hLevel : l + 1 ≤ M - 12 := hBucket ▸ hOrder
  have hIndex : 2 * e + 1 < 2 ^ (l + 1) := by
    have := hTag.index
    rw [Nat.pow_succ]
    omega
  have hNode : i * PGSIZE / 2 ^ (M - (l + 1)) = 2 * e + 1 := by
    have hEq : i * PGSIZE = (2 * e + 1) * 2 ^ (M - (l + 1)) := by
      have := hPtr.symm.trans hTag.address
      unfold blockAt at this
      omega
    rw [hEq, Nat.mul_div_cancel _ (Nat.two_pow_pos _)]
  have hParent : s.b.bit (nodeOf l ((2 * e + 1) / 2)) = true := by
    rw [show (2 * e + 1) / 2 = e by omega]
    exact hTag.parent
  rw [hBucket, hNode] at hLoop
  have hMerged := freeLoop_merges hs.sound hLevel hIndex (Nat.le_refl _) hParent hLoop
  -- the freed block, what is credited, and what was live
  have hFreed : s.b.classSize blk.bkt = 2 ^ (M - (l + 1)) := by
    rw [hTag.bucket, LunarOS.classSize_eq hShape.toSizes (by omega)]
  have hCredit := credit_ne hLe hLevel hMerged
  have hCreditLt := intShl_lt (M - k)
  have hWord : 2 ^ M ≤ 2 ^ 42 := Nat.pow_le_pow_right (by omega) hLe
  have hErase := List.sum_map_erase (fun blk => s.b.classSize blk.bkt) hMem
  have hPos := Nat.two_pow_pos (M - (l + 1))
  intro hAcc'
  unfold Accounted Sys.liveBytes at hAcc hAcc'
  rw [hShape.max_eq] at hAcc
  dsimp only at hAcc'
  have hSame : ∀ bkt, BuddyArea.classSize { b1 with
      available := add64 s.b.available (intShl (M - k)) } bkt = s.b.classSize bkt :=
    fun bkt => SameFrame.classSize_eq hClimb.sameFrame bkt
  simp only [hSame] at hAcc'
  rw [hClimb.sameFrame.2.2.2.2, hShape.max_eq] at hAcc'
  unfold add64 wordSize at hAcc'
  unfold wordSize at hCreditLt
  omega

/-- `available` is right throughout a completed run exactly when the run frees nothing and asks
for no block of more than 2 GiB that the area could hold. -/
theorem accounted_iff {s s' : Sys} (hFresh : Fresh M s) {ops : List Op}
    (hRun : Run Step s ops s') :
    Throughout Step Accounted s ops ↔ ∀ op ∈ ops, Countable s op := by
  let Inv : Sys → Prop := fun t =>
    (∃ n last, Spine M n last t) ∧ Coherent M t ∧ Accounted t ∧ t.b.max = s.b.max
  have hInit : Inv s := by
    refine ⟨⟨0, 0, .of_rest hFresh.rest hFresh.live⟩, hFresh.coherent, ?_, rfl⟩
    simp [Accounted, Sys.liveBytes, hFresh.live, hFresh.available, hFresh.shape.max_eq]
  refine throughout_iff_forall (Countable s) Inv (fun t hInv => hInv.2.2.1) ?_ ?_ hInit hRun
  · rintro t op t' ⟨⟨n, last, hs⟩, hc, hAcc, hMax⟩ ⟨r, rfl, hr⟩ h
    rw [← hMax] at hr
    have hFrame := h.sameFrame hc
    refine ⟨?_, hc.step h, hAcc.step hs hr h, hFrame.2.2.2.2.trans hMax⟩
    rcases hs.alloc h with ⟨-, rfl⟩ | ⟨-, -, hNext, -⟩
    · exact ⟨n, last, hs⟩
    · exact ⟨n + 1, _, hNext⟩
  · rintro t op t' ⟨⟨n, last, hs⟩, hc, hAcc, hMax⟩ hOp h
    cases op with
    | free ptr => exact not_accounted_of_free hs hc hAcc h
    | alloc r =>
      have hLarge : 2 ^ 31 < r ∧ r ≤ t.b.max := by
        rw [hMax]
        by_contra hNot
        exact hOp ⟨r, rfl, by omega⟩
      exact hAcc.not_step hs hLarge.1 hLarge.2 h

theorem accounted_sample : ∃ s, Run Step sample [.alloc 0x10000, .alloc 0x8000] s ∧
    Throughout Step Accounted sample [.alloc 0x10000, .alloc 0x8000] := by
  have hSome : (sample.performAll 12 [.alloc 0x10000, .alloc 0x8000]).isSome := by
    decide +kernel
  obtain ⟨s, hAll⟩ := Option.isSome_iff_exists.mp hSome
  have hRun := Sys.performAll_run hAll
  refine ⟨s, hRun, (accounted_iff sample_fresh hRun).mpr ?_⟩
  intro op hMem
  simp only [List.mem_cons, List.not_mem_nil, or_false] at hMem
  rcases hMem with rfl | rfl
  · exact ⟨_, rfl, Or.inl (by omega)⟩
  · exact ⟨_, rfl, Or.inl (by omega)⟩

/-- Taking 64 KiB and giving them back leaves 960 KiB available of 512. -/
theorem available_exceeds_max : Fresh 19 sample ∧ ∃ s, Run Step sample
    [.alloc 0x10000, .free 0x270000] s ∧ s.b.available = 0xf0000 ∧ s.liveBytes = 0 ∧
      s.b.max = 0x80000 ∧ ¬ Accounted s := by
  have hEnd : (sample.performAll 12 [.alloc 0x10000, .free 0x270000]).map
      (fun s => (s.b.available, s.liveBytes, s.b.max)) = some (0xf0000, 0, 0x80000) := by
    decide +kernel
  obtain ⟨s, hRun, hBytes⟩ := Option.map_eq_some_iff.mp hEnd
  simp only [Prod.mk.injEq] at hBytes
  obtain ⟨hAvailable, hLive, hMax⟩ := hBytes
  refine ⟨sample_fresh, s, Sys.performAll_run hRun, hAvailable, hLive, hMax, ?_⟩
  unfold Accounted
  omega

end Accounting

end LunarOS
