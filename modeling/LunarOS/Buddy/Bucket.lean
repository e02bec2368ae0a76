import LunarOS.Buddy.Geometry
import Mathlib.Data.Nat.Log

/-!
# Size classes (`buddy_find_bkt`)

A request of `r` bytes belongs to the class of blocks of `2^(sizeOrder r)` bytes, the least
power of two that is at least `r` and at least a page. `buddy_find_bkt` doubles `sz` until it
reaches `r` while it counts the bucket down, so it returns `M - sizeOrder r`, as a word:
for a request above `max` the index has wrapped below zero, and above `2^63` the doubled
size wraps to zero and the loop never ends.
-/

namespace LunarOS

open Logic

/-- Size of the blocks of a bucket. -/
def BuddyArea.classSize (b : BuddyArea) (bkt : Nat) : Nat := b.max >>> bkt

def sizeOrder (requested : Nat) : Nat := max 12 (Nat.clog 2 requested)

theorem le_two_pow_sizeOrder (r : Nat) : r ≤ 2 ^ sizeOrder r :=
  (Nat.le_pow_clog (by omega) r).trans (Nat.pow_le_pow_right (by omega) (Nat.le_max_right _ _))

theorem sizeOrder_ge (r : Nat) : 12 ≤ sizeOrder r := Nat.le_max_left _ _

theorem sizeOrder_le {r n : Nat} (hn : 12 ≤ n) (hr : r ≤ 2 ^ n) : sizeOrder r ≤ n :=
  Nat.max_le.mpr ⟨hn, (Nat.clog_le_iff_le_pow (by omega)).mpr hr⟩

theorem sizeOrder_le_iff {r n : Nat} (hn : 12 ≤ n) : sizeOrder r ≤ n ↔ r ≤ 2 ^ n :=
  ⟨fun h => (le_two_pow_sizeOrder r).trans (Nat.pow_le_pow_right (by omega) h),
    fun h => sizeOrder_le hn h⟩

theorem sizeOrder_eq {r n : Nat} (hn : 12 ≤ n) (hLow : 2 ^ n < r) (hHigh : r ≤ 2 ^ (n + 1)) :
    sizeOrder r = n + 1 := by
  have hLe := sizeOrder_le (by omega : 12 ≤ n + 1) hHigh
  have hNot := mt (sizeOrder_le_iff hn).mp (by omega : ¬ r ≤ 2 ^ n)
  omega

theorem sizeOrder_page {r : Nat} (hr : r ≤ 2 ^ 12) : sizeOrder r = 12 :=
  Nat.le_antisymm (sizeOrder_le (Nat.le_refl 12) hr) (sizeOrder_ge r)

/-- The bucket of a request that is not oversize. -/
def bucketOf (M requested : Nat) : Nat := M - sizeOrder requested

theorem bucketOf_le (M r : Nat) : bucketOf M r ≤ M - 12 := by
  have := sizeOrder_ge r
  unfold bucketOf
  omega

theorem sub64_sub64 {a b c : Nat} (ha : a < wordSize) (hbc : b + c ≤ wordSize) :
    sub64 (sub64 a b) c = sub64 a (b + c) := by
  unfold sub64 wordSize at *
  omega

theorem sub64_cancel {a b : Nat} (ha : a < wordSize) (hb : b < wordSize) :
    sub64 a (sub64 a b) = b := by
  unfold sub64 wordSize at *
  omega

section FindBkt

variable {M : Nat} {b : BuddyArea}

theorem findBkt_returns (h : Sizes M b) {r : Nat} (hr : r ≤ 2 ^ 63) :
    Loop.Returns (buddyFindBktStep r) (buddyMaxBucket b, b.min) (sub64 M (sizeOrder r)) := by
  have hGe := h.order_ge
  have hLe := h.order_le
  have hOrder : sizeOrder r ≤ 63 := sizeOrder_le (by omega) hr
  -- after `t` turns the pair is `(M - 11 - t, 2^(12 + t))`
  let Inv : Nat × Nat → Prop := fun p =>
    ∃ t, 12 + t ≤ sizeOrder r ∧ p.1 = sub64 (M - 11) t ∧ p.2 = 2 ^ (12 + t)
  have hStep : ∀ p, Inv p →
      (∃ p', buddyFindBktStep r p = .inl p' ∧ Inv p' ∧
        64 - Nat.log 2 p'.2 < 64 - Nat.log 2 p.2) ∨
      ∃ bkt, buddyFindBktStep r p = .inr bkt ∧ bkt = sub64 M (sizeOrder r) := by
    rintro ⟨bkt, sz⟩ ⟨t, ht, hBkt, hSz⟩
    dsimp only at hBkt hSz
    subst hBkt hSz
    by_cases hlt : 2 ^ (12 + t) < r
    · have hMore : 12 + (t + 1) ≤ sizeOrder r := by
        by_contra hEnd
        have := le_two_pow_sizeOrder r
        rw [show sizeOrder r = 12 + t by omega] at this
        omega
      have hDouble : shl64 (2 ^ (12 + t)) 1 = 2 ^ (12 + (t + 1)) := by
        rw [shl64_eq (by omega), ← Nat.pow_add, Nat.add_assoc]
        rw [← Nat.pow_add]
        exact two_pow_lt_word (by omega)
      left
      refine ⟨(sub64 (sub64 (M - 11) t) 1, shl64 (2 ^ (12 + t)) 1), ?_, ⟨t + 1, hMore, ?_, hDouble⟩,
        ?_⟩
      · simp [buddyFindBktStep, hlt]
      · exact sub64_sub64 (by unfold wordSize; omega) (by unfold wordSize; omega)
      · rw [hDouble, Nat.log_pow (by omega), Nat.log_pow (by omega)]
        omega
    · right
      refine ⟨sub64 (sub64 (M - 11) t) 1, by simp [buddyFindBktStep, hlt], ?_⟩
      have hEq : sizeOrder r = 12 + t := by
        have := sizeOrder_le (by omega : 12 ≤ 12 + t) (Nat.le_of_not_lt hlt)
        omega
      rw [hEq, sub64_sub64 (by unfold wordSize; omega) (by unfold wordSize; omega)]
      unfold sub64 wordSize
      omega
  have hInit : Inv (buddyMaxBucket b, b.min) := by
    refine ⟨0, sizeOrder_ge r, ?_, ?_⟩
    · rw [h.maxBucket_eq, sub64_eq (by omega) (by unfold wordSize; omega)]
      rfl
    · rw [h.min_eq]
      rfl
  obtain ⟨bkt, hRun, rfl⟩ := Loop.run_of_variant Inv (fun p => 64 - Nat.log 2 p.2) _ hStep hInit
    (Nat.le_refl _)
  exact ⟨_, hRun⟩

theorem findBkt_diverges (h : Sizes M b) {r : Nat} (hr : 2 ^ 63 < r) :
    Loop.Diverges (buddyFindBktStep r) (buddyMaxBucket b, b.min) := by
  -- `sz` is a power of two up to `2^63`, then zero
  refine Loop.diverges_of_invariant (fun p => p.2 = 0 ∨ ∃ t, t ≤ 51 ∧ p.2 = 2 ^ (12 + t)) ?_
    (Or.inr ⟨0, by omega, by rw [h.min_eq]; rfl⟩)
  rintro ⟨bkt, sz⟩ hInv
  have hlt : sz < r := by
    rcases hInv with rfl | ⟨t, ht, rfl⟩
    · omega
    · have : 2 ^ (12 + t) ≤ 2 ^ 63 := Nat.pow_le_pow_right (by omega) (by omega)
      omega
  refine ⟨(sub64 bkt 1, shl64 sz 1), by simp [buddyFindBktStep, hlt], ?_⟩
  rcases hInv with rfl | ⟨t, ht, rfl⟩
  · left
    rfl
  · by_cases hLast : t = 51
    · subst hLast
      left
      rfl
    · right
      refine ⟨t + 1, by omega, ?_⟩
      have hLt : 2 ^ (12 + t) * 2 ^ 1 < wordSize := by
        rw [← Nat.pow_add]
        exact two_pow_lt_word (by omega)
      exact (shl64_eq (by omega) hLt).trans (by rw [← Nat.pow_add, Nat.add_assoc])

/-- Whenever `buddy_find_bkt` returns, this is what. -/
theorem findBkt_some (h : Sizes M b) {fuel r bkt : Nat}
    (hSome : buddyFindBkt fuel b r = some bkt) :
    r ≤ 2 ^ 63 ∧ bkt = sub64 M (sizeOrder r) := by
  have hr : r ≤ 2 ^ 63 := by
    by_contra hgt
    have hNone := findBkt_diverges h (by omega : 2 ^ 63 < r) fuel
    unfold buddyFindBkt at hSome
    rw [hNone] at hSome
    cases hSome
  exact ⟨hr, Loop.Returns.unique ⟨fuel, hSome⟩ (findBkt_returns h hr)⟩

theorem findBkt_exists (h : Sizes M b) {r : Nat} (hr : r ≤ 2 ^ 63) :
    ∃ fuel, buddyFindBkt fuel b r = some (sub64 M (sizeOrder r)) := findBkt_returns h hr

/-- Inside the arena's size the bucket is a proper index. -/
theorem bucket_eq (h : Sizes M b) {r : Nat} (hr : r ≤ 2 ^ M) :
    sub64 M (sizeOrder r) = bucketOf M r := by
  have hLe := h.order_le
  exact sub64_eq (sizeOrder_le h.order_ge hr) (by unfold wordSize; omega)

/-- Above it the index is no bucket at all. -/
theorem bucket_wraps (h : Sizes M b) {r : Nat} (hr : 2 ^ M < r) (hr' : r ≤ 2 ^ 63) :
    M - 11 ≤ sub64 M (sizeOrder r) := by
  have hLe := h.order_le
  have hUp : sizeOrder r ≤ 63 := sizeOrder_le (by omega) hr'
  have hOver : M < sizeOrder r := by
    by_contra hle
    have := (sizeOrder_le_iff h.order_ge).mp (Nat.le_of_not_lt hle)
    omega
  rw [sub64_borrow hOver (by unfold wordSize; omega)]
  unfold wordSize
  omega

/-- The size that `buddy_alloc` charges. -/
theorem realsz_eq (h : Sizes M b) {r : Nat} (hr : r ≤ 2 ^ 63) :
    intShl (sub64 (log2 b.max) (sub64 M (sizeOrder r))) = intShl (sizeOrder r) := by
  have hLe := h.order_le
  have hUp : sizeOrder r ≤ 63 := sizeOrder_le (by omega) hr
  rw [h.log2_max, sub64_cancel (by unfold wordSize; omega) (by unfold wordSize; omega)]

theorem classSize_eq (h : Sizes M b) {k : Nat} (hk : k ≤ M) : b.classSize k = 2 ^ (M - k) := by
  unfold BuddyArea.classSize
  rw [h.max_eq, Nat.shiftRight_eq_div_pow, Nat.pow_div hk (by omega)]

end FindBkt

/-! ## The class is the least one -/

theorem pow_sizeOrder_le {r m : Nat} (hr : r ≤ 2 ^ m) (hPage : PGSIZE ≤ 2 ^ m) :
    2 ^ sizeOrder r ≤ 2 ^ m := by
  have hOrder : 2 ^ 12 ≤ 2 ^ m := hPage
  have hLow : 12 ≤ m := (Nat.pow_le_pow_iff_right (by omega)).mp hOrder
  exact Nat.pow_le_pow_right (by omega) (sizeOrder_le hLow hr)

theorem half_pow_sizeOrder (r : Nat) :
    2 ^ sizeOrder r / 2 < r ∨ 2 ^ sizeOrder r / 2 < PGSIZE := by
  have hGe := sizeOrder_ge r
  have hHalf : 2 ^ sizeOrder r / 2 = 2 ^ (sizeOrder r - 1) := by
    obtain ⟨n, hn⟩ := Nat.exists_eq_add_of_le hGe
    rw [hn, show 12 + n = 12 + n - 1 + 1 by omega, Nat.pow_succ, Nat.mul_div_cancel _ (by omega)]
    rfl
  rw [hHalf]
  by_cases hPage : sizeOrder r = 12
  · right
    rw [hPage]
    decide
  · left
    by_contra hle
    have hLess := sizeOrder_le (by omega : 12 ≤ sizeOrder r - 1) (Nat.le_of_not_lt hle)
    omega

/-- `buddy_find_bkt` and the size that `buddy_alloc` computes again from the bucket. -/
theorem size_class_tight {M : Nat} {b : BuddyArea} (hGe : 12 ≤ M) (hLe : M ≤ 30)
    (hMax : b.max = 2 ^ M) (hMin : b.min = PGSIZE) {requested : Nat} (hr : requested ≤ b.max) :
    ∃ fuel bkt realsz, buddyFindBkt fuel b requested = some bkt ∧ bkt < buddyMaxBucket b ∧
      realsz = intShl (sub64 (log2 b.max) bkt) ∧ (∃ m, realsz = 2 ^ m) ∧
      requested ≤ realsz ∧ PGSIZE ≤ realsz ∧
      (realsz / 2 < requested ∨ realsz / 2 < PGSIZE) ∧
      ∀ m, requested ≤ 2 ^ m → PGSIZE ≤ 2 ^ m → realsz ≤ 2 ^ m := by
  -- the loop reads the two sizes only
  have h : Sizes M { b with base := 0, treeSz := intShl (M - 11) } := by
    have hSmall : 2 ^ M ≤ 2 ^ 62 := Nat.pow_le_pow_right (by omega) (by omega)
    exact ⟨hGe, by omega, hMax, hMin, rfl, by dsimp only; omega⟩
  rw [hMax] at hr
  have hOrder : sizeOrder requested ≤ M := sizeOrder_le hGe hr
  have hWord : requested ≤ 2 ^ 63 := hr.trans (Nat.pow_le_pow_right (by omega) (by omega))
  obtain ⟨fuel, hRun⟩ := findBkt_exists h hWord
  have hSize := (realsz_eq h hWord).trans (intShl_eq (by omega))
  have hPage : 2 ^ 12 ≤ 2 ^ sizeOrder requested :=
    Nat.pow_le_pow_right (by omega) (sizeOrder_ge requested)
  refine ⟨fuel, _, 2 ^ sizeOrder requested, hRun, ?_, hSize.symm, ⟨_, rfl⟩,
    le_two_pow_sizeOrder requested, hPage, half_pow_sizeOrder requested,
    fun m hm hPage => pow_sizeOrder_le hm hPage⟩
  have hBucket := bucketOf_le M requested
  rw [bucket_eq h hr, buddyMaxBucket_eq hGe (by omega) hMax hMin]
  omega

/-- A request of one byte over a page, in an area of four pages. -/
theorem size_class_tight_sample :
    ∃ fuel bkt realsz,
      let b : BuddyArea := { base := 0, tree := fun _ => 0, treeSz := 8, freelist := 0,
                             min := PGSIZE, max := 2 ^ 14, available := 2 ^ 14 }
      buddyFindBkt fuel b 4097 = some bkt ∧ bkt < buddyMaxBucket b ∧
      realsz = intShl (sub64 (log2 b.max) bkt) ∧ (∃ m, realsz = 2 ^ m) ∧
      4097 ≤ realsz ∧ PGSIZE ≤ realsz ∧ (realsz / 2 < 4097 ∨ realsz / 2 < PGSIZE) ∧
      ∀ m, 4097 ≤ 2 ^ m → PGSIZE ≤ 2 ^ m → realsz ≤ 2 ^ m :=
  size_class_tight (M := 14) (by decide) (by decide) rfl rfl (by decide)

end LunarOS
