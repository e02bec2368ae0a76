import LunarOS.Buddy.Edge

/-!
# A newly built area (`buddy_area_init`)

`Rest` describes an area with nothing handed out: no bit is set, the block at `base` hangs
off `freelist[0]` and every other list is empty. `Fresh.rest` shows that `buddy_area_init`
leaves this state, with all of the arena available.
-/

namespace LunarOS

open Logic BuddyArea

/-- Nothing is handed out. The back link of the base entry is left open: only a newly built
area has the right one. -/
structure Rest (M : Nat) (physMem : List MemArea) (b : BuddyArea) (h : Heap) : Prop where
  sound : Sound M physMem b h
  clear : ∀ n, b.bit n = false
  root : h (b.headAt 0) = some ⟨b.baseEntry, b.baseEntry⟩
  base : ∃ back, h b.baseEntry = some ⟨back, b.headAt 0⟩
  others : ∀ k, 0 < k → k < M - 11 → h (b.headAt k) = some ⟨b.headAt k, b.headAt k⟩

theorem freelistInit_eq (h : Heap) (freelist count x : Nat) :
    freelistInit h freelist count x =
      if ∃ i < count, x = freelist + 16 * i then some ⟨x, x⟩ else h x := by
  induction count with
  | zero => simp [freelistInit]
  | succ count ih =>
    have hSucc : freelistInit h freelist (count + 1) =
        listInit (freelistInit h freelist count) (freelist + 16 * count) := by
      simp [freelistInit, List.range_succ]
    rw [hSucc]
    unfold listInit Heap.write
    by_cases hx : x = freelist + 16 * count
    · have hIn : ∃ i < count + 1, x = freelist + 16 * i := ⟨count, by omega, hx⟩
      rw [if_pos hx, if_pos hIn, hx]
    · rw [if_neg hx, ih]
      have hIff : (∃ i < count, x = freelist + 16 * i) ↔
          ∃ i < count + 1, x = freelist + 16 * i := by
        constructor
        · rintro ⟨i, hi, h⟩
          exact ⟨i, by omega, h⟩
        · rintro ⟨i, hi, h⟩
          refine ⟨i, ?_, h⟩
          by_contra hge
          obtain rfl : i = count := by omega
          exact hx h
      simp only [hIff]

theorem buddyMaxBucket_congr {b b' : BuddyArea} (hMax : b'.max = b.max) (hMin : b'.min = b.min) :
    buddyMaxBucket b' = buddyMaxBucket b := by
  unfold buddyMaxBucket
  rw [hMax, hMin]

/-- The area and the heap that a successful `buddy_area_init` leaves. -/
theorem buddyAreaInit_ok {σ : Type} {alloc : σ → Nat → Option Nat × σ} {st st' : σ} {h h' : Heap}
    {base max self : Nat} {b : BuddyArea}
    (hOk : buddyAreaInit alloc st h base max = .ok (some (self, b), h', st')) :
    b.base = base ∧ b.min = PGSIZE ∧ b.max = max ∧ b.available = max ∧ (∀ i, b.tree i = 0) ∧
      b.treeSz = intShl (buddyMaxBucket b) ∧ ∃ head,
      freelistAt b 0 = .ok head ∧
      buddyPushback (freelistInit (listInit h (self + BuddyArea.headOffset)) b.freelist
        (buddyMaxBucket b)) head base = .ok h' := by
  unfold buddyAreaInit at hOk
  split at hOk
  · cases hOk
  · dsimp only at hOk
    split at hOk
    · cases hOk
    · split at hOk
      · cases hOk
      · obtain ⟨head, hHead, hOk⟩ := bind_eq_ok.mp hOk
        obtain ⟨heap, hPush, hOk⟩ := bind_eq_ok.mp hOk
        cases hOk
        refine ⟨rfl, rfl, rfl, rfl, fun _ => rfl, ?_, head, hHead, ?_⟩
        · rw [Nat.div_one]
          exact congrArg intShl (buddyMaxBucket_congr rfl rfl)
        · rw [buddyMaxBucket_congr]
          · exact hPush
          · rfl
          · rfl

/-- `buddy_area_init` makes an area of the size it is asked for. -/
theorem Extent.of_init {σ : Type} {alloc : σ → Nat → Option Nat × σ} {st st' : σ} {h h' : Heap}
    {M base self : Nat} {b : BuddyArea} (hGe : 12 ≤ M) (hLe : M ≤ 63)
    (hEnd : base + 2 ^ M ≤ wordSize)
    (hOk : buddyAreaInit alloc st h base (2 ^ M) = .ok (some (self, b), h', st')) :
    Extent M b := by
  obtain ⟨hBase, hMin, hMax, -, -, hTree, -⟩ := buddyAreaInit_ok hOk
  refine ⟨hGe, hLe, hMax, hMin, ?_, hBase ▸ hEnd⟩
  rw [hTree, buddyMaxBucket_eq hGe hLe hMax hMin]

theorem Sizes.of_init {σ : Type} {alloc : σ → Nat → Option Nat × σ} {st st' : σ} {h h' : Heap}
    {M base self : Nat} {b : BuddyArea} (hGe : 12 ≤ M) (hLe : M ≤ 42)
    (hEnd : base + 2 ^ M ≤ 2 ^ 62)
    (hOk : buddyAreaInit alloc st h base (2 ^ M) = .ok (some (self, b), h', st')) :
    Sizes M b := by
  have hExtent := Extent.of_init hGe (by omega) (by unfold wordSize; omega) hOk
  exact ⟨hGe, hLe, hExtent.max_eq, hExtent.min_eq, hExtent.treeSz_eq,
    (buddyAreaInit_ok hOk).1 ▸ hEnd⟩

/-- What `buddy_area_init` makes of the heap. -/
structure Built (M at_ : Nat) (b : BuddyArea) (h h' : Heap) : Prop where
  placed : Placed M b h'
  edge : Edge M 0 b h'
  entry : h' b.baseEntry = some ⟨b.headAt 0, b.headAt 0⟩
  node : (∀ k < M - 11, at_ + BuddyArea.headOffset ≠ b.headAt k) →
    h' (at_ + BuddyArea.headOffset) =
      some ⟨at_ + BuddyArea.headOffset, at_ + BuddyArea.headOffset⟩
  grows : ∀ x, (h x).isSome → (h' x).isSome
  outside : ∀ x, x ≠ at_ + BuddyArea.headOffset → ¬ b.Owns M x → h' x = h x
  back : ∀ x c, h' x = some c → c.prev = b.headAt 0 →
    x = b.baseEntry ∨ x = at_ + BuddyArea.headOffset ∨ h x = some c

theorem freelistInit_listInit (h : Heap) (node freelist count x : Nat) :
    freelistInit (listInit h node) freelist count x =
      if ∃ i < count, x = freelist + 16 * i then some ⟨x, x⟩
      else if x = node then some ⟨x, x⟩ else h x := by
  rw [freelistInit_eq]
  unfold listInit Heap.write
  split
  · rfl
  · split
    · next hx => rw [hx]
    · rfl

/-- The heap before the base block is pushed: the node of the structure and the list heads point
at themselves. -/
def Emptied (M node : Nat) (b : BuddyArea) (h h0 : Heap) : Prop :=
  ∀ x, h0 x = if ∃ k < M - 11, x = b.headAt k then some ⟨x, x⟩
    else if x = node then some ⟨x, x⟩ else h x

namespace Emptied

variable {M node x : Nat} {b : BuddyArea} {h h0 : Heap} (hEmptied : Emptied M node b h h0)
include hEmptied

theorem head {k : Nat} (hk : k < M - 11) : h0 (b.headAt k) = some ⟨b.headAt k, b.headAt k⟩ :=
  (hEmptied _).trans (if_pos ⟨k, hk, rfl⟩)

theorem not_head (hHead : ∀ k < M - 11, x ≠ b.headAt k) :
    h0 x = if x = node then some ⟨x, x⟩ else h x := by
  refine (hEmptied x).trans (if_neg ?_)
  rintro ⟨k, hk, hEq⟩
  exact hHead k hk hEq

theorem grows (hx : (h x).isSome) : (h0 x).isSome := by
  rw [hEmptied]
  split
  · rfl
  · split
    · rfl
    · exact hx

theorem placed (hSizes : Sizes M b) (hNode : VMM_KERNEL_START ≤ node ∧ node < wordSize)
    (hHeads : VMM_KERNEL_START ≤ b.freelist)
    (hHeads' : b.freelist + 16 * (M - 11) ≤ VMM_RESERVED_DM_START)
    (hKernel : ∀ a, (h a).isSome → VMM_KERNEL_START ≤ a ∧ a < wordSize) : Placed M b h0 := by
  refine ⟨hSizes, hHeads', ?_⟩
  intro a ha
  rw [hEmptied] at ha
  split at ha
  · next hMem =>
    obtain ⟨k, hk, rfl⟩ := hMem
    unfold VMM_RESERVED_DM_START at hHeads'
    unfold BuddyArea.headAt wordSize
    omega
  · split at ha
    · next hEq => exact hEq ▸ hNode
    · exact hKernel a ha

/-- What the push leaves of the other nodes. -/
theorem pushed_outside (hM : 12 ≤ M) (hBase : x ≠ b.baseEntry)
    (hHead : ∀ k < M - 11, x ≠ b.headAt k) :
    linked h0 (b.headAt 0) b.baseEntry (b.headAt 0) x =
      if x = node then some ⟨x, x⟩ else h x := by
  have hFirst := hHead 0 (by omega)
  rw [linked_outside hBase hFirst hFirst, hEmptied.not_head hHead]

theorem pushed_head (hPlaced : Placed M b h0) {k : Nat} (hk : k < M - 11) :
    linked h0 (b.headAt 0) b.baseEntry (b.headAt 0) (b.headAt k) =
      if k = 0 then some ⟨b.baseEntry, b.baseEntry⟩ else some ⟨b.headAt k, b.headAt k⟩ := by
  have hNe : b.headAt k ≠ b.baseEntry := by simpa using hPlaced.head_ne_entry hk 0 0
  rw [linked_of_ne (hEmptied.head hk) hNe]
  by_cases hZero : k = 0
  · simp [hZero]
  · have hOther : b.headAt k ≠ b.headAt 0 := mt headAt_inj.mp hZero
    simp [hZero, hOther]

theorem pushed_edge (hPlaced : Placed M b h0) (hClear : ∀ n, b.bit n = false) :
    Edge M 0 b (linked h0 (b.headAt 0) b.baseEntry (b.headAt 0)) := by
  have hM := hPlaced.sizes.order_ge
  refine ⟨?_, ?_, by omega, ?_⟩
  · intro n
    simp [hClear]
  · exact (hEmptied.pushed_head hPlaced (by omega)).trans (if_pos rfl)
  · intro k hPos hk
    exact (hEmptied.pushed_head hPlaced hk).trans (if_neg (by omega))

end Emptied

theorem Emptied.built {M self : Nat} {b : BuddyArea} {h h0 : Heap}
    (hEmptied : Emptied M (self + BuddyArea.headOffset) b h h0) (hPlaced : Placed M b h0)
    (hClear : ∀ n, b.bit n = false) (hEntry : (h0 b.baseEntry).isSome)
    (hNode : self + BuddyArea.headOffset ≠ b.baseEntry) :
    Built M self b h (linked h0 (b.headAt 0) b.baseEntry (b.headAt 0)) := by
  have hM := hPlaced.sizes.order_ge
  have hSame := linked_sameNodes hEntry (b.headAt 0) (b.headAt 0)
  refine ⟨hPlaced.congr (.refl b) hSame, hEmptied.pushed_edge hPlaced hClear, linked_entry ..,
    ?_, ?_, ?_, ?_⟩
  · intro hHead
    exact (hEmptied.pushed_outside hM hNode hHead).trans (if_pos rfl)
  · intro x hx
    rw [hSame]
    exact hEmptied.grows hx
  · intro x hx hOwns
    have hBase : x ≠ b.baseEntry := by
      rintro rfl
      exact hOwns (Or.inr ⟨0, Nat.two_pow_pos _, by simp⟩)
    have hHead : ∀ k < M - 11, x ≠ b.headAt k := by
      rintro k hk rfl
      exact hOwns (owns_head hk)
    exact (hEmptied.pushed_outside hM hBase hHead).trans (if_neg hx)
  · intro x c hx hBack
    by_cases hBase : x = b.baseEntry
    · exact Or.inl hBase
    · have hHead : ∀ k < M - 11, x ≠ b.headAt k := by
        rintro k hk rfl
        rw [hEmptied.pushed_head hPlaced hk] at hx
        split at hx
        · obtain rfl := Option.some.inj hx
          exact hPlaced.head_ne_entry (k := 0) (by omega) 0 0 (by simpa using hBack.symm)
        · next hMore =>
          obtain rfl := Option.some.inj hx
          exact hMore (headAt_inj.mp hBack)
      rw [hEmptied.pushed_outside hM hBase hHead] at hx
      split at hx
      · next hEq => exact Or.inr (Or.inl hEq)
      · exact Or.inr (Or.inr hx)

theorem buddyAreaInit_built {σ : Type} {alloc : σ → Nat → Option Nat × σ} {st st' : σ}
    {h h' : Heap} {M base self : Nat} {b : BuddyArea}
    (hKernel : ∀ a, (h a).isSome → VMM_KERNEL_START ≤ a ∧ a < wordSize) (hSizes : Sizes M b)
    (hSelf : VMM_KERNEL_START ≤ self) (hSelf' : self + BuddyArea.size ≤ VMM_RESERVED_DM_START)
    (hHeads : VMM_KERNEL_START ≤ b.freelist)
    (hHeads' : b.freelist + 16 * (M - 11) ≤ VMM_RESERVED_DM_START)
    (hOk : buddyAreaInit alloc st h base (2 ^ M) = .ok (some (self, b), h', st')) :
    Built M self b h h' := by
  have hGe := hSizes.order_ge
  obtain ⟨hBase, -, -, -, hTree, -, head, hHead, hPush⟩ := buddyAreaInit_ok hOk
  rw [hSizes.freelistAt_eq (by omega)] at hHead
  obtain rfl := Except.ok.inj hHead
  rw [hSizes.maxBucket_eq, ← hBase, ← blockAt_zero b M 0] at hPush
  have hEmptied : Emptied M (self + BuddyArea.headOffset) b h _ :=
    freelistInit_listInit h (self + BuddyArea.headOffset) b.freelist (M - 11)
  have hNode : VMM_KERNEL_START ≤ self + BuddyArea.headOffset ∧
      self + BuddyArea.headOffset < VMM_RESERVED_DM_START := by
    unfold BuddyArea.size at hSelf'
    unfold BuddyArea.headOffset
    omega
  have hWord : VMM_RESERVED_DM_START < wordSize := by decide
  have hPlaced := hEmptied.placed hSizes ⟨hNode.1, hNode.2.trans hWord⟩ hHeads hHeads' hKernel
  obtain ⟨c, hc, hEntry, rfl⟩ := hPlaced.pushback_ok (by omega) (Nat.zero_le _) Nat.one_pos hPush
  rw [hEmptied.head (by omega)] at hc
  obtain rfl := Option.some.inj hc
  rw [entryAt_zero] at hEntry ⊢
  refine hEmptied.built hPlaced (fun n => by simp [BuddyArea.bit, hTree]) hEntry ?_
  unfold baseEntry
  omega

section Fresh

variable {M : Nat} {s : Sys}

theorem Fresh.shape (hFresh : Fresh M s) : Shape M s.b := by
  obtain ⟨⟨h, σ, alloc, st, st', self, hGround, hOk, -, -⟩, hGe, hLe, -⟩ := hFresh
  have hWindow := hGround.window
  have hEnd : s.b.base + 2 ^ M ≤ 2 ^ 62 := by
    unfold dmSize at hWindow
    omega
  exact ⟨.of_init hGround.order_ge hGround.order_le hEnd hOk, hWindow, hGe, hLe⟩

theorem Fresh.available (hFresh : Fresh M s) : s.b.available = 2 ^ M := by
  obtain ⟨⟨_, _, _, _, _, _, -, hOk, -, -⟩, -, -, -⟩ := hFresh
  exact (buddyAreaInit_ok hOk).2.2.2.1

/-- The heap of a newly built area: every list head, and the entry of the block at `base`. -/
theorem Fresh.heap (hFresh : Fresh M s) :
    Ground M s.b.base s.m.heap s.m.physMem ∧ Edge M 0 s.b s.m.heap ∧
      s.m.heap s.b.baseEntry = some ⟨s.b.headAt 0, s.b.headAt 0⟩ := by
  have hShape := hFresh.shape
  obtain ⟨⟨h, σ, alloc, st, st', self, hGround, hOk, hSelf, hSelf'⟩, hGe, hLe, -⟩ := hFresh
  have hBuilt := buddyAreaInit_built hGround.kernel hShape.toSizes hSelf hSelf' hGe hLe hOk
  refine ⟨?_, hBuilt.edge, hBuilt.entry⟩
  exact ⟨hGround.order_ge, hGround.order_le, hGround.window,
    fun j hj => hBuilt.grows _ (hGround.cell j hj), hBuilt.placed.kernel, hGround.record,
    hGround.own, hGround.physical⟩

theorem Fresh.rest (hFresh : Fresh M s) : Rest M s.m.physMem s.b s.m.heap := by
  have hShape := hFresh.shape
  have hLe := hShape.order_le
  obtain ⟨hGround, ⟨hBit, hRoot, -, hOthers⟩, hBase⟩ := hFresh.heap
  have hClear : ∀ n, s.b.bit n = false := by
    intro n
    by_contra hSet
    obtain ⟨l, hl, -⟩ := (hBit n).mp (by simpa using hSet)
    omega
  have hAvail : s.b.available < wordSize := by
    rw [hFresh.available]
    exact two_pow_lt_word (by omega)
  refine ⟨⟨hShape, hGround, ?_, hAvail⟩, hClear, hRoot, ⟨_, hBase⟩, hOthers⟩
  intro k hk
  rcases Nat.eq_zero_or_pos k with rfl | hPos
  · exact ⟨_, hRoot, by simp [hBase]⟩
  · exact ⟨_, hOthers k hPos hk, by simp [hOthers k hPos hk]⟩

end Fresh

/-! ## Concrete areas

512 KiB at `0x200000`, inside one memory area, and 4 GiB at `0x100000000`, both built with a bump
allocator. -/

def bumpAlloc (next sz : Nat) : Option Nat × Nat := (some next, next + sz)

/-- One node in each page of the arena. -/
def pagesHeap (base M : Nat) : Heap := fun a =>
  if base + VMM_RESERVED_DM_START ≤ a ∧ a < base + VMM_RESERVED_DM_START + 2 ^ M ∧ a % PGSIZE = 0
    then some ⟨0, 0⟩ else none

/-- Memory from 1 MiB on. -/
def oneArea (len : Nat) : List MemArea := [{ addr := 0x100000, len, mapSz := len / PGSIZE }]

def sample : Sys :=
  match buddyAreaInit bumpAlloc 0xffff800000110000 (pagesHeap 0x200000 19) 0x200000 0x80000 with
  | .ok (some (_, b), heap, _) => ⟨b, ⟨heap, oneArea 0x400000, fun _ => {}⟩, []⟩
  | _ => ⟨⟨0, fun _ => 0, 0, 0, 0, 0, 0⟩, ⟨fun _ => none, [], fun _ => {}⟩, []⟩

def large : Sys :=
  match buddyAreaInit bumpAlloc 0xffff800000110000 (pagesHeap 0x100000000 32) 0x100000000
    0x100000000 with
  | .ok (some (_, b), heap, _) => ⟨b, ⟨heap, oneArea 0x200000000, fun _ => {}⟩, []⟩
  | _ => ⟨⟨0, fun _ => 0, 0, 0, 0, 0, 0⟩, ⟨fun _ => none, [], fun _ => {}⟩, []⟩

theorem oneArea_phys2page {len a : Nat} (hLow : 0x100000 ≤ a) (hHigh : a ≤ 0x100000 + len)
    (hLen : len < 2 ^ 62) :
    phys2page (oneArea len) a = some ⟨0, a / PGSIZE - 0x100⟩ := by
  have hEnd : ¬ add64 0x100000 len < a := by
    rw [add64_eq (by unfold wordSize; omega)]
    omega
  have hPfn : sub64 (pfn a) (pfn 0x100000) = a / PGSIZE - 0x100 := by
    unfold pfn PGSIZE
    rw [sub64_eq (by omega) (by unfold wordSize; omega)]
  unfold phys2page oneArea
  rw [if_neg (by omega)]
  simp only [phys2pageFrom, if_neg hEnd, hPfn]

theorem pagesHeap_kernel {base M : Nat} (hWindow : base + 2 ^ M ≤ dmSize) (a : Nat)
    (ha : (pagesHeap base M a).isSome) : VMM_KERNEL_START ≤ a ∧ a < wordSize := by
  unfold pagesHeap at ha
  split at ha
  · unfold VMM_RESERVED_DM_START dmSize VMM_KERNEL_START wordSize at *
    omega
  · cases ha

theorem oneArea_ground {M base len : Nat} (hGe : 12 ≤ M) (hLe : M ≤ 42) (hBase : PGSIZE ∣ base)
    (hLow : 0x100000 ≤ base) (hHigh : base + 2 ^ M ≤ len) (hWindow : base + 2 ^ M ≤ dmSize)
    (hLen : len < 2 ^ 46) : Ground M base (pagesHeap base M) (oneArea len) := by
  have hArena : 2 ^ (M - 12) * PGSIZE = 2 ^ M := by
    rw [show PGSIZE = 2 ^ 12 from rfl, ← Nat.pow_add]
    congr 1
    omega
  obtain ⟨q, rfl⟩ := hBase
  have hRecord : ∀ j < 2 ^ (M - 12),
      phys2page (oneArea len) (PGSIZE * q + j * PGSIZE) = some ⟨0, q + j - 0x100⟩ := by
    intro j hj
    unfold PGSIZE at *
    rw [oneArea_phys2page (by omega) (by omega) (by omega)]
    unfold PGSIZE
    rw [show (4096 * q + j * 4096) / 4096 = q + j by omega]
  refine ⟨hGe, hLe, hWindow, ?_, ?_, ?_, ?_, ?_⟩
  · intro j hj
    have hVirt : vmmPhys2virt (PGSIZE * q + j * PGSIZE) =
        PGSIZE * q + j * PGSIZE + VMM_RESERVED_DM_START := by
      apply vmmPhys2virt_eq
      unfold PGSIZE at *
      omega
    rw [hVirt]
    unfold pagesHeap
    rw [if_pos]
    · rfl
    · unfold PGSIZE VMM_RESERVED_DM_START at *
      omega
  · exact pagesHeap_kernel hWindow
  · intro j hj
    refine ⟨_, hRecord j hj, _, rfl, ?_⟩
    dsimp only
    unfold PGSIZE at *
    omega
  · intro i hi j hj hEq
    rw [hRecord i hi, hRecord j hj] at hEq
    have hIndex := congrArg PageRef.index (Option.some.inj hEq)
    dsimp only at hIndex
    unfold PGSIZE at *
    omega
  · intro _ a ha
    have hPast : add64 0x100000 len < a := by
      rw [add64_eq (by unfold wordSize; omega)]
      unfold VMM_KERNEL_START at ha
      omega
    unfold VMM_KERNEL_START at ha
    unfold phys2page oneArea
    rw [if_neg (by omega)]
    simp only [phys2pageFrom, if_pos hPast]

theorem sample_built :
    buddyAreaInit bumpAlloc 0xffff800000110000 (pagesHeap 0x200000 19) 0x200000 0x80000 =
      .ok (some (0xffff800000110000, sample.b), sample.m.heap, 0xffff8000001101c0) := rfl

theorem sample_fresh : Fresh 19 sample := by
  have hMax : 2 ^ 19 = 0x80000 := rfl
  have hFreelist : sample.b.freelist = 0xffff800000110140 := rfl
  have hGround : Ground 19 0x200000 (pagesHeap 0x200000 19) (oneArea 0x400000) :=
    oneArea_ground (by omega) (by omega) (by decide) (by omega) (by omega) (by decide) (by omega)
  refine ⟨⟨_, Nat, bumpAlloc, 0xffff800000110000, 0xffff8000001101c0, 0xffff800000110000, hGround,
    ?_, ?_, ?_⟩, ?_, ?_, rfl⟩
  · rw [hMax]
    exact sample_built
  · unfold VMM_KERNEL_START
    omega
  · unfold BuddyArea.size VMM_RESERVED_DM_START
    omega
  · rw [hFreelist]
    unfold VMM_KERNEL_START
    omega
  · rw [hFreelist]
    unfold VMM_RESERVED_DM_START
    omega

theorem large_built :
    buddyAreaInit bumpAlloc 0xffff800000110000 (pagesHeap 0x100000000 32) 0x100000000
      0x100000000 =
      .ok (some (0xffff800000110000, large.b), large.m.heap, 0xffff800000310190) := rfl

theorem large_fresh : Fresh 32 large := by
  have hMax : 2 ^ 32 = 0x100000000 := rfl
  have hFreelist : large.b.freelist = 0xffff800000310040 := rfl
  have hGround : Ground 32 0x100000000 (pagesHeap 0x100000000 32) (oneArea 0x200000000) :=
    oneArea_ground (by omega) (by omega) (by decide) (by omega) (by omega) (by decide) (by omega)
  refine ⟨⟨_, Nat, bumpAlloc, 0xffff800000110000, 0xffff800000310190, 0xffff800000110000, hGround,
    ?_, ?_, ?_⟩, ?_, ?_, rfl⟩
  · rw [hMax]
    exact large_built
  · unfold VMM_KERNEL_START
    omega
  · unfold BuddyArea.size VMM_RESERVED_DM_START
    omega
  · rw [hFreelist]
    unfold VMM_KERNEL_START
    omega
  · rw [hFreelist]
    unfold VMM_RESERVED_DM_START
    omega

/-- Half of the large area, whose size the shift of an `int` makes negative. -/
theorem large_turns_down : ∃ s', Run Step large [.alloc 0x80000000] s' := by
  have hSome : (large.performAll 20 [.alloc 0x80000000]).isSome := by decide +kernel
  obtain ⟨s', hAll⟩ := Option.isSome_iff_exists.mp hSome
  exact ⟨s', Sys.performAll_run hAll⟩

end LunarOS
