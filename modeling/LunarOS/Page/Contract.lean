import LunarOS.Page.Managed

/-!
# Units and alignment of `page_alloc`

`page_alloc` counts pages, in its argument and in its test on `available`, but passes the
number on to `buddy_alloc`, which counts bytes. The block it returns is one of the class of
`npages` bytes, at a multiple of the class size from a base that is only aligned to 8 bytes.
`pageContract_iff` says when that is what the caller of `page_alloc` needs.
-/

namespace LunarOS

open Logic BuddyArea

/-- The area whose `buddy_alloc` serves the call: the first with that many bytes available. -/
def Serves (st : PageState) (npages fuel : Nat) (b : BuddyArea) : Prop :=
  ∃ at_, pageAllocFind st (mul64 PGSIZE npages) fuel 0 st.m.physMem = .ok (some at_) ∧
    st.buddies at_ = some b

/-- `p` is the start of `npages` pages inside one block of the class that `buddy_alloc` picks. -/
structure PageContract (b : BuddyArea) (npages p : Nat) : Prop where
  aligned : PGSIZE ∣ p
  inside : ∃ fuel bkt j, buddyFindBkt fuel b npages = some bkt ∧ j < 2 ^ bkt ∧
    p = b.base + j * b.classSize bkt ∧
    (Span.mk p (npages * PGSIZE)).Within ⟨p, b.classSize bkt⟩

/-- Of the classes of so many bytes only the smallest holds so many pages. -/
theorem pages_le_class_iff {npages : Nat} (hPos : 1 ≤ npages) :
    npages * PGSIZE ≤ 2 ^ sizeOrder npages ↔ npages = 1 := by
  unfold PGSIZE
  constructor
  · intro hFits
    by_contra hMore
    rcases Nat.eq_or_lt_of_le (sizeOrder_ge npages) with hLow | hHigh
    · rw [← hLow] at hFits
      omega
    · -- half of the class would not hold even `npages` bytes
      have hHalf : ¬ npages ≤ 2 ^ (sizeOrder npages - 1) := by
        rw [← sizeOrder_le_iff (by omega)]
        omega
      have hDouble : 2 ^ sizeOrder npages = 2 ^ (sizeOrder npages - 1) * 2 := by
        rw [← Nat.pow_succ]
        congr 1
        omega
      omega
  · rintro rfl
    have hOrder : sizeOrder 1 = 12 := sizeOrder_page (by omega)
    rw [hOrder]
    omega

/-- Blocks are page aligned exactly when the base is. -/
theorem page_dvd_block_iff {M k j : Nat} (hM : 12 ≤ M) (hk : k ≤ M - 12) (b : BuddyArea) :
    PGSIZE ∣ b.blockAt M k j ↔ PGSIZE ∣ b.base := by
  have hSize : PGSIZE ∣ j * 2 ^ (M - k) :=
    Dvd.dvd.mul_left (Nat.pow_dvd_pow 2 (by omega : 12 ≤ M - k)) j
  exact Nat.dvd_add_iff_left hSize |>.symm

/-- The block that a call returns, in the area that serves it. -/
theorem pageAlloc_block {mmap : List MmapEntry} {poff npages fuel p : Nat} {st st' : PageState}
    (h : Managed mmap poff st) (hOk : pageAlloc st npages fuel = .ok (some p, st')) :
    ∃ b j, Serves st npages fuel b ∧ Manages mmap poff b ∧ npages ≤ 2 ^ 19 ∧
      buddyFindBkt fuel b npages = some (bucketOf 19 npages) ∧ j < 2 ^ bucketOf 19 npages ∧
      p = b.blockAt 19 (bucketOf 19 npages) j := by
  cases pageAlloc_returns hOk with
  | @served at_ _ b _ _ _ _ hFind hb hAlloc =>
    have hManages := h.manages at_ b hb
    obtain ⟨hFits, hBkt, j, hj, hPtr⟩ := buddyAlloc_block hManages.sizes (by decide) h.kernel hAlloc
    exact ⟨b, j, ⟨at_, hFind, hb⟩, hManages, hFits, hBkt, hj, hPtr⟩

/-- What `page_alloc` returns is a physical address. -/
theorem pageAlloc_physical {mmap : List MmapEntry} {poff npages fuel p : Nat} {st st' : PageState}
    (h : Managed mmap poff st) (hOk : pageAlloc st npages fuel = .ok (some p, st')) :
    p < VMM_KERNEL_START := by
  obtain ⟨b, j, -, hManages, -, -, hj, rfl⟩ := pageAlloc_block h hOk
  have hRoom := hManages.sizes.end_le
  have hPos := Nat.two_pow_pos (19 - bucketOf 19 npages)
  have hEnd := block_end_le (M := 19) (Nat.le_trans (bucketOf_le 19 npages) (by omega)) hj
  unfold blockAt VMM_KERNEL_START
  omega

theorem pageContract_iff {mmap : List MmapEntry} {poff areasAt : Nat} {st0 st1 st st' : PageState}
    {npages fuel p : Nat} (hPhys : Physical mmap poff)
    (hEnv : Environment st0 areasAt (available mmap).length)
    (hBoot : bootPages st0 areasAt mmap poff = .ok st1) (hReach : Reach PageStep st1 st)
    (hPos : 1 ≤ npages) (hOk : pageAlloc st npages fuel = .ok (some p, st')) :
    ∃ b, Serves st npages fuel b ∧ (∃ e ∈ available mmap, b.base = e.arena poff) ∧
      (PageContract b npages p ↔ npages = 1 ∧ PGSIZE ∣ b.base) := by
  obtain ⟨b, j, hServes, ⟨hSizes, e, he, -, hBase⟩, hFits, hBkt, hj, hPtr⟩ :=
    pageAlloc_block (managed_of_reach hPhys hEnv hBoot hReach) hOk
  refine ⟨b, hServes, ⟨e, he, hBase⟩, ?_⟩
  have hLe := bucketOf_le 19 npages
  have hClass : b.classSize (bucketOf 19 npages) = 2 ^ sizeOrder npages := by
    have hOrder := sizeOrder_le (by omega : 12 ≤ 19) hFits
    rw [classSize_eq hSizes (by omega)]
    unfold bucketOf
    congr 1
    omega
  have hAligned : PGSIZE ∣ p ↔ PGSIZE ∣ b.base := by
    rw [hPtr]
    exact page_dvd_block_iff (by omega) hLe b
  constructor
  · rintro ⟨hPage, fuel', bkt, j', hBkt', -, -, -, hEnd⟩
    obtain rfl := Loop.Returns.unique ⟨fuel', hBkt'⟩ ⟨fuel, hBkt⟩
    dsimp only at hEnd
    rw [hClass] at hEnd
    exact ⟨(pages_le_class_iff hPos).mp (by omega), hAligned.mp hPage⟩
  · rintro ⟨hOne, hBasePage⟩
    refine ⟨hAligned.mpr hBasePage, fuel, _, j, hBkt, hj, ?_, Nat.le_refl p, ?_⟩
    · rw [hPtr, classSize_eq hSizes (by omega)]
      rfl
    · have := (pages_le_class_iff hPos).mpr hOne
      dsimp only
      rw [hClass]
      omega

/-! ## The first call after a concrete boot -/

/-- The boot completes and so does the first call. -/
theorem boot_alloc (mmap : List MmapEntry) (poff npages p : Nat)
    (h : (bootPages bootState 0xffff800000100000 mmap poff).toOption.bind
      (fun st => (pageAlloc st npages 20).toOption.map Prod.fst) = some (some p)) :
    ∃ st st', bootPages bootState 0xffff800000100000 mmap poff = .ok st ∧
      pageAlloc st npages 20 = .ok (some p, st') := by
  obtain ⟨st, hBoot, hFirst⟩ := Option.bind_eq_some_iff.mp h
  obtain ⟨⟨ret, st'⟩, hOk, rfl⟩ := Option.map_eq_some_iff.mp hFirst
  exact ⟨st, st', toOption_eq_some.mp hBoot, toOption_eq_some.mp hOk⟩

/-- The base of the first arena of `splitMap` is `0x103000`. A page is taken and given back, and
the next call gets it again. -/
theorem pageContract_sample : ∃ st0 st st' b,
    bootPages (headedState 3) 0xffff800000100000 splitMap 0x10000 = .ok st0 ∧
      Run PageStep st0 [.alloc 1, .free 0x182000] st ∧
      pageAlloc st 1 20 = .ok (some 0x182000, st') ∧ Serves st 1 20 b ∧
      PageContract b 1 0x182000 := by
  have hCalls : ((bootPages (headedState 3) 0xffff800000100000 splitMap 0x10000).toOption.bind
      fun st0 => (pageAlloc st0 1 20).toOption.bind fun (_, st1) =>
        (pageFree st1 0x182000).toOption.bind fun st =>
          (pageAlloc st 1 20).toOption.map fun (p, _) =>
            (p, (pageAllocFind st PGSIZE 20 0 st.m.physMem).toOption.bind fun at_ =>
              (at_.bind st.buddies).map BuddyArea.base)) =
      some (some 0x182000, some 0x103000) := by
    decide +kernel
  obtain ⟨st0, hBoot, hCalls⟩ := Option.bind_eq_some_iff.mp hCalls
  obtain ⟨⟨p, st1⟩, hFirst, hCalls⟩ := Option.bind_eq_some_iff.mp hCalls
  obtain ⟨st, hFree, hCalls⟩ := Option.bind_eq_some_iff.mp hCalls
  obtain ⟨⟨p', st'⟩, hAlloc, hEnd⟩ := Option.map_eq_some_iff.mp hCalls
  obtain ⟨rfl, hBase⟩ := Prod.mk.inj hEnd
  have hRun : Run PageStep st0 [.alloc 1, .free 0x182000] st :=
    (Run.one (.alloc (toOption_eq_some.mp hFirst))).snoc (.free (toOption_eq_some.mp hFree))
  have hOk := toOption_eq_some.mp hAlloc
  obtain ⟨b, hServes, -, hIff⟩ := pageContract_iff splitMap_physical
    (headedState_environment (by decide)) (toOption_eq_some.mp hBoot) ⟨_, hRun⟩ (Nat.le_refl 1) hOk
  refine ⟨st0, st, st', b, toOption_eq_some.mp hBoot, hRun, hOk, hServes, hIff.mpr ⟨rfl, ?_⟩⟩
  obtain ⟨at_, hFind, hb⟩ := hServes
  have hSame : mul64 PGSIZE 1 = PGSIZE := rfl
  rw [hSame] at hFind
  simp only [hFind, Except.toOption, Option.bind_some, hb, Option.map_some,
    Option.some.injEq] at hBase
  rw [hBase]
  decide

/-- Two pages are asked for and a block of one is returned. -/
theorem two_pages_get_one : ∃ st st' b, Physical roomyMap 0x10000 ∧
    Environment bootState 0xffff800000100000 1 ∧
    bootPages bootState 0xffff800000100000 roomyMap 0x10000 = .ok st ∧
    pageAlloc st 2 20 = .ok (some 0x185000, st') ∧ Serves st 2 20 b ∧
    buddyFindBkt 20 b 2 = some 7 ∧ b.classSize 7 = PGSIZE ∧ ¬ PageContract b 2 0x185000 := by
  obtain ⟨st, st', hBoot, hOk⟩ := boot_alloc roomyMap 0x10000 2 0x185000 (by decide +kernel)
  obtain ⟨b, hServes, -, hIff⟩ := pageContract_iff roomyMap_physical bootState_environment hBoot
    ⟨[], .nil⟩ (by omega) hOk
  have hManaged := managed_of_reach roomyMap_physical bootState_environment hBoot ⟨[], .nil⟩
  obtain ⟨at_, hFind, hb⟩ := hServes
  have hSizes := (hManaged.manages _ b hb).sizes
  refine ⟨st, st', b, roomyMap_physical, bootState_environment, hBoot, hOk, ⟨at_, hFind, hb⟩,
    ?_, ?_, ?_⟩
  · have hBkt : ((bootPages bootState 0xffff800000100000 roomyMap 0x10000).toOption.bind fun st =>
        (pageAllocFind st (mul64 PGSIZE 2) 20 0 st.m.physMem).toOption.bind fun at_ =>
          (at_.bind st.buddies).bind fun b => buddyFindBkt 20 b 2) = some 7 := by decide +kernel
    simpa [hBoot, hFind, hb, Except.toOption] using hBkt
  · rw [classSize_eq hSizes (by omega)]
    rfl
  · intro h
    exact absurd (hIff.mp h).1 (by decide)

end LunarOS
