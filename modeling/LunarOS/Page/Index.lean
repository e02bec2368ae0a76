import LunarOS.Page.Layout

/-!
# `phys2page` as an index of the page maps

`phys2page` takes the first area that ends at or above the address and subtracts page numbers.
It looks neither at the start of the area nor at the length of its map, so an address in a hole,
at the end of an area or behind its map gets a pointer outside the map. `phys2page_iff` gives
the addresses for which the result is right.
-/

namespace LunarOS

namespace MemArea

/-- The page of the address has a record in the map. -/
def HasPage (area : MemArea) (a : Nat) : Prop :=
  pfn area.addr ≤ pfn a ∧ pfn a < pfn area.addr + area.mapSz

/-- The address lies in the area. -/
def Contains (area : MemArea) (a : Nat) : Prop := area.addr ≤ a ∧ a < area.addr + area.len

/-- The address lies in the mapped pages of the area. -/
def Mapped (area : MemArea) (a : Nat) : Prop := area.addr ≤ a ∧ area.HasPage a

/-- The address lies in the arena of the area's buddy. -/
def InArena (area : MemArea) (a : Nat) : Prop :=
  BUDDY_MAX_SIZE ≤ area.len ∧ a ∈ area.arenaSpan.bytes

end MemArea

/-- What `phys2page` owes its callers at an address. -/
structure Indexed (areas : List MemArea) (a : Nat) : Prop where
  mapped : ∀ i area, areas[i]? = some area → area.Mapped a →
    phys2page areas a = some ⟨i, pfn a - pfn area.addr⟩ ∧ pfn a - pfn area.addr < area.mapSz
  outside : (∀ area ∈ areas, ¬ area.Contains a) → phys2page areas a = none
  inside : ∀ ref, phys2page areas a = some ref → InMap areas ref
  arena : ∀ area ∈ areas, area.InArena a → ∃ ref, phys2page areas a = some ref ∧ InMap areas ref
  apart : ∀ b < wordSize, ∀ ref, phys2page areas a = some ref → phys2page areas b = some ref →
    pfn a = pfn b

/-- The scan meets the map of the address first: the areas before it end below the address. -/
def FoundFirst (areas : List MemArea) (a : Nat) : Prop :=
  a ≠ 0 ∧ (∃ area ∈ areas, area.Contains a) ∧
    ∃ (i : Nat) (area : MemArea), areas[i]? = some area ∧ area.HasPage a ∧
      ∀ k < i, ∀ before : MemArea, areas[k]? = some before → before.addr + before.len < a

/-- The scan passes all areas by, and no map or arena has the address. -/
def Unmapped (areas : List MemArea) (a : Nat) : Prop :=
  (a = 0 ∨ ∀ area ∈ areas, area.addr + area.len < a) ∧
    ∀ area ∈ areas, ¬ area.Mapped a ∧ ¬ area.InArena a

/-! ## The scan -/

section

variable {areas : List MemArea} {a : Nat}

/-- No end of an area wraps around. -/
def Bounded64 (areas : List MemArea) : Prop := ∀ area ∈ areas, area.addr + area.len < wordSize

theorem phys2pageFrom_eq_none {i : Nat} (hBound : Bounded64 areas) :
    phys2pageFrom a i areas = none ↔ ∀ area ∈ areas, area.addr + area.len < a := by
  induction areas generalizing i with
  | nil => simp [phys2pageFrom]
  | cons area rest ih =>
    have hHead := hBound area List.mem_cons_self
    unfold phys2pageFrom
    rw [add64_eq hHead, List.forall_mem_cons]
    split
    · next hBelow =>
      rw [ih fun area h => hBound area (List.mem_cons_of_mem _ h)]
      exact (and_iff_right hBelow).symm
    · next hReached =>
      simp only [reduceCtorEq, false_iff]
      exact fun h => hReached h.1

theorem phys2pageFrom_eq_some {i : Nat} {ref : PageRef} (hBound : Bounded64 areas) :
    phys2pageFrom a i areas = some ref ↔ ∃ k area, areas[k]? = some area ∧
      a ≤ area.addr + area.len ∧ ref = ⟨i + k, sub64 (pfn a) (pfn area.addr)⟩ ∧
      ∀ j < k, ∀ before, areas[j]? = some before → before.addr + before.len < a := by
  induction areas generalizing i with
  | nil => simp [phys2pageFrom]
  | cons area rest ih =>
    have hHead := hBound area List.mem_cons_self
    unfold phys2pageFrom
    rw [add64_eq hHead]
    split
    · next hBelow =>
      rw [ih fun area h => hBound area (List.mem_cons_of_mem _ h)]
      constructor
      · rintro ⟨k, found, hFound, hEnd, rfl, hBefore⟩
        refine ⟨k + 1, found, hFound, hEnd, by rw [Nat.add_assoc, Nat.add_comm 1 k], ?_⟩
        intro j hj before hj'
        cases j with
        | zero =>
          obtain rfl := Option.some.inj hj'
          exact hBelow
        | succ j => exact hBefore j (by omega) before hj'
      · rintro ⟨k, found, hFound, hEnd, rfl, hBefore⟩
        cases k with
        | zero =>
          obtain rfl := Option.some.inj hFound
          omega
        | succ k =>
          refine ⟨k, found, hFound, hEnd, by rw [Nat.add_assoc, Nat.add_comm 1 k], ?_⟩
          exact fun j hj before hj' => hBefore (j + 1) (by omega) before hj'
    · next hReached =>
      constructor
      · intro h
        exact ⟨0, area, rfl, by omega, (Option.some.inj h).symm, fun j hj => by omega⟩
      · rintro ⟨k, found, hFound, hEnd, rfl, hBefore⟩
        cases k with
        | zero =>
          obtain rfl := Option.some.inj hFound
          rfl
        | succ k => exact absurd (hBefore 0 (by omega) area rfl) hReached

namespace Bounded64

theorem eq_none_iff (h : Bounded64 areas) :
    phys2page areas a = none ↔ a = 0 ∨ ∀ area ∈ areas, area.addr + area.len < a := by
  unfold phys2page
  by_cases hZero : a = 0
  · rw [if_pos hZero]
    exact ⟨fun _ => .inl hZero, fun _ => rfl⟩
  · rw [if_neg hZero, phys2pageFrom_eq_none h]
    exact ⟨.inr, fun hAll => hAll.resolve_left hZero⟩

theorem eq_some_iff (h : Bounded64 areas) {ref : PageRef} :
    phys2page areas a = some ref ↔ a ≠ 0 ∧ ∃ k area, areas[k]? = some area ∧
      a ≤ area.addr + area.len ∧ ref = ⟨k, sub64 (pfn a) (pfn area.addr)⟩ ∧
      ∀ j < k, ∀ before, areas[j]? = some before → before.addr + before.len < a := by
  unfold phys2page
  by_cases hZero : a = 0
  · rw [if_pos hZero]
    simp [hZero]
  · rw [if_neg hZero, phys2pageFrom_eq_some h]
    simp only [Nat.zero_add, ne_eq, hZero, not_false_eq_true, true_and]

/-- Different pages have different records, right or wrong. -/
theorem same_page (h : Bounded64 areas) (ha : a < wordSize) {b : Nat} (hb : b < wordSize)
    {ref : PageRef} (hRef : phys2page areas a = some ref) (hRef' : phys2page areas b = some ref) :
    pfn a = pfn b := by
  obtain ⟨-, k, area, hArea, -, rfl, -⟩ := h.eq_some_iff.mp hRef
  obtain ⟨-, k', area', hArea', -, hSame, -⟩ := h.eq_some_iff.mp hRef'
  obtain ⟨rfl, hIndex⟩ := PageRef.mk.injEq .. ▸ hSame
  obtain rfl := Option.some.inj (hArea.symm.trans hArea')
  have hStart := h area (List.mem_of_getElem? hArea)
  unfold pfn PGSIZE sub64 at *
  unfold wordSize at *
  omega

end Bounded64

/-- Page numbers are far below the size of a word, so an index that borrows is in no map. -/
theorem index_lt_iff {area : MemArea} (ha : a < wordSize) (hSize : area.mapSz ≤ 2 ^ 52)
    (hAddr : area.addr < wordSize) :
    sub64 (pfn a) (pfn area.addr) < area.mapSz ↔ area.HasPage a := by
  unfold MemArea.HasPage
  have hPage : pfn a < 2 ^ 52 ∧ pfn area.addr < 2 ^ 52 := by
    unfold pfn PGSIZE
    unfold wordSize at ha hAddr
    omega
  by_cases hLe : pfn area.addr ≤ pfn a
  · rw [sub64_eq hLe (by unfold wordSize; omega)]
    omega
  · rw [sub64_borrow (by omega) (by unfold wordSize; omega)]
    unfold wordSize
    omega

end

/-! ## The areas that `page_init` sets up -/

section

variable {mmap : List MmapEntry} {poff areasAt : Nat} {st st' : PageState} {i : Nat}
  {e : MmapEntry} {area : MemArea}

/-- Sizes of an area, with the page that its map ends on. -/
theorem area_bounds (hPhys : Physical mmap poff) (hOk : bootPages st areasAt mmap poff = .ok st')
    (he : (available mmap)[i]? = some e) (hArea : st'.m.physMem[i]? = some area) :
    area.addr + area.len < 2 ^ 54 ∧ area.mapSz ≤ 2 ^ 52 ∧
      (pfn area.addr + area.mapSz) * PGSIZE ≤ area.addr + area.len := by
  obtain ⟨hStart, hLen, hPages, -, hUsed⟩ := bootPages_area hPhys hOk he hArea
  have hRegion := hPhys.region e (List.mem_of_getElem? he)
  have hImage := hPhys.image
  obtain ⟨hKernel, hRound⟩ := rounds hRegion hImage
  unfold physSize at hRegion hImage
  rw [hStart, hLen, hPages]
  unfold MmapEntry.start MmapEntry.pages pfn PGSIZE
  unfold MmapEntry.used at hUsed ⊢
  split <;> omega

/-- The mapped pages lie in the region, with its ends rounded to 8 bytes. -/
theorem mapped_bounds (hPhys : Physical mmap poff) (hOk : bootPages st areasAt mmap poff = .ok st')
    (he : (available mmap)[i]? = some e) (hArea : st'.m.physMem[i]? = some area) {a : Nat}
    (h : area.Mapped a) :
    0 < e.len ∧ (e.addr + 7) / 8 * 8 ≤ a ∧ a < (e.addr + e.len + 7) / 8 * 8 := by
  obtain ⟨hStart, hLen, hPages, -, hUsed⟩ := bootPages_area hPhys hOk he hArea
  have hRegion := hPhys.region e (List.mem_of_getElem? he)
  have hImage := hPhys.image
  obtain ⟨hKernel, hRound⟩ := rounds hRegion hImage
  unfold physSize at hRegion hImage
  obtain ⟨hGe, hLow, hHigh⟩ := h
  rw [hStart] at hGe hLow hHigh
  rw [hPages] at hHigh
  unfold MmapEntry.start at hGe hLow hHigh
  unfold MmapEntry.pages at hHigh
  unfold MmapEntry.used at hUsed hHigh
  unfold pfn PGSIZE at hLow hHigh
  split at hGe <;> simp only [*, if_true, if_false] at hLow hHigh hUsed <;> omega

/-- Disjoint regions that are not empty lie on one side of each other. -/
theorem Span.apart_of_disjoint {a b : Logic.Span} (ha : 0 < a.len) (hb : 0 < b.len)
    (h : Disjoint a.bytes b.bytes) : a.Apart b := by
  simp only [Finset.disjoint_left, Logic.Span.bytes, Finset.mem_Ico] at h
  unfold Logic.Span.Apart
  by_contra hNot
  rw [not_or] at hNot
  rcases Nat.le_total a.start b.start with hLe | hLe
  · exact h (by omega : a.start ≤ b.start ∧ b.start < a.start + a.len) (by omega)
  · exact h (by omega : a.start ≤ a.start ∧ a.start < a.start + a.len) (by omega)

theorem pairwise_getElem? {α : Type} {R : α → α → Prop} (hSymm : ∀ x y, R x y → R y x) {l : List α}
    (h : l.Pairwise R) {i k : Nat} {x y : α} (hNe : i ≠ k) (hx : l[i]? = some x)
    (hy : l[k]? = some y) : R x y := by
  obtain ⟨hi, rfl⟩ := List.getElem?_eq_some_iff.mp hx
  obtain ⟨hk, rfl⟩ := List.getElem?_eq_some_iff.mp hy
  rcases Nat.lt_or_gt_of_ne hNe with hLess | hMore
  · exact List.pairwise_iff_getElem.mp h i k hi hk hLess
  · exact hSymm _ _ (List.pairwise_iff_getElem.mp h k i hk hi hMore)

/-- No address is on the mapped pages of two areas. -/
theorem mapped_unique (hPhys : Physical mmap poff)
    (hDisjoint : (available mmap).Pairwise fun e f => Disjoint e.region.bytes f.region.bytes)
    (hOk : bootPages st areasAt mmap poff = .ok st') {k : Nat} {area' : MemArea} {a : Nat}
    (hArea : st'.m.physMem[i]? = some area) (hArea' : st'.m.physMem[k]? = some area')
    (h : area.Mapped a) (h' : area'.Mapped a) : i = k := by
  obtain ⟨e, he, -⟩ := (bootPages_areas hOk i).2 area hArea
  obtain ⟨f, hf, -⟩ := (bootPages_areas hOk k).2 area' hArea'
  obtain ⟨hLen, hLow, hHigh⟩ := mapped_bounds hPhys hOk he hArea h
  obtain ⟨hLen', hLow', hHigh'⟩ := mapped_bounds hPhys hOk hf hArea' h'
  by_contra hNe
  have hApart := Span.apart_of_disjoint (a := e.region) (b := f.region) hLen hLen'
    (pairwise_getElem? (fun _ _ h => h.symm) hDisjoint hNe he hf)
  unfold Logic.Span.Apart MmapEntry.region at hApart
  dsimp only at hApart
  omega

end

/-! ## When the result is right -/

/-- The maps end inside their areas. -/
def MapsInside (areas : List MemArea) : Prop :=
  ∀ area ∈ areas, area.addr + area.len < 2 ^ 54 ∧ area.mapSz ≤ 2 ^ 52 ∧
    (pfn area.addr + area.mapSz) * PGSIZE ≤ area.addr + area.len

theorem MapsInside.bounded {areas : List MemArea} (h : MapsInside areas) : Bounded64 areas := by
  intro area hMem
  have := (h area hMem).1
  unfold wordSize
  omega

/-- What the proof needs of the areas: their maps end inside them and have no page in common. -/
structure MapsApart (areas : List MemArea) : Prop where
  bounds : MapsInside areas
  unique : ∀ (i k : Nat) (area area' : MemArea) (x : Nat), areas[i]? = some area →
    areas[k]? = some area' → area.Mapped x → area'.Mapped x → i = k

theorem bootPages_mapsInside {mmap : List MmapEntry} {poff areasAt : Nat} {st st' : PageState}
    (hPhys : Physical mmap poff) (hOk : bootPages st areasAt mmap poff = .ok st') :
    MapsInside st'.m.physMem := by
  intro area hMem
  obtain ⟨i, hi⟩ := List.mem_iff_getElem?.mp hMem
  obtain ⟨e, he, -⟩ := (bootPages_areas hOk i).2 area hi
  exact area_bounds hPhys hOk he hi

theorem bootPages_mapsApart {mmap : List MmapEntry} {poff areasAt : Nat} {st st' : PageState}
    (hPhys : Physical mmap poff)
    (hDisjoint : (available mmap).Pairwise fun e f => Disjoint e.region.bytes f.region.bytes)
    (hOk : bootPages st areasAt mmap poff = .ok st') : MapsApart st'.m.physMem where
  bounds := bootPages_mapsInside hPhys hOk
  unique _ _ _ _ _ := mapped_unique hPhys hDisjoint hOk

namespace MapsApart

variable {areas : List MemArea} {a : Nat}

theorem hasPage_le (h : MapsApart areas) {area : MemArea} (hMem : area ∈ areas)
    (hPage : area.HasPage a) : a < area.addr + area.len := by
  have hEnd := (h.bounds area hMem).2.2
  obtain ⟨-, hHigh⟩ := hPage
  unfold pfn PGSIZE at hEnd hHigh
  omega

theorem index_lt_iff (h : MapsApart areas) (ha : a < wordSize) {area : MemArea}
    (hMem : area ∈ areas) : sub64 (pfn a) (pfn area.addr) < area.mapSz ↔ area.HasPage a := by
  obtain ⟨hEnd, hSize, -⟩ := h.bounds area hMem
  exact LunarOS.index_lt_iff ha hSize (by unfold wordSize; omega)

/-- The map of the area that the scan finds is the only one with the address. -/
theorem found_unique (h : MapsApart areas) {i k : Nat} {area area' : MemArea}
    (hArea : areas[i]? = some area) (hArea' : areas[k]? = some area') (hPage : area.HasPage a)
    (hMapped : area'.Mapped a) : k = i := by
  by_cases hStart : area.addr ≤ a
  · exact h.unique k i area' area a hArea' hArea hMapped ⟨hStart, hPage⟩
  · -- the start of the area is on the same page, and the other map would have it too
    obtain ⟨hLow, hHigh⟩ := hPage
    obtain ⟨hGe, hPage'⟩ := hMapped
    have hSame : pfn area.addr = pfn a :=
      Nat.le_antisymm hLow (Nat.div_le_div_right (by omega))
    refine h.unique k i area' area area.addr hArea' hArea ⟨by omega, ?_⟩ ⟨Nat.le_refl _, ?_⟩
    · rw [MemArea.HasPage, hSame]
      exact hPage'
    · exact ⟨Nat.le_refl _, by omega⟩

theorem indexed_iff (h : MapsApart areas) (ha : a < wordSize) :
    Indexed areas a ↔ FoundFirst areas a ∨ Unmapped areas a := by
  constructor
  · intro hIndexed
    cases hResult : phys2page areas a with
    | none =>
      refine .inr ⟨h.bounds.bounded.eq_none_iff.mp hResult,
        fun area hMem => ⟨fun hMapped => ?_, fun hArena => ?_⟩⟩
      · obtain ⟨i, hi⟩ := List.mem_iff_getElem?.mp hMem
        obtain ⟨hSome, -⟩ := hIndexed.mapped i area hi hMapped
        rw [hResult] at hSome
        cases hSome
      · obtain ⟨ref, hSome, -⟩ := hIndexed.arena area hMem hArena
        rw [hResult] at hSome
        cases hSome
    | some ref =>
      obtain ⟨hNe, k, area, hArea, hEnd, rfl, hBefore⟩ := h.bounds.bounded.eq_some_iff.mp hResult
      obtain ⟨found, hFound, hIndex⟩ := hIndexed.inside _ hResult
      obtain rfl := Option.some.inj (hArea.symm.trans hFound)
      have hInside : ∃ area ∈ areas, area.Contains a := by
        by_contra hNone
        simp only [not_exists, not_and] at hNone
        rw [hIndexed.outside hNone] at hResult
        cases hResult
      exact .inl ⟨hNe, hInside, k, area, hArea,
        (h.index_lt_iff ha (List.mem_of_getElem? hArea)).mp hIndex, hBefore⟩
  · rintro (⟨hNe, ⟨home, hHome, hContains⟩, i, area, hArea, hPage, hBefore⟩ | ⟨hPast, hNone⟩)
    · have hMem := List.mem_of_getElem? hArea
      have hIndex := (h.index_lt_iff ha hMem).mpr hPage
      have hResult : phys2page areas a = some ⟨i, sub64 (pfn a) (pfn area.addr)⟩ :=
        h.bounds.bounded.eq_some_iff.mpr
          ⟨hNe, i, area, hArea, (h.hasPage_le hMem hPage).le, rfl, hBefore⟩
      have hInMap : InMap areas ⟨i, sub64 (pfn a) (pfn area.addr)⟩ := ⟨area, hArea, hIndex⟩
      constructor
      · intro k area' hArea' hMapped
        obtain rfl := h.found_unique hArea hArea' hPage hMapped
        obtain rfl := Option.some.inj (hArea.symm.trans hArea')
        have hPlain : sub64 (pfn a) (pfn area.addr) = pfn a - pfn area.addr := by
          apply sub64_eq hPage.1
          unfold pfn PGSIZE
          unfold wordSize at ha ⊢
          omega
        rw [hPlain] at hResult hIndex
        exact ⟨hResult, hIndex⟩
      · intro hOutside
        exact absurd hContains (hOutside home hHome)
      · intro ref hRef
        obtain rfl := Option.some.inj (hResult.symm.trans hRef)
        exact hInMap
      · exact fun _ _ _ => ⟨_, hResult, hInMap⟩
      · exact fun b hb ref hRef hRef' => h.bounds.bounded.same_page ha hb hRef hRef'
    · have hResult : phys2page areas a = none := h.bounds.bounded.eq_none_iff.mpr hPast
      constructor
      · intro k area hArea hMapped
        exact absurd hMapped (hNone area (List.mem_of_getElem? hArea)).1
      · exact fun _ => hResult
      · intro ref hRef
        rw [hResult] at hRef
        cases hRef
      · intro area hMem hArena
        exact absurd hArena (hNone area hMem).2
      · intro b hb ref hRef
        rw [hResult] at hRef
        cases hRef

end MapsApart

theorem phys2page_iff {mmap : List MmapEntry} {poff areasAt : Nat} {st st' : PageState}
    (hPhys : Physical mmap poff)
    (hDisjoint : (available mmap).Pairwise fun e f => Disjoint e.region.bytes f.region.bytes)
    (hOk : bootPages st areasAt mmap poff = .ok st') {a : Nat} (ha : a < wordSize) :
    Indexed st'.m.physMem a ↔ FoundFirst st'.m.physMem a ∨ Unmapped st'.m.physMem a :=
  (bootPages_mapsApart hPhys hDisjoint hOk).indexed_iff ha

/-- An address in the second of three regions, behind a hole. -/
theorem phys2page_sample : ∃ st,
    bootPages (headedState 3) 0xffff800000100000 splitMap 0x10000 = .ok st ∧
      Indexed st.m.physMem 0x423456 := by
  obtain ⟨st, hOk, hAreas⟩ := split_boots
  refine ⟨st, hOk, (phys2page_iff splitMap_physical splitMap_disjoint hOk (by decide)).mpr
    (.inl ?_)⟩
  rw [hAreas]
  refine ⟨by decide, ⟨_, List.mem_cons_of_mem _ List.mem_cons_self, by decide, by decide⟩, 1, _,
    rfl, ⟨by decide, by decide⟩, ?_⟩
  intro k hk before hBefore
  obtain rfl := Nat.lt_one_iff.mp hk
  obtain rfl := Option.some.inj hBefore
  decide

/-- An address in the hole: its record is counted from the region behind, below its first one. -/
theorem hole_has_record : Physical splitMap 0x10000 ∧
    ((available splitMap).Pairwise fun e f => Disjoint e.region.bytes f.region.bytes) ∧
    ∃ st, bootPages (headedState 3) 0xffff800000100000 splitMap 0x10000 = .ok st ∧
      phys2page st.m.physMem 0x350000 = some ⟨1, 0xffffffffffffff50⟩ ∧
      ¬ Indexed st.m.physMem 0x350000 := by
  obtain ⟨st, hOk, hAreas⟩ := split_boots
  refine ⟨splitMap_physical, splitMap_disjoint, st, hOk, ?_⟩
  rw [hAreas]
  refine ⟨by decide, fun hIndexed => ?_⟩
  obtain ⟨area, hArea, hLess⟩ := hIndexed.inside ⟨1, 0xffffffffffffff50⟩ (by decide)
  obtain rfl := Option.some.inj hArea
  exact absurd hLess (by decide)

end LunarOS
