import LunarOS.Page.Index

/-!
# `page2phys`

A record is the argument of `page2phys` by its address, which lies in the direct map. The scan
compares that address with the physical ends of the areas, so as long as physical memory ends
below the direct map it passes every area by and returns `NULL`.
-/

namespace LunarOS

/-- A `struct page *` as an address. -/
def pageAddress (areas : List MemArea) : Option PageRef → Nat
  | none => 0
  | some ref =>
    match areas[ref.area]? with
    | none => 0
    | some area => add64 area.map (mul64 Page.size ref.index)

/-- The scan of `page2phys`. -/
def page2physFrom (address : Nat) : List MemArea → Nat
  | [] => 0
  | area :: rest =>
    if add64 area.addr area.len < address then page2physFrom address rest
    else
      let offset := sub64 address area.map
      add64 (mul64 PGSIZE offset / Page.size) area.addr

def page2phys (areas : List MemArea) (page : Nat) : Nat :=
  if page = 0 then 0 else page2physFrom page areas

/-- The two functions are inverse on mapped pages and on records. -/
structure Inverse (areas : List MemArea) : Prop where
  pages : ∀ area ∈ areas, ∀ a, area.Mapped a →
    page2phys areas (pageAddress areas (phys2page areas a)) = pgrounddown a
  records : ∀ ref, InMap areas ref →
    phys2page areas (page2phys areas (pageAddress areas (some ref))) = some ref

/-- The regions and the kernel image can be reached through the direct map. -/
structure DirectMapped (mmap : List MmapEntry) (poff : Nat) : Prop where
  region : ∀ e ∈ available mmap, e.addr + e.len ≤ dmSize
  image : poff ≤ dmSize

theorem DirectMapped.physical {mmap : List MmapEntry} {poff : Nat} (h : DirectMapped mmap poff) :
    Physical mmap poff := by
  have hSmall : dmSize ≤ physSize := by decide
  exact ⟨fun e he => (h.region e he).trans hSmall, h.image.trans hSmall⟩

theorem page2physFrom_above {address : Nat} {areas : List MemArea} (hBound : Bounded64 areas)
    (hAbove : ∀ area ∈ areas, area.addr + area.len < address) :
    page2physFrom address areas = 0 := by
  induction areas with
  | nil => rfl
  | cons area rest ih =>
    have hHead := hAbove area List.mem_cons_self
    unfold page2physFrom
    rw [add64_eq (hBound area List.mem_cons_self), if_pos hHead]
    exact ih (fun area h => hBound area (List.mem_cons_of_mem _ h))
      fun area h => hAbove area (List.mem_cons_of_mem _ h)

section

variable {mmap : List MmapEntry} {poff areasAt : Nat} {st st' : PageState}

/-- `init_mem_map` puts the map at the start of the area, in the direct map. -/
theorem mapArea_map {area area' : MemArea} (hOk : mapArea area = .ok area') :
    area'.map = vmmPhys2virt area'.addr := by
  unfold mapArea at hOk
  dsimp only at hOk
  split at hOk
  · cases hOk
  · cases hOk
    rfl

/-- The map of an area lies in the direct map, which leaves it room below the end of memory. -/
theorem map_bounds (h : DirectMapped mmap poff) (hOk : bootPages st areasAt mmap poff = .ok st')
    {i : Nat} {e : MmapEntry} {area : MemArea} (he : (available mmap)[i]? = some e)
    (hArea : st'.m.physMem[i]? = some area) : area.map = area.addr + VMM_RESERVED_DM_START ∧
      area.addr + VMM_RESERVED_DM_START + Page.size * area.mapSz < wordSize := by
  obtain ⟨hStart, hLen, hPages, -, hUsed⟩ := bootPages_area h.physical hOk he hArea
  obtain ⟨e', he', hMapArea⟩ := (bootPages_areas hOk i).2 area hArea
  have hMap := mapArea_map hMapArea
  have hMem := List.mem_of_getElem? he
  obtain ⟨hKernel, hRound⟩ := rounds (h.physical.region e hMem) h.physical.image
  have hRegion := h.region e hMem
  have hImage := h.image
  unfold dmSize at hRegion hImage
  have hEnd : area.addr ≤ 2 ^ 46 + 4096 ∧ area.len ≤ 2 ^ 46 := by
    rw [hStart, hLen]
    unfold MmapEntry.start
    split <;> omega
  have hRoom : area.addr + VMM_RESERVED_DM_START + Page.size * area.mapSz < wordSize := by
    obtain ⟨-, -, hMapped⟩ := area_bounds h.physical hOk he hArea
    unfold pfn PGSIZE at hMapped
    unfold VMM_RESERVED_DM_START Page.size wordSize
    omega
  refine ⟨?_, hRoom⟩
  rw [hMap]
  unfold vmmPhys2virt
  apply add64_eq
  unfold VMM_RESERVED_DM_START wordSize
  omega

/-- No record leads back to its page. -/
theorem page2phys_record (h : DirectMapped mmap poff)
    (hOk : bootPages st areasAt mmap poff = .ok st') {ref : PageRef}
    (hRef : InMap st'.m.physMem ref) :
    page2phys st'.m.physMem (pageAddress st'.m.physMem (some ref)) = 0 := by
  obtain ⟨area, hArea, hIndex⟩ := hRef
  obtain ⟨e, he, -⟩ := (bootPages_areas hOk ref.area).2 area hArea
  obtain ⟨hMap, hRoom⟩ := map_bounds h hOk he hArea
  have hEnds : ∀ area ∈ st'.m.physMem, area.addr + area.len < 2 ^ 54 := by
    intro area hMem
    exact (bootPages_mapsInside h.physical hOk area hMem).1
  have hBound : Bounded64 st'.m.physMem := fun area hMem =>
    (hEnds area hMem).trans (by decide)
  have hAddress : pageAddress st'.m.physMem (some ref) =
      area.addr + VMM_RESERVED_DM_START + Page.size * ref.index := by
    unfold VMM_RESERVED_DM_START Page.size wordSize at hRoom
    unfold pageAddress
    simp only [hArea, hMap]
    unfold Page.size
    rw [mul64_eq (by unfold wordSize; omega), add64_eq (by
      unfold VMM_RESERVED_DM_START wordSize
      omega)]
  have hHigh : 2 ^ 54 ≤ pageAddress st'.m.physMem (some ref) := by
    rw [hAddress]
    unfold VMM_RESERVED_DM_START
    omega
  unfold page2phys
  rw [if_neg (by omega)]
  exact page2physFrom_above hBound fun area hMem => by
    have := hEnds area hMem
    omega

/-- `page2phys` inverts `phys2page` only when there is nothing to invert. -/
theorem inverse_iff (h : DirectMapped mmap poff) (hOk : bootPages st areasAt mmap poff = .ok st') :
    Inverse st'.m.physMem ↔ ∀ area ∈ st'.m.physMem, area.mapSz = 0 := by
  constructor
  · intro hInverse area hMem
    by_contra hSome
    obtain ⟨i, hi⟩ := List.mem_iff_getElem?.mp hMem
    have hRef : InMap st'.m.physMem ⟨i, 0⟩ := ⟨area, hi, Nat.pos_of_ne_zero hSome⟩
    have hBack := hInverse.records _ hRef
    rw [page2phys_record h hOk hRef] at hBack
    cases hBack
  · intro hNone
    constructor
    · intro area hMem a hMapped
      obtain ⟨-, hLow, hHigh⟩ := hMapped
      rw [hNone area hMem] at hHigh
      omega
    · rintro ref ⟨area, hArea, hIndex⟩
      rw [hNone area (List.mem_of_getElem? hArea)] at hIndex
      omega

end

/-- A region of half a page has no record. -/
theorem inverse_sample : ∃ st,
    bootPages bootState 0xffff800000100000 [⟨0x100000, 0x800, 1⟩] 0x10000 = .ok st ∧
      Inverse st.m.physMem := by
  obtain ⟨st, hOk, hAreas⟩ := boot_completes bootState [⟨0x100000, 0x800, 1⟩] 0x10000
    [{ addr := 0x100000, len := 0x800, base := 0x100000, map := 0xffff888000100000 }]
    (by decide +kernel)
  refine ⟨st, hOk, (inverse_iff (by constructor <;> decide) hOk).mpr ?_⟩
  rw [hAreas]
  decide

/-- Page-aligned regions are no exception: 4 MiB at 1 MiB. -/
theorem record_without_page : DirectMapped roomyMap 0x10000 ∧
    (∀ e ∈ available roomyMap, PGSIZE ∣ e.addr ∧ PGSIZE ∣ e.len) ∧
    ∃ st, bootPages bootState 0xffff800000100000 roomyMap 0x10000 = .ok st ∧
      phys2page st.m.physMem 0x100000 = some ⟨0, 0⟩ ∧
      pageAddress st.m.physMem (some ⟨0, 0⟩) = 0xffff888000100000 ∧
      page2phys st.m.physMem 0xffff888000100000 = 0 ∧ ¬ Inverse st.m.physMem := by
  obtain ⟨st, hOk, hAreas⟩ := roomy_boots
  have hDirect : DirectMapped roomyMap 0x10000 := by constructor <;> decide
  refine ⟨hDirect, by decide, st, hOk, ?_⟩
  rw [hAreas]
  refine ⟨by decide, by decide, by decide, fun h => ?_⟩
  have hBack := h.records ⟨0, 0⟩ ⟨roomyArea, rfl, by decide⟩
  revert hBack
  decide

end LunarOS
