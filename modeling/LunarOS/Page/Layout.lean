import LunarOS.Logic.Dyadic
import LunarOS.Page.Alloc

/-!
# Where page maps and arenas lie

`page_init` moves the start of an area three times: `fill_area_info` rounds it to 8 bytes,
`page_init` replaces it when the area begins at 0, and `init_mem_map` puts the page map first
and the arena after it. `MmapEntry.start` and `MmapEntry.arena` are the results in terms of
the entry of the boot loader's map, and `bootPages_area` shows that a completed `page_init`
leaves them. The two main results ask when the arena is inside the region that was reported
(`wellPlaced_iff`), and when everything is clear of the kernel image (`kernelApart_iff`).
-/

namespace LunarOS

open Logic

/-! ## The boot loader's map -/

def MULTIBOOT_MEMORY_AVAILABLE : Nat := 1

/-- `multiboot_memory_map_t` -/
structure MmapEntry where
  addr : Nat
  len : Nat
  type : Nat
  deriving DecidableEq, Repr

def available (mmap : List MmapEntry) : List MmapEntry :=
  mmap.filter fun e => e.type == MULTIBOOT_MEMORY_AVAILABLE

/-- What `fill_area_info` writes for an available entry. -/
def MmapEntry.area (e : MmapEntry) : MemArea := { addr := alignTo e.addr 8, len := e.len }

/-- A page table entry has room for 52 bits of a physical address. -/
def physSize : Nat := 2 ^ 52

/-- The regions and the kernel image are physical memory. -/
structure Physical (mmap : List MmapEntry) (poff : Nat) : Prop where
  region : ∀ e ∈ available mmap, e.addr + e.len ≤ physSize
  image : poff ≤ physSize

namespace MmapEntry

/-- Bytes at the start of the region that are given up for the kernel image. -/
def used (e : MmapEntry) (poff : Nat) : Nat := if e.addr = 0 then pgroundup poff else 0

def start (e : MmapEntry) (poff : Nat) : Nat :=
  if e.addr = 0 then pgroundup poff else alignTo e.addr 8

/-- Records in the page map. -/
def pages (e : MmapEntry) (poff : Nat) : Nat := (e.len - e.used poff) / PGSIZE

/-- Start of the arena, behind the page map. -/
def arena (e : MmapEntry) (poff : Nat) : Nat :=
  alignTo (e.start poff + e.pages poff * Page.size) 8

def region (e : MmapEntry) : Span := ⟨e.addr, e.len⟩

end MmapEntry

namespace MemArea

def mapSpan (area : MemArea) : Span := ⟨area.addr, area.mapSz * Page.size⟩

def arenaSpan (area : MemArea) : Span := ⟨area.base, BUDDY_MAX_SIZE⟩

end MemArea

/-! ## What `page_init` leaves -/

section Place

variable {e : MmapEntry} {poff : Nat}

/-- The roundings of the source do not wrap on physical addresses. -/
theorem rounds (hRegion : e.addr + e.len ≤ physSize) (hImage : poff ≤ physSize) :
    pgroundup poff = (poff + 4095) / 4096 * 4096 ∧ alignTo e.addr 8 = (e.addr + 7) / 8 * 8 := by
  unfold physSize at hRegion hImage
  exact ⟨pgroundup_eq (by unfold wordSize; omega), alignTo_eq (by unfold wordSize; omega)⟩

theorem placeArea_eq (hRegion : e.addr + e.len ≤ physSize) :
    placeArea poff e.area = { e.area with addr := e.start poff, used := e.used poff } := by
  unfold physSize at hRegion
  have hRound : alignTo e.addr 8 = (e.addr + 7) / 8 * 8 := alignTo_eq (by unfold wordSize; omega)
  have hZero : pgroundup (alignTo e.addr 8) = 0 ↔ e.addr = 0 := by
    rw [hRound, pgroundup_eq (by unfold wordSize; omega)]
    omega
  unfold placeArea MmapEntry.area MmapEntry.start MmapEntry.used
  simp only [hZero]
  split <;> rfl

/-- The area with its page map. -/
def MmapEntry.mapped (e : MmapEntry) (poff : Nat) : MemArea where
  addr := e.start poff
  len := e.len
  base := e.arena poff
  map := vmmPhys2virt (e.start poff)
  mapSz := e.pages poff
  used := e.used poff + e.pages poff * Page.size

theorem used_le (hImage : poff ≤ physSize) : e.used poff ≤ physSize := by
  unfold physSize at hImage ⊢
  unfold MmapEntry.used
  split
  · rw [pgroundup_eq (by unfold wordSize; omega)]
    omega
  · omega

theorem mapArea_fits (hRegion : e.addr + e.len ≤ physSize) (hImage : poff ≤ physSize)
    (hFits : e.used poff ≤ e.len) :
    mapArea (placeArea poff e.area) = .ok (e.mapped poff) := by
  obtain ⟨hKernel, hRound⟩ := rounds hRegion hImage
  have hUsed := used_le (e := e) hImage
  have hLen : e.len ≤ physSize := by omega
  unfold physSize at hRegion hImage hUsed hLen
  have hStart : e.start poff ≤ 2 ^ 52 + 7 := by
    unfold MmapEntry.start
    split <;> omega
  have hPages : sub64 e.len (e.used poff) / PGSIZE = e.pages poff := by
    rw [sub64_eq hFits (by unfold wordSize; omega)]
    rfl
  have hMap : e.pages poff * Page.size ≤ e.len := by
    unfold MmapEntry.pages PGSIZE Page.size
    omega
  have hBytes : mul64 (e.pages poff) Page.size = e.pages poff * Page.size :=
    mul64_eq (by unfold wordSize; omega)
  rw [placeArea_eq (by unfold physSize; omega)]
  unfold mapArea MmapEntry.area
  dsimp only
  rw [hPages, hBytes, if_neg (by omega), add64_eq (by unfold wordSize; omega),
    add64_eq (by unfold wordSize; omega)]
  rfl

/-- The kernel image takes more than the whole region: the number of pages wraps, and no region
holds a map for so many. -/
theorem mapArea_refused (hRegion : e.addr + e.len ≤ physSize) (hImage : poff ≤ physSize)
    (hLess : e.len < e.used poff) : mapArea (placeArea poff e.area) =
      .error (.panic "Cannot allocate memory map\n") := by
  have hUsed := used_le (e := e) hImage
  unfold physSize at hRegion hUsed
  have hWrap : sub64 e.len (e.used poff) = wordSize - (e.used poff - e.len) :=
    sub64_borrow (by omega) (by unfold wordSize; omega)
  have hPages : 2 ^ 51 ≤ sub64 e.len (e.used poff) / PGSIZE ∧
      sub64 e.len (e.used poff) / PGSIZE ≤ 2 ^ 52 := by
    rw [hWrap]
    unfold wordSize PGSIZE
    omega
  rw [placeArea_eq (by unfold physSize; omega)]
  unfold mapArea MmapEntry.area
  dsimp only
  generalize sub64 e.len (e.used poff) / PGSIZE = npages at hPages
  have hBytes : mul64 npages Page.size = npages * 24 := mul64_eq (by
    unfold Page.size wordSize
    omega)
  rw [hBytes, if_pos (by omega)]

/-- An area that is not turned down. -/
theorem mapArea_ok {area : MemArea} (hRegion : e.addr + e.len ≤ physSize)
    (hImage : poff ≤ physSize) (hOk : mapArea (placeArea poff e.area) = .ok area) :
    area.addr = e.start poff ∧ area.len = e.len ∧ area.mapSz = e.pages poff ∧
      area.base = e.arena poff ∧ e.used poff ≤ e.len := by
  by_cases hFits : e.used poff ≤ e.len
  · rw [mapArea_fits hRegion hImage hFits] at hOk
    cases hOk
    exact ⟨rfl, rfl, rfl, rfl, hFits⟩
  · rw [mapArea_refused hRegion hImage (Nat.lt_of_not_le hFits)] at hOk
    cases hOk

end Place

theorem mapM_getElem {α β : Type} {f : α → Outcome β} {xs : List α} {ys : List β}
    (hOk : xs.mapM f = .ok ys) (i : Nat) :
    (∀ x, xs[i]? = some x → ∃ y, ys[i]? = some y ∧ f x = .ok y) ∧
      (∀ y, ys[i]? = some y → ∃ x, xs[i]? = some x ∧ f x = .ok y) := by
  induction xs generalizing ys i with
  | nil =>
    cases hOk
    simp
  | cons x xs ih =>
    rw [List.mapM_cons] at hOk
    obtain ⟨y, hHead, hOk⟩ := bind_eq_ok.mp hOk
    obtain ⟨rest, hTail, hOk⟩ := bind_eq_ok.mp hOk
    cases hOk
    cases i with
    | zero => simp [hHead]
    | succ i => simpa using ih hTail i

/-- What every element gives can be given by another function too. -/
theorem mapM_congr_ok {α β : Type} {f g : α → Outcome β} {xs : List α} {ys : List β}
    (hOk : xs.mapM f = .ok ys) (hSame : ∀ x y, f x = .ok y → g x = .ok y) :
    xs.mapM g = .ok ys := by
  induction xs generalizing ys with
  | nil => exact hOk
  | cons x xs ih =>
    rw [List.mapM_cons] at hOk ⊢
    obtain ⟨y, hHead, hOk⟩ := bind_eq_ok.mp hOk
    obtain ⟨rest, hTail, hOk⟩ := bind_eq_ok.mp hOk
    rw [hSame x y hHead, ok_bind_eq, ih hTail, ok_bind_eq]
    exact hOk

/-- The loop writes neither the areas nor the records. -/
theorem bootstrapFrom_same {i : Nat} {areas : List MemArea} {st st' : PageState}
    (hOk : bootstrapFrom i areas st = .ok st') :
    st'.m.physMem = st.m.physMem ∧ st'.m.page = st.m.page := by
  induction areas generalizing i st with
  | nil =>
    cases hOk
    exact ⟨rfl, rfl⟩
  | cons area rest ih =>
    unfold bootstrapFrom at hOk
    split at hOk
    · exact ih hOk
    · obtain ⟨⟨built, heap, reserved⟩, hInit, hOk⟩ := bind_eq_ok.mp hOk
      cases built with
      | none => cases hOk
      | some pair =>
        obtain ⟨heap', hPush, hOk⟩ := bind_eq_ok.mp hOk
        have hRest := ih hOk
        exact hRest

section Init

variable {mmap : List MmapEntry} {poff areasAt : Nat} {st st' : PageState}

/-- The boot sequence from the boot loader's map on. -/
def bootPages (st : PageState) (areasAt : Nat) (mmap : List MmapEntry) (poff : Nat) :
    Outcome PageState :=
  pageInit st areasAt ((available mmap).map MmapEntry.area) poff

/-- `init_mem_map` maps the areas and clears their records before the loop. -/
theorem bootPages_ok (hOk : bootPages st areasAt mmap poff = .ok st') :
    (((available mmap).map MmapEntry.area).map (placeArea poff)).mapM mapArea =
        .ok st'.m.physMem ∧
      (∀ ref, InMap st'.m.physMem ref → st'.m.page ref = {}) ∧
      bootstrapFrom 0 st'.m.physMem { st with
        physoff := poff
        physMemAt := areasAt
        m := { st.m with
          physMem := st'.m.physMem
          page := fun ref => if InMap st'.m.physMem ref then {} else st.m.page ref } } =
        .ok st' := by
  obtain ⟨st1, hMap, hBoot⟩ := bind_eq_ok.mp hOk
  obtain ⟨areas, hAreas, hMap⟩ := bind_eq_ok.mp hMap
  obtain rfl := Except.ok.inj hMap
  obtain ⟨hSame, hPage⟩ := bootstrapFrom_same hBoot
  dsimp only at hAreas hSame
  rw [hSame]
  refine ⟨mapM_congr_ok hAreas ?_, ?_, hBoot⟩
  · intro area area' hArea
    obtain ⟨mapped, hMapArea, hArea⟩ := bind_eq_ok.mp hArea
    obtain ⟨-, -, hArea⟩ := bind_eq_ok.mp hArea
    rw [hMapArea]
    exact hArea
  intro ref hIn
  rw [hPage]
  exact if_pos hIn

theorem bootPages_areas (hOk : bootPages st areasAt mmap poff = .ok st') (i : Nat) :
    (∀ e, (available mmap)[i]? = some e → ∃ area, st'.m.physMem[i]? = some area ∧
      mapArea (placeArea poff e.area) = .ok area) ∧
    (∀ area, st'.m.physMem[i]? = some area → ∃ e, (available mmap)[i]? = some e ∧
      mapArea (placeArea poff e.area) = .ok area) := by
  have hBoth := mapM_getElem (bootPages_ok hOk).1 i
  simp only [List.getElem?_map, Option.map_eq_some_iff] at hBoth
  constructor
  · intro e he
    exact hBoth.1 _ ⟨_, ⟨e, he, rfl⟩, rfl⟩
  · intro area hArea
    obtain ⟨_, ⟨_, ⟨e, he, rfl⟩, rfl⟩, hOk⟩ := hBoth.2 area hArea
    exact ⟨e, he, hOk⟩

theorem bootPages_length (hOk : bootPages st areasAt mmap poff = .ok st') :
    st'.m.physMem.length = (available mmap).length := by
  apply Nat.le_antisymm
  · by_contra hlt
    obtain ⟨e, he, -⟩ :=
      (bootPages_areas hOk _).2 _ (List.getElem?_eq_getElem (Nat.lt_of_not_le hlt))
    exact absurd (List.getElem?_eq_some_iff.mp he).1 (Nat.lt_irrefl _)
  · by_contra hlt
    obtain ⟨area, hArea, -⟩ :=
      (bootPages_areas hOk _).1 _ (List.getElem?_eq_getElem (Nat.lt_of_not_le hlt))
    exact absurd (List.getElem?_eq_some_iff.mp hArea).1 (Nat.lt_irrefl _)

/-- Entry by entry, where a completed `page_init` has put the map and the arena. -/
theorem bootPages_area (hPhys : Physical mmap poff)
    (hOk : bootPages st areasAt mmap poff = .ok st') {i : Nat} {e : MmapEntry} {area : MemArea}
    (he : (available mmap)[i]? = some e) (hArea : st'.m.physMem[i]? = some area) :
    area.addr = e.start poff ∧ area.len = e.len ∧ area.mapSz = e.pages poff ∧
      area.base = e.arena poff ∧ e.used poff ≤ e.len := by
  obtain ⟨area', hArea', hMap⟩ := (bootPages_areas hOk i).1 e he
  obtain rfl := Option.some.inj (hArea.symm.trans hArea')
  exact mapArea_ok (hPhys.region e (List.mem_of_getElem? he)) hPhys.image hMap

end Init

/-! ## A concrete boot -/

/-- Before `page_init`: 6 MiB directly mapped, and the reserved area below the direct map. -/
def bootState : PageState where
  physMemAt := 0
  m.heap := fun a =>
    if VMM_RESERVED_DM_START ≤ a ∧ a < VMM_RESERVED_DM_START + 0x600000 ∧ a % 1024 = 0 then
      some ⟨0, 0⟩
    else none
  m.physMem := []
  m.page := fun _ => {}
  buddies := fun _ => none
  reserved := { base := 0xffff800000110000 }

/-- The heap of `bootState` and the zeroed list heads of the first `n` areas. -/
def headedHeap (n : Nat) : Heap := fun a =>
  if 0xffff800000100000 ≤ a ∧ a < 0xffff800000100000 + MemArea.size * n ∧ a % 64 = 48 then
    some ⟨0, 0⟩
  else bootState.m.heap a

def headedState (n : Nat) : PageState := { bootState with m.heap := headedHeap n }

/-- The boot completes, with these areas. -/
theorem boot_completes (st0 : PageState) (mmap : List MmapEntry) (poff : Nat)
    (areas : List MemArea) (h : (bootPages st0 0xffff800000100000 mmap poff).toOption.map
      (fun st => st.m.physMem) = some areas) :
    ∃ st, bootPages st0 0xffff800000100000 mmap poff = .ok st ∧ st.m.physMem = areas := by
  obtain ⟨st, hOk, hAreas⟩ := Option.map_eq_some_iff.mp h
  exact ⟨st, toOption_eq_some.mp hOk, hAreas⟩

/-! ## Inside the reported region -/

/-- Map and arena are disjoint parts of the region that was reported. -/
structure WellPlaced (e : MmapEntry) (area : MemArea) : Prop where
  apart : area.mapSpan.Apart area.arenaSpan
  map : area.mapSpan.Within e.region
  arena : area.arenaSpan.Within e.region

/-- For an area that gets a buddy, everything lies inside the reported region exactly when the
rounded start, the page map and 512 KiB together fit into it. -/
theorem wellPlaced_iff {mmap : List MmapEntry} {poff areasAt : Nat} {st st' : PageState}
    (hPhys : Physical mmap poff) (hOk : bootPages st areasAt mmap poff = .ok st') {i : Nat}
    {e : MmapEntry} {area : MemArea} (he : (available mmap)[i]? = some e)
    (hArea : st'.m.physMem[i]? = some area) (hBuddy : BUDDY_MAX_SIZE ≤ area.len) :
    WellPlaced e area ↔ e.arena poff + BUDDY_MAX_SIZE ≤ e.addr + e.len := by
  obtain ⟨hStart, hLen, hPages, hBase, hUsed⟩ := bootPages_area hPhys hOk he hArea
  have hRegion := hPhys.region e (List.mem_of_getElem? he)
  have hImage := hPhys.image
  obtain ⟨hKernel, hRound⟩ := rounds hRegion hImage
  unfold physSize at hRegion hImage
  -- the map itself always fits
  have hMap : e.addr ≤ e.start poff ∧
      e.start poff + e.pages poff * Page.size ≤ e.addr + e.len := by
    rw [hLen] at hBuddy
    unfold BUDDY_MAX_SIZE at hBuddy
    unfold MmapEntry.pages MmapEntry.start Page.size PGSIZE
    unfold MmapEntry.used at hUsed ⊢
    split at hUsed <;> split <;> omega
  have hBehind : e.start poff + e.pages poff * Page.size ≤ e.arena poff :=
    (alignTo_of_fits (by unfold wordSize; omega)).1
  constructor
  · intro h
    have hEnd := h.arena.2
    rw [show area.arenaSpan.start = e.arena poff from hBase] at hEnd
    exact hEnd
  · intro hEnd
    refine ⟨Or.inl ?_, ⟨?_, ?_⟩, ⟨?_, ?_⟩⟩ <;>
      simp only [MemArea.mapSpan, MemArea.arenaSpan, MmapEntry.region, hStart, hPages, hBase] <;>
      omega

/-- 4 MiB at 1 MiB. -/
def roomyMap : List MmapEntry := [⟨0x100000, 0x400000, 1⟩]

def roomyArea : MemArea :=
  { addr := 0x100000, len := 0x400000, base := 0x106000, map := 0xffff888000100000, mapSz := 1024,
    used := 0x6000 }

theorem roomy_boots : ∃ st, bootPages bootState 0xffff800000100000 roomyMap 0x10000 = .ok st ∧
    st.m.physMem = [roomyArea] :=
  boot_completes bootState roomyMap 0x10000 [roomyArea] (by decide +kernel)

theorem roomyMap_physical : Physical roomyMap 0x10000 := by
  constructor <;> decide

/-- Two regions with a hole between them, and behind them one that is too short for a buddy. -/
def splitMap : List MmapEntry :=
  [⟨0x100000, 0x200000, 1⟩, ⟨0x400000, 0x100000, 1⟩, ⟨0x580000, 0x10000, 1⟩]

def splitAreas : List MemArea :=
  [{ addr := 0x100000, len := 0x200000, base := 0x103000, map := 0xffff888000100000, mapSz := 512,
     used := 0x3000 },
   { addr := 0x400000, len := 0x100000, base := 0x401800, map := 0xffff888000400000, mapSz := 256,
     used := 0x1800 },
   { addr := 0x580000, len := 0x10000, base := 0x580180, map := 0xffff888000580000, mapSz := 16,
     used := 0x180 }]

theorem split_boots : ∃ st,
    bootPages (headedState 3) 0xffff800000100000 splitMap 0x10000 = .ok st ∧
      st.m.physMem = splitAreas :=
  boot_completes (headedState 3) splitMap 0x10000 splitAreas (by decide +kernel)

theorem splitMap_physical : Physical splitMap 0x10000 := ⟨by decide, by decide⟩

theorem splitMap_disjoint :
    (available splitMap).Pairwise fun e f => Disjoint e.region.bytes f.region.bytes := by
  have hApart : (available splitMap).Pairwise fun e f => e.region.Apart f.region := by decide
  exact hApart.imp Span.Apart.disjoint

theorem wellPlaced_sample : ∃ st, bootPages bootState 0xffff800000100000 roomyMap 0x10000 = .ok st ∧
    st.m.physMem = [roomyArea] ∧ WellPlaced ⟨0x100000, 0x400000, 1⟩ roomyArea := by
  obtain ⟨st, hOk, hAreas⟩ := roomy_boots
  refine ⟨st, hOk, hAreas, ?_⟩
  apply (wellPlaced_iff roomyMap_physical hOk (i := 0) (by decide) (by rw [hAreas]; rfl)
    (by decide)).mpr
  decide

/-- An available region of 512 KiB gets a buddy of 512 KiB behind its page map, which ends
3 KiB past the region. -/
theorem arena_leaves_region : ∃ st area, Physical [⟨0x100000, 0x80000, 1⟩] 0x10000 ∧
    bootPages bootState 0xffff800000100000 [⟨0x100000, 0x80000, 1⟩] 0x10000 = .ok st ∧
    st.m.physMem = [area] ∧ BUDDY_MAX_SIZE ≤ area.len ∧ area.arenaSpan = ⟨0x100c00, 0x80000⟩ ∧
    ¬ WellPlaced ⟨0x100000, 0x80000, 1⟩ area := by
  obtain ⟨st, hOk, hAreas⟩ := boot_completes bootState [⟨0x100000, 0x80000, 1⟩] 0x10000
    [{ addr := 0x100000, len := 0x80000, base := 0x100c00, map := 0xffff888000100000,
       mapSz := 128, used := 0xc00 }] (by decide +kernel)
  refine ⟨st, _, by constructor <;> decide, hOk, hAreas, by decide, rfl, fun hPlaced => ?_⟩
  exact absurd hPlaced.arena.2 (by decide)

/-! ## Clear of the kernel image -/

/-- No page map and no arena has a byte below `poff`. -/
structure KernelApart (area : MemArea) (poff : Nat) : Prop where
  map : Disjoint area.mapSpan.bytes (Span.mk 0 poff).bytes
  arena : BUDDY_MAX_SIZE ≤ area.len → Disjoint area.arenaSpan.bytes (Span.mk 0 poff).bytes

theorem disjoint_low_iff {a : Span} {n : Nat} :
    Disjoint a.bytes (Span.mk 0 n).bytes ↔ a.len = 0 ∨ n ≤ a.start ∨ n = 0 := by
  simp only [Finset.disjoint_left, Span.bytes, Finset.mem_Ico]
  constructor
  · intro h
    by_contra hNot
    exact h (by omega : a.start ≤ a.start ∧ a.start < a.start + a.len) (by omega)
  · intro h x hx
    omega

theorem kernelApart_area_iff {mmap : List MmapEntry} {poff areasAt : Nat} {st st' : PageState}
    (hPhys : Physical mmap poff) (hOk : bootPages st areasAt mmap poff = .ok st') {i : Nat}
    {e : MmapEntry} {area : MemArea} (he : (available mmap)[i]? = some e)
    (hArea : st'.m.physMem[i]? = some area) :
    KernelApart area poff ↔ (PGSIZE ≤ e.len → e.addr ≠ 0 → poff ≤ alignTo e.addr 8) := by
  obtain ⟨hStart, hLen, hPages, hBase, hUsed⟩ := bootPages_area hPhys hOk he hArea
  have hRegion := hPhys.region e (List.mem_of_getElem? he)
  have hImage := hPhys.image
  obtain ⟨hKernel, hRound⟩ := rounds hRegion hImage
  unfold physSize at hRegion hImage
  have hBehind : e.start poff + e.pages poff * Page.size ≤ e.arena poff := by
    apply (alignTo_of_fits _).1
    unfold MmapEntry.start MmapEntry.pages Page.size PGSIZE wordSize
    split <;> omega
  have hIff : KernelApart area poff ↔
      (e.pages poff * Page.size = 0 ∨ poff ≤ e.start poff ∨ poff = 0) ∧
        (BUDDY_MAX_SIZE ≤ e.len → poff ≤ e.arena poff ∨ poff = 0) := by
    have hSize : BUDDY_MAX_SIZE ≠ 0 := by decide
    constructor
    · rintro ⟨hMap, hArena⟩
      rw [disjoint_low_iff] at hMap
      simp only [disjoint_low_iff, MemArea.mapSpan, MemArea.arenaSpan, hStart, hPages, hBase, hLen,
        hSize, false_or] at hMap hArena
      exact ⟨hMap, hArena⟩
    · rintro ⟨hMap, hArena⟩
      refine ⟨?_, ?_⟩ <;>
        simp only [disjoint_low_iff, MemArea.mapSpan, MemArea.arenaSpan, hStart, hPages, hBase, hLen,
          hSize, false_or]
      · exact hMap
      · exact hArena
  rw [hIff]
  by_cases hZero : e.addr = 0
  · have hAfter : poff ≤ e.start poff := by
      unfold MmapEntry.start
      rw [if_pos hZero]
      omega
    constructor
    · intro _ _ hne
      exact absurd hZero hne
    · intro _
      exact ⟨by omega, fun _ => by omega⟩
  · have hAt : e.start poff = alignTo e.addr 8 := if_neg hZero
    have hCount : e.pages poff = e.len / 4096 := by
      unfold MmapEntry.pages MmapEntry.used PGSIZE
      rw [if_neg hZero, Nat.sub_zero]
    unfold PGSIZE
    unfold Page.size at hBehind ⊢
    unfold BUDDY_MAX_SIZE
    constructor
    · rintro ⟨hMap, -⟩ hLong _
      omega
    · intro hAbove
      refine ⟨?_, ?_⟩
      · by_cases hLong : 4096 ≤ e.len
        · have := hAbove hLong hZero
          omega
        · omega
      · intro hLong
        have := hAbove (by omega) hZero
        omega

/-- No map and no arena touches the kernel image exactly when every available region of at
least a page that does not begin at 0 begins behind the image. -/
theorem kernelApart_iff {mmap : List MmapEntry} {poff areasAt : Nat} {st st' : PageState}
    (hPhys : Physical mmap poff) (hOk : bootPages st areasAt mmap poff = .ok st') :
    (∀ area ∈ st'.m.physMem, KernelApart area poff) ↔
      ∀ e ∈ available mmap, PGSIZE ≤ e.len → e.addr ≠ 0 → poff ≤ alignTo e.addr 8 := by
  constructor
  · intro h e he
    obtain ⟨i, hi⟩ := List.mem_iff_getElem?.mp he
    obtain ⟨area, hArea, -⟩ := (bootPages_areas hOk i).1 e hi
    exact (kernelApart_area_iff hPhys hOk hi hArea).mp (h area (List.mem_of_getElem? hArea))
  · intro h area hMem
    obtain ⟨i, hi⟩ := List.mem_iff_getElem?.mp hMem
    obtain ⟨e, he, -⟩ := (bootPages_areas hOk i).2 area hi
    exact (kernelApart_area_iff hPhys hOk he hi).mpr (h e (List.mem_of_getElem? he))

theorem kernelApart_sample : ∃ st,
    bootPages bootState 0xffff800000100000 roomyMap 0x10000 = .ok st ∧
      ∀ area ∈ st.m.physMem, KernelApart area 0x10000 := by
  obtain ⟨st, hOk, -⟩ := roomy_boots
  exact ⟨st, hOk, (kernelApart_iff roomyMap_physical hOk).mpr (by decide)⟩

/-- The region does not begin at 0, and the page map overwrites a kernel of 2 MiB. -/
theorem map_overwrites_kernel : ∃ st area, Physical [⟨0x1000, 0x400000, 1⟩] 0x200000 ∧
    bootPages bootState 0xffff800000100000 [⟨0x1000, 0x400000, 1⟩] 0x200000 = .ok st ∧
    st.m.physMem = [area] ∧ area.mapSpan = ⟨0x1000, 0x6000⟩ ∧ ¬ KernelApart area 0x200000 := by
  obtain ⟨st, hOk, hAreas⟩ := boot_completes bootState [⟨0x1000, 0x400000, 1⟩] 0x200000
    [{ addr := 0x1000, len := 0x400000, base := 0x7000, map := 0xffff888000001000,
       mapSz := 1024, used := 0x6000 }] (by decide +kernel)
  refine ⟨st, _, by constructor <;> decide, hOk, hAreas, rfl, fun hApart => ?_⟩
  exact absurd (disjoint_low_iff.mp hApart.map) (by decide)

end LunarOS
