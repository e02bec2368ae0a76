import LunarOS.Machine.List

/-!
# Memory areas and page records (`page.h`, `phys2page`)

`phys_mem` is an array of areas; area `i` owns an array `map` of `map_sz` page records. A
`struct page *` is either `NULL` or `&phys_mem[area].map[index]`, and using it is a fault
when it is `NULL` or when `index` is past the map.
-/

namespace LunarOS

/-- `mem_area_t`; the list head `buddies` lives in the heap, at `buddiesAt`. -/
structure MemArea where
  addr : Nat
  len : Nat
  base : Nat := 0
  map : Nat := 0
  mapSz : Nat := 0
  used : Nat := 0
  deriving DecidableEq, Repr

/-- `struct page`; `slab` and `buddy` are pointers. -/
structure Page where
  slab : Nat := 0
  buddy : Nat := 0
  order : Nat := 0
  deriving DecidableEq, Repr

/-- `&phys_mem[area].map[index]` -/
structure PageRef where
  area : Nat
  index : Nat
  deriving DecidableEq, Repr

/-- Memory as the allocators see it: list nodes, areas and page records. -/
structure Mem where
  heap : Heap
  physMem : List MemArea
  page : PageRef → Page

/-- The scan of `phys2page`, started at area `i`. -/
def phys2pageFrom (address : Nat) : Nat → List MemArea → Option PageRef
  | _, [] => none
  | i, area :: rest =>
    if add64 area.addr area.len < address then phys2pageFrom address (i + 1) rest
    else some ⟨i, sub64 (pfn address) (pfn area.addr)⟩

def phys2page (physMem : List MemArea) (addr : Nat) : Option PageRef :=
  if addr = 0 then none else phys2pageFrom addr 0 physMem

/-- The record exists: its area does and its index is inside the map. -/
def InMap (physMem : List MemArea) (ref : PageRef) : Prop :=
  ∃ area, physMem[ref.area]? = some area ∧ ref.index < area.mapSz

instance (physMem : List MemArea) (ref : PageRef) : Decidable (InMap physMem ref) :=
  match h : physMem[ref.area]? with
  | none => isFalse (by simp [InMap, h])
  | some area => decidable_of_iff (ref.index < area.mapSz) (by simp [InMap, h])

namespace Mem

/-- Read through a `struct page *`. -/
def readPage (m : Mem) : Option PageRef → Outcome Page
  | none => .error (.fault .page)
  | some ref => if InMap m.physMem ref then .ok (m.page ref) else .error (.fault .page)

/-- Write through a `struct page *`. -/
def writePage (m : Mem) (ref? : Option PageRef) (f : Page → Page) : Outcome Mem :=
  match ref? with
  | none => .error (.fault .page)
  | some ref =>
    if InMap m.physMem ref then
      .ok { m with page := fun r => if r = ref then f (m.page ref) else m.page r }
    else .error (.fault .page)

theorem readPage_eq {m : Mem} {ref : PageRef} (h : InMap m.physMem ref) :
    m.readPage (some ref) = .ok (m.page ref) := if_pos h

theorem writePage_eq {m : Mem} {ref : PageRef} (h : InMap m.physMem ref) (f : Page → Page) :
    m.writePage (some ref) f =
      .ok { m with page := fun r => if r = ref then f (m.page ref) else m.page r } := if_pos h

theorem readPage_ok {m : Mem} {ref : PageRef} {page : Page}
    (hOk : m.readPage (some ref) = .ok page) : InMap m.physMem ref ∧ page = m.page ref := by
  unfold readPage at hOk
  dsimp only at hOk
  split at hOk
  · next hIn =>
    cases hOk
    exact ⟨hIn, rfl⟩
  · cases hOk

theorem writePage_ok {m m' : Mem} {ref? : Option PageRef} {f : Page → Page}
    (hOk : m.writePage ref? f = .ok m') : ∃ ref, ref? = some ref ∧ InMap m.physMem ref ∧
      m' = { m with page := fun r => if r = ref then f (m.page ref) else m.page r } := by
  unfold writePage at hOk
  split at hOk
  · cases hOk
  · next ref =>
    split at hOk
    · next hIn =>
      cases hOk
      exact ⟨ref, rfl, hIn, rfl⟩
    · cases hOk

/-- Writing a record changes neither the heap nor the areas. -/
theorem writePage_frame {m m' : Mem} {ref? : Option PageRef} {f : Page → Page}
    (hOk : m.writePage ref? f = .ok m') : m'.heap = m.heap ∧ m'.physMem = m.physMem := by
  obtain ⟨ref, -, -, rfl⟩ := writePage_ok hOk
  exact ⟨rfl, rfl⟩

end Mem

end LunarOS
