import LunarOS.Page.Slabs
import LunarOS.Slab.Init

/-!
# From an object back to its slab

`init_slab` stores the slab in the page record of the first byte of a block, and
`vmm_virt2slab` looks for it in the record of the address it is given. The records are
`Owners` with `phys2page` as the key. A block starts behind the page map, so its bytes have
one record only if the map happens to end on a page boundary.

No run of `init_slab` gets as far as the objects of a class (`initSlab_never`). `FillStep` is
therefore about the part of the loop body behind `alloc_cache`, for any state of the caches and
with any calls of the page allocator in between. `slabOwned_iff` says which steps leave every
byte of every block with its slab.
-/

namespace LunarOS

open Logic

/-! ## The second half of the loop body -/

/-- What is left of the loop body of `init_slab` after `alloc_cache`. -/
def initObjects (s : Slabs) (i fuel : Nat) : Outcome Slabs := do
  match ← pageAlloc s.pages 1 fuel with
  | (none, _) => .error (.panic "Not enough memory for SLAB!")
  | (some p, pages) => do
    let m ← pages.m.writePage (phys2page pages.m.physMem p) fun page =>
      { page with slab := s.nodeAt i }
    fillCache { s with pages := { pages with m } } i (vmmPhys2virt p)

theorem initClass_eq (s : Slabs) (i fuel : Nat) : initClass s i fuel =
    if objSize i = 0 then .ok s
    else allocCache s i 1 fuel >>= fun s => initObjects s i fuel := rfl

theorem fillCache_ok {s s' : Slabs} {i p : Nat} (hOk : fillCache s i p = .ok s') :
    s'.pages = s.pages ∧ s'.slabsAt = s.slabsAt := by
  obtain ⟨c, -, hOk⟩ := bind_eq_ok.mp hOk
  cases hOk
  exact ⟨rfl, rfl⟩

theorem initObjects_ok {s s' : Slabs} {i fuel p : Nat} {pages : PageState}
    (hAlloc : pageAlloc s.pages 1 fuel = .ok (some p, pages))
    (hOk : initObjects s i fuel = .ok s') : s'.slabsAt = s.slabsAt ∧
      ∃ m, pages.m.writePage (phys2page pages.m.physMem p)
        (fun page => { page with slab := s.nodeAt i }) = .ok m ∧ s'.pages = { pages with m } := by
  unfold initObjects at hOk
  rw [hAlloc, ok_bind_eq] at hOk
  obtain ⟨m, hWrite, hOk⟩ := bind_eq_ok.mp hOk
  obtain ⟨hPages, hTable⟩ := fillCache_ok hOk
  exact ⟨hTable, m, hWrite, hPages⟩

/-! ## Runs -/

/-- The slabs and, as a ghost, the classes that have got their objects, each with its block. -/
structure Filling where
  s : Slabs
  given : List (Nat × Nat)

inductive FillOp
  | page (op : PageOp)
  | fill (i fuel : Nat)
  deriving DecidableEq, Repr

/-- A call of the page allocator, or the objects of a class that has none yet. -/
inductive FillStep (r : Filling) : FillOp → Filling → Prop
  | page {op : PageOp} {pages : PageState} :
      PageStep r.s.pages op pages → FillStep r (.page op) ⟨{ r.s with pages }, r.given⟩
  | fill {i fuel p : Nat} {pages : PageState} {s : Slabs} : i < slabClasses →
      (∀ q, (i, q) ∉ r.given) → pageAlloc r.s.pages 1 fuel = .ok (some p, pages) →
      initObjects r.s i fuel = .ok s → FillStep r (.fill i fuel) ⟨s, (i, p) :: r.given⟩

/-- The pointer leads to the slab of class `i`, and `ksize` and `kfree` go by it. -/
structure OfClass (s : Slabs) (i ptr : Nat) : Prop where
  slab : vmmVirt2slab s.pages.m ptr = .ok (s.nodeAt i)
  ksize : ksize s ptr = .ok (objSize i)
  kfree : kfree s ptr = cachePut s (s.cache i) ptr

/-- Every byte of every block is of the class that got the block. -/
def SlabOwned (r : Filling) : Prop :=
  ∀ i p, (i, p) ∈ r.given → ∀ o < PGSIZE, OfClass r.s i (add64 (vmmPhys2virt p) o)

/-- Nothing inside a block of a class is freed. The block that is handed out for a class belongs
to an area with a page-aligned base, lies in the direct map and has not been given to another
class. -/
def Harmless (r : Filling) : FillOp → Prop
  | .page (.alloc _) => True
  | .page (.free addr) => ∀ i q, (i, q) ∈ r.given → addr ∉ pageBlock q
  | .fill _ fuel => ∃ b p pages, Serves r.s.pages 1 fuel b ∧ PGSIZE ∣ b.base ∧
      pageAlloc r.s.pages 1 fuel = .ok (some p, pages) ∧ p + PGSIZE ≤ dmSize ∧
        ∀ i q, (i, q) ∈ r.given → q ≠ p

/-! ## Lookup -/

/-- The direct map is as far as a physical address can be translated back. -/
theorem vmmVirt2phys_direct {a : Nat} (h : a < 2 ^ 62) :
    vmmVirt2phys (vmmPhys2virt a) = if a < dmSize then .ok a else .error (.panic "TODO") := by
  split
  · next hLow => exact vmmVirt2phys_phys2virt hLow
  · next hHigh =>
    have hNot : ¬ (VMM_RESERVED_BOOT_START ≤ vmmPhys2virt a ∧
        vmmPhys2virt a ≤ VMM_RESERVED_BOOT_END) ∧
        ¬ (VMM_RESERVED_DM_START ≤ vmmPhys2virt a ∧ vmmPhys2virt a ≤ VMM_RESERVED_DM_END) := by
      unfold vmmPhys2virt add64 wordSize VMM_RESERVED_BOOT_START VMM_RESERVED_BOOT_END
      unfold VMM_RESERVED_DM_START VMM_RESERVED_DM_END VMM_KERNEL_START
      unfold dmSize at hHigh
      omega
    unfold vmmVirt2phys
    rw [if_neg hNot.1, if_neg hNot.2]

theorem add64_phys2virt (p o : Nat) : add64 (vmmPhys2virt p) o = vmmPhys2virt (p + o) := by
  unfold vmmPhys2virt add64
  rw [Nat.mod_add_mod]
  congr 1
  omega

/-- `vmm_virt2slab` finds the owner of the record. -/
theorem vmmVirt2slab_eq_ok {m : Mem} {p o t : Nat} (hSmall : p + o < 2 ^ 62) (ht : t ≠ 0)
    {given : List (Nat × Nat)} : vmmVirt2slab m (add64 (vmmPhys2virt p) o) = .ok t ↔
      p + o < dmSize ∧ Owners.LeadsTo (recordOf m.physMem) ⟨m.slabs, given⟩ (p + o) t := by
  unfold vmmVirt2slab
  rw [add64_phys2virt, vmmVirt2phys_direct hSmall]
  by_cases hLow : p + o < dmSize
  · rw [if_pos hLow, ok_bind_eq]
    constructor
    · intro hOk
      refine ⟨hLow, ?_⟩
      cases hFound : phys2page m.physMem (p + o) with
      | none =>
        rw [hFound] at hOk
        exact absurd (Except.ok.inj hOk).symm ht
      | some ref =>
        rw [hFound] at hOk
        obtain ⟨page, hPage, hOk⟩ := bind_eq_ok.mp hOk
        obtain ⟨hIn, rfl⟩ := Mem.readPage_ok hPage
        exact ⟨ref, recordOf_eq_some.mpr ⟨hFound, hIn⟩, Except.ok.inj hOk⟩
    · rintro ⟨-, ref, hRef, hSlab⟩
      obtain ⟨hFound, hIn⟩ := recordOf_eq_some.mp hRef
      rw [hFound]
      dsimp only
      rw [Mem.readPage_eq hIn, ok_bind_eq]
      exact congrArg Except.ok hSlab
  · rw [if_neg hLow]
    constructor
    · intro hOk
      cases hOk
    · rintro ⟨hLess, -⟩
      exact absurd hLess hLow

theorem nodeAt_ne_zero {s : Slabs} (h : 0 < s.slabsAt) (i : Nat) : s.nodeAt i ≠ 0 := by
  unfold Slabs.nodeAt
  omega

theorem ofClass_iff {s : Slabs} {i ptr : Nat} (hTable : 0 < s.slabsAt) (hi : i < slabClasses) :
    OfClass s i ptr ↔ vmmVirt2slab s.pages.m ptr = .ok (s.nodeAt i) := by
  constructor
  · exact OfClass.slab
  · intro hSlab
    have hNode := nodeAt_ne_zero hTable i
    have hPtr : ptr ≠ 0 := by
      rintro rfl
      cases hSlab
    constructor
    · exact hSlab
    · unfold ksize
      rw [if_neg hPtr, hSlab, ok_bind_eq, if_neg hNode, node_nodeAt s hi.le]
      rfl
    · unfold kfree
      rw [if_neg hPtr, hSlab, ok_bind_eq, if_neg hNode, node_nodeAt s hi.le, ok_bind_eq]

/-! ## The invariant -/

namespace Filling

/-- The records and the blocks given so far, each to the address of its node. -/
def owners (r : Filling) : Owners Nat PageRef Nat :=
  ⟨r.s.pages.m.slabs, r.given.map fun g => (r.s.nodeAt g.1, g.2)⟩

theorem mem_given {r : Filling} {t q : Nat} :
    (t, q) ∈ r.owners.given ↔ ∃ i, (i, q) ∈ r.given ∧ t = r.s.nodeAt i := by
  unfold owners
  simp only [List.mem_map, Prod.mk.injEq, Prod.exists]
  constructor
  · rintro ⟨i, _, hMem, rfl, rfl⟩
    exact ⟨i, hMem, rfl⟩
  · rintro ⟨i, hMem, rfl⟩
    exact ⟨i, q, hMem, rfl, rfl⟩

end Filling

theorem forall_given_cons {given : List (Nat × Nat)} {i p : Nat} {P : Nat → Nat → Prop} :
    (∀ j q, (j, q) ∈ (i, p) :: given → P j q) ↔ P i p ∧ ∀ j q, (j, q) ∈ given → P j q := by
  simp only [← Prod.forall (p := fun g => g ∈ (i, p) :: given → P g.1 g.2), List.forall_mem_cons]
  exact and_congr_right fun _ => Prod.forall

/-- The classes that have objects, and where the blocks lie. -/
structure Placing (areas : List MemArea) (r : Filling) : Prop where
  areas_eq : r.s.pages.m.physMem = areas
  table : 0 < r.s.slabsAt
  class_lt : ∀ i p, (i, p) ∈ r.given → i < slabClasses
  record : ∀ i p, (i, p) ∈ r.given → ∃ ref, recordOf areas p = some ref

/-- `SlabOwned` in terms of owners. -/
theorem Placing.slabOwned_iff_kept {areas : List MemArea} {r : Filling} (h : Placing areas r)
    (hInside : MapsInside areas) : SlabOwned r ↔ (∀ i p, (i, p) ∈ r.given → p + PGSIZE ≤ dmSize) ∧
      r.owners.Kept (recordOf areas) pageBlock := by
  have hByte : ∀ i p, (i, p) ∈ r.given → ∀ o < PGSIZE,
      (OfClass r.s i (add64 (vmmPhys2virt p) o) ↔
        p + o < dmSize ∧ r.owners.LeadsTo (recordOf areas) (p + o) (r.s.nodeAt i)) := by
    intro i p hMem o ho
    obtain ⟨ref, hRef⟩ := h.record i p hMem
    have hSmall := hInside.recordOf_lt hRef
    unfold PGSIZE at ho
    rw [ofClass_iff h.table (h.class_lt i p hMem), vmmVirt2slab_eq_ok (by omega)
      (nodeAt_ne_zero h.table i), h.areas_eq]
    rfl
  constructor
  · intro hOwned
    constructor
    · intro i p hMem
      have hLast := ((hByte i p hMem 4095 (by decide)).mp (hOwned i p hMem 4095 (by decide))).1
      unfold PGSIZE
      omega
    · intro t p hMem x hx
      obtain ⟨i, hGiven, rfl⟩ := Filling.mem_given.mp hMem
      obtain ⟨hLe, hLt⟩ := mem_pageBlock.mp hx
      have hOffset : x - p < PGSIZE := by omega
      have hLeads := ((hByte i p hGiven (x - p) hOffset).mp (hOwned i p hGiven _ hOffset)).2
      rwa [Nat.add_sub_cancel' hLe] at hLeads
  · rintro ⟨hWindow, hKept⟩ i p hMem o ho
    have hEnd := hWindow i p hMem
    exact (hByte i p hMem o ho).mpr ⟨by omega, hKept _ p (Filling.mem_given.mpr ⟨i, hMem, rfl⟩) _
      (mem_pageBlock.mpr ⟨Nat.le_add_right p o, by omega⟩)⟩

/-- What the steps keep as long as they are harmless. -/
structure FillInv (mmap : List MmapEntry) (poff : Nat) (areas : List MemArea) (r : Filling) :
    Prop where
  managed : Managed mmap poff r.s.pages
  placing : Placing areas r
  window : ∀ i p, (i, p) ∈ r.given → p + PGSIZE ≤ dmSize
  sorted : Owners.Sorted (recordOf areas) pageBlock r.owners
  /-- the owners are known -/
  known : ∀ a t, r.owners.LeadsTo (recordOf areas) a t →
    t = 0 ∨ ∃ i p, (i, p) ∈ r.given ∧ t = r.s.nodeAt i

namespace FillInv

variable {mmap : List MmapEntry} {poff : Nat} {areas : List MemArea} {r r' : Filling}
  {pages : PageState}

theorem slabOwned (h : FillInv mmap poff areas r) (hInside : MapsInside areas) : SlabOwned r :=
  (h.placing.slabOwned_iff_kept hInside).mpr ⟨h.window, h.sorted.kept⟩

theorem aligned (h : FillInv mmap poff areas r) (hInside : MapsInside areas) {i q : Nat}
    (hq : (i, q) ∈ r.given) : PGSIZE ∣ q := by
  obtain ⟨ref, hRef⟩ := h.placing.record i q hq
  exact (hInside.oneKey_iff hRef).mp (h.sorted.oneKey _ q (Filling.mem_given.mpr ⟨i, hq, rfl⟩))

/-- A block has the record of an address exactly when the address lies in it. -/
theorem record_ne_iff (h : FillInv mmap poff areas r) (hInside : MapsInside areas) {a : Nat}
    {ref : PageRef} (hRef : recordOf areas a = some ref) :
    (∀ u q, (u, q) ∈ r.owners.given → recordOf areas q ≠ some ref) ↔
      ∀ i q, (i, q) ∈ r.given → a ∉ pageBlock q := by
  constructor
  · intro hApart i q hq hMem
    have hOne := h.sorted.oneKey _ q (Filling.mem_given.mpr ⟨i, hq, rfl⟩) a hMem
    exact hApart _ q (Filling.mem_given.mpr ⟨i, hq, rfl⟩) (hOne.symm.trans hRef)
  · intro hApart u q hq hSame
    obtain ⟨i, hGiven, -⟩ := Filling.mem_given.mp hq
    exact hApart i q hGiven (hInside.recordOf_mem hSame (h.aligned hInside hGiven) hRef)

/-- The page allocator has left the field `slab` alone. -/
theorem unchanged (h : FillInv mmap poff areas r) (hManaged : Managed mmap poff pages)
    (hSlabs : pages.m.slabs = r.s.pages.m.slabs) (hAreas : pages.m.physMem = r.s.pages.m.physMem) :
    FillInv mmap poff areas ⟨{ r.s with pages }, r.given⟩ := by
  have hSame : Filling.owners ⟨{ r.s with pages }, r.given⟩ = r.owners := by
    unfold Filling.owners
    rw [← hSlabs]
    rfl
  exact ⟨hManaged, ⟨hAreas.trans h.placing.areas_eq, h.placing.table, h.placing.class_lt,
    h.placing.record⟩, h.window, hSame ▸ h.sorted, hSame ▸ h.known⟩

/-- A record has been cleared. -/
theorem cleared (h : FillInv mmap poff areas r) (hInside : MapsInside areas)
    (hManaged : Managed mmap poff pages) (hAreas : pages.m.physMem = r.s.pages.m.physMem) {a : Nat}
    {ref : PageRef} (hRef : recordOf areas a = some ref)
    (hSlabs : pages.m.slabs = Function.update r.s.pages.m.slabs ref 0) :
    (SlabOwned ⟨{ r.s with pages }, r.given⟩ ↔ ∀ i q, (i, q) ∈ r.given → a ∉ pageBlock q) ∧
      ((∀ i q, (i, q) ∈ r.given → a ∉ pageBlock q) →
        FillInv mmap poff areas ⟨{ r.s with pages }, r.given⟩) := by
  have hSame : Filling.owners ⟨{ r.s with pages }, r.given⟩ = r.owners.clear ref 0 := by
    unfold Filling.owners Owners.clear
    rw [← hSlabs]
    rfl
  have hPlacing : Placing areas ⟨{ r.s with pages }, r.given⟩ :=
    ⟨hAreas.trans h.placing.areas_eq, h.placing.table, h.placing.class_lt, h.placing.record⟩
  have hNobody : ∀ p, (0, p) ∉ r.owners.given := by
    intro p hp
    obtain ⟨i, -, hZero⟩ := Filling.mem_given.mp hp
    exact nodeAt_ne_zero h.placing.table i hZero.symm
  have hApart := h.record_ne_iff hInside hRef
  constructor
  · rw [hPlacing.slabOwned_iff_kept hInside, hSame,
      Owners.clear_iff h.sorted pageBlock_self hNobody, hApart]
    exact and_iff_right h.window
  · intro hOutside
    refine ⟨hManaged, hPlacing, h.window, hSame ▸ h.sorted.clear (hApart.mpr hOutside), ?_⟩
    intro b t hLeads
    rw [hSame] at hLeads
    by_cases hKey : recordOf areas b = some ref
    · exact .inl ((Owners.leadsTo_written hKey).mp hLeads).symm
    · exact h.known b t ((Owners.leadsTo_update t hKey).mp hLeads)

/-- What a call of `initObjects` does to the records and the nodes. -/
theorem gives (h : FillInv mmap poff areas r) {i fuel p : Nat} {s : Slabs} (hi : i < slabClasses)
    (hAlloc : pageAlloc r.s.pages 1 fuel = .ok (some p, pages))
    (hOk : initObjects r.s i fuel = .ok s) :
    Managed mmap poff s.pages ∧ s.nodeAt = r.s.nodeAt ∧ Placing areas ⟨s, (i, p) :: r.given⟩ ∧
      ∃ ref, recordOf areas p = some ref ∧
        Filling.owners ⟨s, (i, p) :: r.given⟩ = r.owners.give (r.s.nodeAt i) p ref := by
  obtain ⟨hTable, m, hWrite, hPages⟩ := initObjects_ok hAlloc hOk
  have hAreas := (PageStep.alloc hAlloc).physMem
  have hNode : s.nodeAt = r.s.nodeAt := by
    unfold Slabs.nodeAt
    rw [hTable]
  obtain ⟨ref, hFound, hIn, hUpdate⟩ :=
    Mem.slabs_writePage (t := r.s.nodeAt i) hWrite fun _ => rfl
  rw [pageAlloc_slabs hAlloc] at hUpdate
  rw [hAreas, h.placing.areas_eq] at hFound hIn
  have hRef : recordOf areas p = some ref := recordOf_eq_some.mpr ⟨hFound, hIn⟩
  refine ⟨?_, hNode, ⟨?_, hTable ▸ h.placing.table, ?_, ?_⟩, ref, hRef, ?_⟩
  · rw [hPages]
    exact (PageStep.managed h.managed (.alloc hAlloc)).writePage hWrite
  · dsimp only
    rw [hPages]
    exact (Mem.writePage_frame hWrite).2.trans (hAreas.trans h.placing.areas_eq)
  · exact forall_given_cons.mpr ⟨hi, h.placing.class_lt⟩
  · exact forall_given_cons.mpr ⟨⟨ref, hRef⟩, h.placing.record⟩
  · unfold Filling.owners Owners.give
    dsimp only
    rw [hPages, hNode, ← hUpdate]
    rfl

/-- Aligned blocks have one record only if they are one block. -/
theorem given_ne_iff (h : FillInv mmap poff areas r) (hInside : MapsInside areas) {p : Nat}
    {ref : PageRef} (hRef : recordOf areas p = some ref) (hAligned : PGSIZE ∣ p) :
    (∀ u q, (u, q) ∈ r.owners.given → recordOf areas q ≠ some ref) ↔
      ∀ j q, (j, q) ∈ r.given → q ≠ p := by
  rw [h.record_ne_iff hInside hRef]
  constructor
  · rintro hOutside j q hq rfl
    exact hOutside j q hq (pageBlock_self q)
  · intro hNe j q hq hMem
    apply hNe j q hq
    have hOther := h.aligned hInside hq
    rw [mem_pageBlock] at hMem
    unfold PGSIZE at *
    omega

/-- A class has got the block at `p`. -/
theorem filled (h : FillInv mmap poff areas r) (hInside : MapsInside areas) {i fuel p : Nat}
    {s : Slabs} (hi : i < slabClasses) (hNew : ∀ q, (i, q) ∉ r.given)
    (hAlloc : pageAlloc r.s.pages 1 fuel = .ok (some p, pages))
    (hOk : initObjects r.s i fuel = .ok s) :
    (SlabOwned ⟨s, (i, p) :: r.given⟩ ↔
      PGSIZE ∣ p ∧ p + PGSIZE ≤ dmSize ∧ ∀ j q, (j, q) ∈ r.given → q ≠ p) ∧
    (PGSIZE ∣ p → p + PGSIZE ≤ dmSize → (∀ j q, (j, q) ∈ r.given → q ≠ p) →
      FillInv mmap poff areas ⟨s, (i, p) :: r.given⟩) := by
  obtain ⟨hManaged, hNode, hPlacing, ref, hRef, hSame⟩ := h.gives hi hAlloc hOk
  have hNobody : ∀ x, ¬ r.owners.LeadsTo (recordOf areas) x (r.s.nodeAt i) := by
    intro x hLeads
    rcases h.known x _ hLeads with hZero | ⟨j, q, hq, hClass⟩
    · exact nodeAt_ne_zero h.placing.table i hZero
    · exact hNew q (nodeAt_inj.mp hClass ▸ hq)
  constructor
  · rw [hPlacing.slabOwned_iff_kept hInside, hSame,
      Owners.give_iff h.sorted pageBlock_self hNobody hRef, hInside.oneKey_iff hRef,
      forall_given_cons]
    constructor
    · rintro ⟨⟨hWindow, -⟩, hAligned, hOthers⟩
      exact ⟨hAligned, hWindow, (h.given_ne_iff hInside hRef hAligned).mp hOthers⟩
    · rintro ⟨hAligned, hWindow, hNe⟩
      exact ⟨⟨hWindow, h.window⟩, hAligned, (h.given_ne_iff hInside hRef hAligned).mpr hNe⟩
  · intro hAligned hWindow hNe
    have hApart := (h.given_ne_iff hInside hRef hAligned).mpr hNe
    refine ⟨hManaged, hPlacing, forall_given_cons.mpr ⟨hWindow, h.window⟩, ?_, ?_⟩
    · rw [hSame]
      exact h.sorted.give hRef ((hInside.oneKey_iff hRef).mpr hAligned) hApart
    · intro b t hLeads
      rw [hSame] at hLeads
      dsimp only
      rw [hNode]
      by_cases hKey : recordOf areas b = some ref
      · have hOwner := (Owners.leadsTo_written hKey).mp hLeads
        exact .inr ⟨i, p, List.mem_cons_self, hOwner.symm⟩
      · rcases h.known b t ((Owners.leadsTo_update t hKey).mp hLeads) with hZero | ⟨j, q, hq, hEq⟩
        · exact .inl hZero
        · exact .inr ⟨j, q, List.mem_cons_of_mem _ hq, hEq⟩

end FillInv

/-! ## Steps -/

theorem Serves.unique {st : PageState} {npages fuel : Nat} {b b' : BuddyArea}
    (h : Serves st npages fuel b) (h' : Serves st npages fuel b') : b = b' := by
  obtain ⟨at_, hFind, hb⟩ := h
  obtain ⟨at', hFind', hb'⟩ := h'
  obtain rfl := Option.some.inj (Except.ok.inj (hFind.symm.trans hFind'))
  exact Option.some.inj (hb.symm.trans hb')

section

variable {mmap : List MmapEntry} {poff : Nat} {areas : List MemArea} {r r' : Filling} {op : FillOp}

/-- The block is page aligned exactly when its area is. -/
theorem Managed.block_aligned {st st' : PageState} {fuel p : Nat} (h : Managed mmap poff st)
    (hOk : pageAlloc st 1 fuel = .ok (some p, st')) :
    ∃ b, Serves st 1 fuel b ∧ (PGSIZE ∣ p ↔ PGSIZE ∣ b.base) := by
  obtain ⟨b, j, hServes, -, -, -, -, rfl⟩ := pageAlloc_block h hOk
  exact ⟨b, hServes, page_dvd_block_iff (by omega) (bucketOf_le 19 1) b⟩

theorem FillStep.owned_iff (h : FillInv mmap poff areas r) (hInside : MapsInside areas)
    (hStep : FillStep r op r') :
    (SlabOwned r' ↔ Harmless r op) ∧ (Harmless r op → FillInv mmap poff areas r') := by
  cases hStep with
  | @page op pages hCall =>
    have hManaged := PageStep.managed h.managed hCall
    have hAreas := hCall.physMem
    cases hCall with
    | alloc hOk =>
      have hInv := h.unchanged hManaged (pageAlloc_slabs hOk) hAreas
      exact ⟨iff_of_true (hInv.slabOwned hInside) trivial, fun _ => hInv⟩
    | @free addr _ hOk =>
      rcases pageFree_slabs hOk with ⟨rfl, hSlabs⟩ | ⟨ref, hFound, hIn, hSlabs⟩
      · have hInv := h.unchanged hManaged hSlabs hAreas
        refine ⟨iff_of_true (hInv.slabOwned hInside) ?_, fun _ => hInv⟩
        -- `NULL` is in no block
        intro i q hq hMem
        obtain ⟨ref, hRef⟩ := h.placing.record i q hq
        have hZero : q = 0 := Nat.le_zero.mp (mem_pageBlock.mp hMem).1
        rw [hZero] at hRef
        cases hRef
      · rw [h.placing.areas_eq] at hFound hIn
        exact h.cleared hInside hManaged hAreas (recordOf_eq_some.mpr ⟨hFound, hIn⟩) hSlabs
  | @fill i fuel p pages s hi hNew hAlloc hOk =>
    obtain ⟨hIff, hInv⟩ := h.filled hInside hi hNew hAlloc hOk
    obtain ⟨b, hServes, hAligned⟩ := h.managed.block_aligned hAlloc
    have hHarmless : Harmless r (.fill i fuel) ↔
        PGSIZE ∣ p ∧ p + PGSIZE ≤ dmSize ∧ ∀ j q, (j, q) ∈ r.given → q ≠ p := by
      constructor
      · rintro ⟨b', p', pages', hServes', hBase, hAlloc', hWindow, hNe⟩
        obtain rfl := hServes.unique hServes'
        obtain ⟨hBlock, -⟩ := Prod.mk.inj (Except.ok.inj (hAlloc.symm.trans hAlloc'))
        obtain rfl := Option.some.inj hBlock
        exact ⟨hAligned.mpr hBase, hWindow, hNe⟩
      · rintro ⟨hPage, hWindow, hNe⟩
        exact ⟨b, p, pages, hServes, hAligned.mp hPage, hAlloc, hWindow, hNe⟩
    refine ⟨hIff.trans hHarmless.symm, fun hCond => ?_⟩
    obtain ⟨hPage, hWindow, hNe⟩ := hHarmless.mp hCond
    exact hInv hPage hWindow hNe

/-- A run of harmless steps keeps the invariant. -/
theorem FillInv.run (h : FillInv mmap poff areas r) (hInside : MapsInside areas)
    (hReach : Reach (Guarded Harmless FillStep) r r') : FillInv mmap poff areas r' :=
  hReach.invariant (FillInv mmap poff areas)
    (fun _ _ _ h hStep => (hStep.2.owned_iff h hInside).2 hStep.1) h

end

/-! ## After the boot -/

section Boot

variable {mmap : List MmapEntry} {poff areasAt : Nat} {st st' : PageState}

theorem bootPages_fillInv (hPhys : Physical mmap poff)
    (hEnv : Environment st areasAt (available mmap).length)
    (hOk : bootPages st areasAt mmap poff = .ok st') {s : Slabs} (hPages : s.pages = st')
    (hTable : 0 < s.slabsAt) : FillInv mmap poff st'.m.physMem ⟨s, []⟩ := by
  subst hPages
  refine ⟨bootPages_managed hPhys hEnv hOk, ⟨rfl, hTable, by simp, by simp⟩, by simp,
    Owners.sorted_nil _ _ _, ?_⟩
  rintro a t ⟨ref, hRef, hSlab⟩
  have hClear := bootPages_page hOk (recordOf_eq_some.mp hRef).2
  left
  rw [← hSlab]
  exact congrArg Page.slab hClear

end Boot

theorem slabOwned_iff {mmap : List MmapEntry} {poff areasAt : Nat} {st0 st1 : PageState}
    {s0 : Slabs} {r r' : Filling} {op : FillOp} (hPhys : Physical mmap poff)
    (hEnv : Environment st0 areasAt (available mmap).length)
    (hBoot : bootPages st0 areasAt mmap poff = .ok st1) (hPages : s0.pages = st1)
    (hTable : 0 < s0.slabsAt) (hReach : Reach (Guarded Harmless FillStep) ⟨s0, []⟩ r)
    (hStep : FillStep r op r') : SlabOwned r' ↔ Harmless r op := by
  have hInside := bootPages_mapsInside hPhys hBoot
  have hInv := (bootPages_fillInv hPhys hEnv hBoot hPages hTable).run hInside hReach
  exact (hStep.owned_iff hInv hInside).1

/-! ## The first class after a concrete boot -/

/-- The class gets its objects whenever `page_alloc` has a block and the cache is there. -/
theorem initObjects_exists {s : Slabs} {i fuel p : Nat} {pages : PageState} {c : Cache}
    (hAlloc : pageAlloc s.pages 1 fuel = .ok (some p, pages)) (hCache : s.mem (s.cache i) = some c) :
    ∃ s', initObjects s i fuel = .ok s' := by
  cases pageAlloc_returns hAlloc with
  | @served at_ _ b b' m' m'' ref _ _ _ hRef hWrite =>
    obtain ⟨ref', hSame, hIn, -⟩ := Mem.writePage_ok hWrite
    obtain rfl := Option.some.inj hSame
    have hAreas := (Mem.writePage_frame hWrite).2
    have hStore := Mem.writePage_eq (m := m'') (hAreas ▸ hIn)
      fun page => { page with slab := s.nodeAt i }
    unfold initObjects
    rw [hAlloc, ok_bind_eq]
    dsimp only
    rw [hAreas, hRef, hStore, ok_bind_eq]
    unfold fillCache Slabs.readCache
    rw [hCache]
    exact ⟨_, rfl⟩

/-- The slabs after a boot, with room for a cache at every address. -/
def stockedSlabs (st : PageState) : Slabs :=
  { bootSlabs st fun _ => some ⟨0, 512, fun _ => 0⟩ with
    cache := fun i => 0xffff800000140000 + 8192 * i }

theorem stockedSlabs_table (st : PageState) : 0 < (stockedSlabs st).slabsAt := by
  unfold stockedSlabs bootSlabs
  dsimp only
  omega

theorem stockedSlabs_fill {st pages : PageState} {fuel p : Nat}
    (hAlloc : pageAlloc st 1 fuel = .ok (some p, pages)) :
    ∃ s, FillStep ⟨stockedSlabs st, []⟩ (.fill 0 fuel) ⟨s, [(0, p)]⟩ := by
  have hPages : pageAlloc (stockedSlabs st).pages 1 fuel = .ok (some p, pages) := hAlloc
  obtain ⟨s, hOk⟩ := initObjects_exists (i := 0) hPages rfl
  exact ⟨s, .fill (by decide) (by simp) hPages hOk⟩

/-- The page map of `roomyMap` ends at `0x106000`. -/
theorem slabOwned_sample : ∃ st s, bootPages bootState 0xffff800000100000 roomyMap 0x10000 = .ok st ∧
    FillStep ⟨stockedSlabs st, []⟩ (.fill 0 20) ⟨s, [(0, 0x185000)]⟩ ∧
      SlabOwned ⟨s, [(0, 0x185000)]⟩ := by
  obtain ⟨st, pages, hBoot, hAlloc⟩ := boot_alloc roomyMap 0x10000 1 0x185000 (by decide +kernel)
  obtain ⟨s, hStep⟩ := stockedSlabs_fill hAlloc
  refine ⟨st, s, hBoot, hStep, ?_⟩
  have hManaged := managed_of_reach roomyMap_physical bootState_environment hBoot ⟨[], .nil⟩
  obtain ⟨b, hServes, hAligned⟩ := hManaged.block_aligned hAlloc
  have hReach : Reach (Guarded Harmless FillStep) ⟨stockedSlabs st, []⟩ ⟨stockedSlabs st, []⟩ :=
    ⟨[], .nil⟩
  refine (slabOwned_iff roomyMap_physical bootState_environment hBoot rfl (stockedSlabs_table st)
    hReach hStep).mpr ?_
  exact ⟨b, 0x185000, pages, hServes, hAligned.mp (by decide), hAlloc, by decide, by simp⟩

/-- 384 pages: their map of 9 KiB ends in the middle of a page. -/
def oddMap : List MmapEntry := [⟨0x100000, 0x180000, 1⟩]

theorem oddMap_physical : Physical oddMap 0x10000 := ⟨by decide, by decide⟩

/-- The block is at `0x181400`, and its last KiB is on a page whose record has no slab: there
`ksize` is 0. -/
theorem tail_has_no_slab : ∃ st s, Physical oddMap 0x10000 ∧
    Environment bootState 0xffff800000100000 (available oddMap).length ∧
    bootPages bootState 0xffff800000100000 oddMap 0x10000 = .ok st ∧
    FillStep ⟨stockedSlabs st, []⟩ (.fill 0 20) ⟨s, [(0, 0x181400)]⟩ ∧
    ksize s 0xffff888000181400 = .ok 8 ∧ ksize s 0xffff888000182000 = .ok 0 ∧
    ¬ SlabOwned ⟨s, [(0, 0x181400)]⟩ := by
  have hCalls : ((bootPages bootState 0xffff800000100000 oddMap 0x10000).toOption.bind fun st =>
      (pageAlloc st 1 20).toOption.bind fun (p, _) =>
        (initObjects (stockedSlabs st) 0 20).toOption.map fun s =>
          (p, (ksize s 0xffff888000181400).toOption, (ksize s 0xffff888000182000).toOption)) =
      some (some 0x181400, some 8, some 0) := by decide +kernel
  obtain ⟨st, hBoot, hCalls⟩ := Option.bind_eq_some_iff.mp hCalls
  obtain ⟨⟨p, pages⟩, hAlloc, hCalls⟩ := Option.bind_eq_some_iff.mp hCalls
  obtain ⟨s, hFill, hEnd⟩ := Option.map_eq_some_iff.mp hCalls
  simp only [Prod.mk.injEq] at hEnd
  obtain ⟨rfl, hFirst, hTail⟩ := hEnd
  have hStep : FillStep ⟨stockedSlabs st, []⟩ (.fill 0 20) ⟨s, [(0, 0x181400)]⟩ :=
    .fill (by decide) (by simp) (toOption_eq_some.mp hAlloc) (toOption_eq_some.mp hFill)
  have hNone := toOption_eq_some.mp hTail
  refine ⟨st, s, oddMap_physical, bootState_environment, toOption_eq_some.mp hBoot, hStep,
    toOption_eq_some.mp hFirst, hNone, fun hOwned => ?_⟩
  have hSize := (hOwned 0 0x181400 List.mem_cons_self 0xC00 (by decide)).ksize
  have hAt : add64 (vmmPhys2virt 0x181400) 0xC00 = 0xffff888000182000 := by decide
  rw [hAt, hNone] at hSize
  exact absurd (Except.ok.inj hSize) (by decide)

end LunarOS
