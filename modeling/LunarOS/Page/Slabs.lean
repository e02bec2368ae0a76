import LunarOS.Logic.Owners
import LunarOS.Page.Index
import LunarOS.Page.Managed

/-!
# The field `slab` of the page records

`page_init` clears it, `page_alloc` leaves it alone, and `page_free` clears the one record that
`phys2page` finds. `recordOf` is `phys2page` as the key of an address: a block of one page has
one record exactly when it starts on a page boundary (`MapsInside.oneKey_iff`).
-/

namespace LunarOS

open Logic

/-! ## What the page allocator does to the records -/

/-- `page->slab` of every record. -/
def Mem.slabs (m : Mem) (ref : PageRef) : Nat := (m.page ref).slab

/-- Storing a slab pointer. -/
theorem Mem.slabs_writePage {m m' : Mem} {ref? : Option PageRef} {f : Page → Page} {t : Nat}
    (hOk : m.writePage ref? f = .ok m') (hSlab : ∀ page, (f page).slab = t) :
    ∃ ref, ref? = some ref ∧ InMap m.physMem ref ∧ m'.slabs = Function.update m.slabs ref t := by
  obtain ⟨ref, rfl, hIn, rfl⟩ := writePage_ok hOk
  refine ⟨ref, rfl, hIn, ?_⟩
  funext r
  unfold slabs
  dsimp only
  by_cases hSame : r = ref
  · rw [hSame, if_pos rfl, hSlab, Function.update_self]
  · rw [if_neg hSame, Function.update_of_ne hSame]

/-- A store to another field. -/
theorem Mem.slabs_writeOther {m m' : Mem} {ref? : Option PageRef} {f : Page → Page}
    (hOk : m.writePage ref? f = .ok m') (hSlab : ∀ page, (f page).slab = page.slab) :
    m'.slabs = m.slabs := by
  obtain ⟨ref, -, -, rfl⟩ := writePage_ok hOk
  funext r
  unfold slabs
  dsimp only
  by_cases hSame : r = ref
  · rw [hSame, if_pos rfl, hSlab]
  · rw [if_neg hSame]

theorem Mem.slabs_setOrder {m m' : Mem} {ref? : Option PageRef} {bkt : Nat}
    (hOk : m.setOrder ref? bkt = .ok m') : m'.slabs = m.slabs :=
  slabs_writeOther hOk fun _ => rfl

theorem treeWalkLoop_slabs {bkt : Nat} : ∀ (levels node walker : Nat) {b b' : BuddyArea}
    {m m' : Mem} {ret : Option Nat},
    buddyTreeWalkLoop bkt levels node walker b m = .ok (ret, b', m') → m'.slabs = m.slabs := by
  intro levels
  induction levels with
  | zero =>
    intro node walker b b' m m' ret hOk
    cases hOk
    rfl
  | succ levels ih =>
    intro node walker b b' m m' ret hOk
    unfold buddyTreeWalkLoop at hOk
    obtain ⟨isSplit, -, hOk⟩ := bind_eq_ok.mp hOk
    cases isSplit with
    | true => exact ih _ _ hOk
    | false =>
      obtain ⟨b1, -, hOk⟩ := bind_eq_ok.mp hOk
      obtain ⟨head, -, hOk⟩ := bind_eq_ok.mp hOk
      obtain ⟨heap, -, hOk⟩ := bind_eq_ok.mp hOk
      split at hOk
      · obtain ⟨m1, hOrder, hOk⟩ := bind_eq_ok.mp hOk
        cases hOk
        have hSame := Mem.slabs_setOrder hOrder
        exact hSame
      · have hSame := ih _ _ hOk
        exact hSame

theorem buddyAlloc_slabs {b b' : BuddyArea} {m m' : Mem} {r fuel : Nat} {ret : Option Nat}
    (hOk : buddyAlloc b m r fuel = .ok (ret, b', m')) : m'.slabs = m.slabs := by
  cases buddyAlloc_returns hOk with
  | refused => rfl
  | @walked bkt _ _ _ _ _ _ _ _ hWalk =>
    have hSame := treeWalkLoop_slabs bkt 0 1 hWalk
    exact hSame
  | popped _ _ _ _ hOrder =>
    have hSame := Mem.slabs_setOrder hOrder
    exact hSame

/-- `page_alloc` writes the fields `order` and `buddy`. -/
theorem pageAlloc_slabs {st st' : PageState} {npages fuel : Nat} {ret : Option Nat}
    (hOk : pageAlloc st npages fuel = .ok (ret, st')) : st'.m.slabs = st.m.slabs := by
  cases pageAlloc_returns hOk with
  | unserved => rfl
  | refused _ _ hAlloc => exact buddyAlloc_slabs hAlloc
  | served _ _ hAlloc _ hWrite =>
    have hSame := Mem.slabs_writeOther hWrite fun _ => rfl
    exact hSame.trans (buddyAlloc_slabs hAlloc)

/-- `buddy_free` clears the record of the address it is given. -/
theorem buddyFree_slabs {b b' : BuddyArea} {m m' : Mem} {ptr : Nat} {ref : PageRef}
    (hRef : phys2page m.physMem ptr = some ref) (hOk : buddyFree b m ptr = .ok (b', m')) :
    InMap m.physMem ref ∧ m'.slabs = Function.update m.slabs ref 0 := by
  have hPtr : ptr ≠ 0 := by
    rintro rfl
    cases hRef
  unfold buddyFree at hOk
  rw [if_neg hPtr, hRef] at hOk
  obtain ⟨page, -, hOk⟩ := bind_eq_ok.mp hOk
  obtain ⟨⟨node, bkt, b1, h1⟩, -, hOk⟩ := bind_eq_ok.mp hOk
  obtain ⟨head, -, hOk⟩ := bind_eq_ok.mp hOk
  obtain ⟨h2, -, hOk⟩ := bind_eq_ok.mp hOk
  obtain ⟨m1, hWrite, hOk⟩ := bind_eq_ok.mp hOk
  cases hOk
  obtain ⟨ref', hSame, hIn, hSlabs⟩ := Mem.slabs_writePage hWrite fun _ => rfl
  obtain rfl := Option.some.inj hSame
  exact ⟨hIn, hSlabs⟩

/-- So does `page_free`. -/
theorem pageFree_slabs {st st' : PageState} {addr : Nat} (hOk : pageFree st addr = .ok st') :
    addr = 0 ∧ st'.m.slabs = st.m.slabs ∨
      ∃ ref, phys2page st.m.physMem addr = some ref ∧ InMap st.m.physMem ref ∧
        st'.m.slabs = Function.update st.m.slabs ref 0 := by
  rcases pageFree_ok hOk with ⟨hZero, rfl⟩ | ⟨ref, b, b', m', hRef, -, hFree, rfl⟩
  · exact .inl ⟨hZero, rfl⟩
  · obtain ⟨hIn, hSlabs⟩ := buddyFree_slabs hRef hFree
    exact .inr ⟨ref, hRef, hIn, hSlabs⟩

/-! ## The key of an address -/

/-- The record that `phys2page` finds, when it exists. -/
def recordOf (areas : List MemArea) (a : Nat) : Option PageRef :=
  (phys2page areas a).filter fun ref => InMap areas ref

theorem recordOf_eq_some {areas : List MemArea} {a : Nat} {ref : PageRef} :
    recordOf areas a = some ref ↔ phys2page areas a = some ref ∧ InMap areas ref := by
  unfold recordOf
  rw [Option.filter_eq_some_iff]
  simp

/-- The bytes of the block at `p`. -/
def pageBlock (p : Nat) : Set Nat := Set.Ico p (p + PGSIZE)

section Key

variable {areas : List MemArea} {p a : Nat} {ref : PageRef}

theorem mem_pageBlock : a ∈ pageBlock p ↔ p ≤ a ∧ a < p + PGSIZE := Iff.rfl

theorem pageBlock_self (p : Nat) : p ∈ pageBlock p := by
  rw [mem_pageBlock]
  unfold PGSIZE
  omega

theorem MapsInside.recordOf_lt (h : MapsInside areas) (hRef : recordOf areas p = some ref) :
    p < 2 ^ 54 := by
  obtain ⟨hSome, -⟩ := recordOf_eq_some.mp hRef
  obtain ⟨-, k, area, hArea, hEnd, -⟩ := h.bounded.eq_some_iff.mp hSome
  have := (h area (List.mem_of_getElem? hArea)).1
  omega

theorem MapsInside.same_page (h : MapsInside areas) {b : Nat} (ha : recordOf areas a = some ref)
    (hb : recordOf areas b = some ref) : pfn a = pfn b := by
  have hSmall : 2 ^ 54 < wordSize := by decide
  exact h.bounded.same_page ((h.recordOf_lt ha).trans hSmall) ((h.recordOf_lt hb).trans hSmall)
    (recordOf_eq_some.mp ha).1 (recordOf_eq_some.mp hb).1

/-- The rest of a page has the record of its first byte. -/
theorem MapsInside.recordOf_page (h : MapsInside areas) (hRef : recordOf areas p = some ref)
    (hAligned : PGSIZE ∣ p) (ha : a ∈ pageBlock p) : recordOf areas a = some ref := by
  obtain ⟨hSome, hIn⟩ := recordOf_eq_some.mp hRef
  obtain ⟨hNe, k, area, hArea, hEnd, rfl, hBefore⟩ := h.bounded.eq_some_iff.mp hSome
  obtain ⟨hLe, hLt⟩ := mem_pageBlock.mp ha
  have hSame : pfn a = pfn p := by
    unfold pfn
    unfold PGSIZE at *
    omega
  obtain ⟨hFits, hSize, hInside⟩ := h area (List.mem_of_getElem? hArea)
  obtain ⟨area', hArea', hIndex⟩ := hIn
  obtain rfl := Option.some.inj (hArea.symm.trans hArea')
  -- the page ends where its map does or before
  have hPage : area.HasPage p := (index_lt_iff (by unfold wordSize; omega) hSize
    (by unfold wordSize; omega)).mp hIndex
  have hReach : a ≤ area.addr + area.len := by
    have := hPage.2
    unfold pfn at this hInside
    unfold PGSIZE at *
    omega
  refine recordOf_eq_some.mpr ⟨h.bounded.eq_some_iff.mpr ⟨by omega, k, area, hArea, hReach, ?_, ?_⟩,
    area, hArea, hIndex⟩
  · rw [hSame]
  · intro j hj before hj'
    exact Nat.lt_of_lt_of_le (hBefore j hj before hj') hLe

/-- A block has one record exactly when it starts on a page boundary. -/
theorem MapsInside.oneKey_iff (h : MapsInside areas) (hRef : recordOf areas p = some ref) :
    Owners.OneKey (recordOf areas) pageBlock p ↔ PGSIZE ∣ p := by
  constructor
  · intro hOne
    have hLast := hOne (p + 4095) (mem_pageBlock.mpr (by unfold PGSIZE; omega))
    have hSame := h.same_page (hLast.trans hRef) hRef
    unfold pfn at hSame
    unfold PGSIZE at *
    omega
  · intro hAligned a ha
    exact (h.recordOf_page hRef hAligned ha).trans hRef.symm

/-- Page-aligned blocks have different records, but for one block with itself. -/
theorem MapsInside.recordOf_mem (h : MapsInside areas) (hRef : recordOf areas p = some ref)
    (hAligned : PGSIZE ∣ p) (ha : recordOf areas a = some ref) : a ∈ pageBlock p := by
  have hSame := h.same_page ha hRef
  rw [mem_pageBlock]
  unfold pfn at hSame
  unfold PGSIZE at *
  omega

end Key

/-! ## After `page_init` -/

section Boot

variable {mmap : List MmapEntry} {poff areasAt : Nat} {st st' : PageState}

/-- `init_mem_map` clears every record. -/
theorem bootPages_page (hOk : bootPages st areasAt mmap poff = .ok st') {ref : PageRef}
    (hIn : InMap st'.m.physMem ref) : st'.m.page ref = {} :=
  (bootPages_ok hOk).2.1 ref hIn

end Boot

end LunarOS
