import LunarOS.Buddy.Init
import LunarOS.Buddy.Kept
import LunarOS.Logic.Run
import LunarOS.Page.Layout

/-!
# Runs of the page allocator

`page_init` starts in an `Environment`: list nodes have kernel addresses, and the areas and the
reserved area lie in the kernel image. From there on every completed `page_alloc` and
`page_free` keeps `Managed`: each buddy area has the constants of 512 KiB and manages the
arena of an available entry. Nothing is asked of the address that is freed.
-/

namespace LunarOS

open Logic BuddyArea

/-! ## What is built from the reserved area -/

theorem alignTo_room {sz : Nat} (hSz : sz ≤ 2 ^ 32) :
    sz ≤ alignTo sz 8 ∧ alignTo sz 8 ≤ sz + 7 := by
  have hFits : sz + 7 < wordSize := by unfold wordSize; omega
  exact ⟨(alignTo_of_fits hFits).1, (alignTo_of_fits hFits).2.1⟩

/-- The end of the reserved area, which no call moves. -/
def Reserved.fini (r : Reserved) : Nat := r.base + r.available

theorem mmReservedAlloc_ok {r r' : Reserved} {sz a : Nat} (hEnd : r.fini ≤ VMM_RESERVED_DM_START)
    (hSz : sz ≤ 2 ^ 32) (hOk : mmReservedAlloc r sz = (some a, r')) :
    a = r.base ∧ r.base + sz ≤ r'.base ∧ r'.fini = r.fini := by
  obtain ⟨hGe, hLe⟩ := alignTo_room hSz
  unfold Reserved.fini at hEnd ⊢
  unfold VMM_RESERVED_DM_START at hEnd
  unfold mmReservedAlloc at hOk
  dsimp only at hOk
  split at hOk
  · cases hOk
  · next hRoom =>
    rw [add64_eq (by unfold wordSize; omega), sub64_eq (by omega) (by unfold wordSize; omega)] at hOk
    cases hOk
    dsimp only
    omega

/-- Structure, tree and list heads follow each other in the reserved area. -/
theorem buddyAreaInit_placed {r r' : Reserved} {h h' : Heap} {base self : Nat} {b : BuddyArea}
    (hEnd : r.fini ≤ VMM_RESERVED_DM_START)
    (hOk : buddyAreaInit mmReservedAlloc r h base BUDDY_MAX_SIZE = .ok (some (self, b), h', r')) :
    self = r.base ∧ self + BuddyArea.size ≤ b.freelist ∧ b.freelist + 16 * 8 ≤ r'.base ∧
      r'.fini = r.fini := by
  have hBuckets : ∀ b : BuddyArea, b.max = 2 ^ 19 → b.min = PGSIZE → buddyMaxBucket b = 8 :=
    fun b hMax hMin => buddyMaxBucket_eq (by omega) (by omega) hMax hMin
  unfold buddyAreaInit at hOk
  dsimp only at hOk
  rw [hBuckets _ rfl rfl] at hOk
  split at hOk
  · cases hOk
  · next hSelf =>
    obtain ⟨hAt, hNext, hFini⟩ := mmReservedAlloc_ok hEnd (by unfold BuddyArea.size; omega) hSelf
    split at hOk
    · cases hOk
    · next hTree =>
      have hSmall : intShl 8 / 1 ≤ 2 ^ 32 := by rw [intShl_eq (by omega)]; omega
      obtain ⟨-, hNext', hFini'⟩ := mmReservedAlloc_ok (hFini ▸ hEnd) hSmall hTree
      split at hOk
      · cases hOk
      · next hHeads =>
        have hBytes : mul64 8 16 = 128 := mul64_eq (by unfold wordSize; omega)
        rw [hBytes] at hHeads
        obtain ⟨hAt'', hNext'', hFini''⟩ :=
          mmReservedAlloc_ok (hFini'.trans hFini ▸ hEnd) (by omega) hHeads
        obtain ⟨head, -, hOk⟩ := bind_eq_ok.mp hOk
        obtain ⟨heap, -, hOk⟩ := bind_eq_ok.mp hOk
        cases hOk
        refine ⟨hAt, ?_, ?_, hFini''.trans (hFini'.trans hFini)⟩ <;> dsimp only <;> omega

/-- `buddy_area_init` makes the node `head` and the list heads, and no others. -/
theorem buddyAreaInit_nodes {σ : Type} {alloc : σ → Nat → Option Nat × σ} {st st' : σ}
    {h h' : Heap} {base max self : Nat} {b : BuddyArea}
    (hOk : buddyAreaInit alloc st h base max = .ok (some (self, b), h', st')) (x : Nat) :
    (h' x).isSome → (h x).isSome ∨ x = self + BuddyArea.headOffset ∨
      ∃ i < buddyMaxBucket b, x = b.freelist + 16 * i := by
  obtain ⟨-, -, -, -, -, -, head, -, hPush⟩ := buddyAreaInit_ok hOk
  intro hx
  rw [listPushback_sameNodes hPush, freelistInit_listInit] at hx
  split at hx
  · next hHead => exact Or.inr (Or.inr hHead)
  · split at hx
    · next hSelf => exact Or.inr (Or.inl hSelf)
    · exact Or.inl hx

/-! ## What every call keeps -/

/-- Where `page_init` starts: `areasAt` is the address of `n` areas, which were allocated in the
reserved area. -/
structure Environment (st : PageState) (areasAt n : Nat) : Prop where
  /-- list nodes have kernel addresses -/
  kernel : ∀ a, (st.m.heap a).isSome → VMM_KERNEL_START ≤ a ∧ a < wordSize
  buddies : ∀ a, st.buddies a = none
  areas_ge : VMM_KERNEL_START ≤ areasAt
  areas_le : areasAt + MemArea.size * n ≤ st.reserved.base
  reserved_le : st.reserved.fini ≤ VMM_RESERVED_DM_START

/-- The area manages the arena of an available entry. -/
structure Manages (mmap : List MmapEntry) (poff : Nat) (b : BuddyArea) : Prop where
  sizes : Sizes 19 b
  arena : ∃ e ∈ available mmap, BUDDY_MAX_SIZE ≤ e.len ∧ b.base = e.arena poff

structure Managed (mmap : List MmapEntry) (poff : Nat) (st : PageState) : Prop where
  kernel : ∀ a, (st.m.heap a).isSome → VMM_KERNEL_START ≤ a ∧ a < wordSize
  manages : ∀ a b, st.buddies a = some b → Manages mmap poff b

theorem Manages.congr {mmap : List MmapEntry} {poff : Nat} {b b' : BuddyArea}
    (h : Manages mmap poff b) (hSame : SameFrame b b') : Manages mmap poff b' :=
  ⟨h.sizes.congr hSame, hSame.1 ▸ h.arena⟩

/-- One more call has returned. -/
theorem Managed.kept {mmap : List MmapEntry} {poff at_ : Nat} {st : PageState} {b b' : BuddyArea}
    {m' : Mem} (h : Managed mmap poff st) (hb : st.buddies at_ = some b)
    (hKept : Kept b b' st.m m') : Managed mmap poff { st.setBuddy at_ b' with m := m' } := by
  refine ⟨?_, ?_⟩
  · intro a ha
    dsimp only at ha
    rw [hKept.sameNodes] at ha
    exact h.kernel a ha
  · intro a b'' ha
    simp only [PageState.setBuddy] at ha
    split at ha
    · cases ha
      exact (h.manages at_ b hb).congr hKept.sameFrame
    · exact h.manages a b'' ha

/-! ## Initialisation -/

section Boot

variable {mmap : List MmapEntry} {poff areasAt : Nat}

theorem MmapEntry.arena_le {e : MmapEntry} (hRegion : e.addr + e.len ≤ physSize)
    (hImage : poff ≤ physSize) : e.arena poff + BUDDY_MAX_SIZE ≤ 2 ^ 62 := by
  obtain ⟨hKernel, hRound⟩ := rounds hRegion hImage
  unfold physSize at hRegion hImage
  have hStart : e.start poff ≤ 2 ^ 53 := by
    unfold MmapEntry.start
    split <;> omega
  have hMap : e.pages poff * Page.size ≤ 2 ^ 53 := by
    unfold MmapEntry.pages Page.size PGSIZE
    omega
  have hArena : e.arena poff ≤ e.start poff + e.pages poff * Page.size + 7 :=
    (alignTo_of_fits (by unfold wordSize; omega)).2.1
  unfold BUDDY_MAX_SIZE
  omega

/-- `bootstrap_page_allocator` builds its areas in the reserved area. -/
theorem bootstrapFrom_managed {n i : Nat} {areas : List MemArea} {st st' : PageState}
    (hAreas : ∀ area ∈ areas, ∃ e ∈ available mmap, area.len = e.len ∧
      area.base = e.arena poff ∧ e.arena poff + BUDDY_MAX_SIZE ≤ 2 ^ 62)
    (hCount : i + areas.length ≤ n) (hGe : VMM_KERNEL_START ≤ st.physMemAt)
    (hLe : st.physMemAt + MemArea.size * n ≤ st.reserved.base)
    (hEnd : st.reserved.fini ≤ VMM_RESERVED_DM_START) (h : Managed mmap poff st)
    (hOk : bootstrapFrom i areas st = .ok st') : Managed mmap poff st' := by
  induction areas generalizing i st with
  | nil =>
    cases hOk
    exact h
  | cons area rest ih =>
    rw [List.length_cons] at hCount
    have hRest : ∀ area ∈ rest, _ := fun area hMem => hAreas area (List.mem_cons_of_mem _ hMem)
    unfold bootstrapFrom at hOk
    split at hOk
    · exact ih hRest (by omega) hGe hLe hEnd h hOk
    · next hBig =>
      obtain ⟨⟨built, heap, reserved⟩, hInit, hOk⟩ := bind_eq_ok.mp hOk
      cases built with
      | none => cases hOk
      | some pair =>
        obtain ⟨self, b⟩ := pair
        obtain ⟨heap', hPush, hOk⟩ := bind_eq_ok.mp hOk
        obtain ⟨hSelf, hHeads, hNext, hFini⟩ := buddyAreaInit_placed hEnd hInit
        have hBase := (buddyAreaInit_ok hInit).1
        obtain ⟨e, he, hLen, hArena, hFits⟩ := hAreas area List.mem_cons_self
        have hSize : Sizes 19 b := .of_init (by omega) (by omega) (hArena ▸ hFits) hInit
        have hBuckets : buddyMaxBucket b = 8 := hSize.maxBucket_eq
        have hWindow : reserved.base ≤ VMM_RESERVED_DM_START := by
          unfold Reserved.fini at hFini hEnd
          omega
        have hAt : st.buddiesAt i + 16 ≤ st.reserved.base := by
          unfold PageState.buddiesAt MemArea.buddiesOffset
          unfold MemArea.size at hLe ⊢
          omega
        unfold BuddyArea.size at hHeads
        unfold VMM_RESERVED_DM_START at hWindow hEnd
        refine ih hRest (by omega : i + 1 + rest.length ≤ n) ?_ ?_ ?_ ?_ hOk
        · exact hGe
        · dsimp only
          unfold PageState.setBuddy
          dsimp only
          omega
        · dsimp only
          unfold VMM_RESERVED_DM_START
          omega
        · refine ⟨?_, ?_⟩
          · intro a ha
            dsimp only at ha
            have hKernel : VMM_KERNEL_START ≤ st.buddiesAt i := by
              unfold PageState.buddiesAt
              omega
            rw [listPushback_sameNodes hPush] at ha
            unfold listInit Heap.write at ha
            split at ha
            · next hEq =>
              rw [hEq]
              unfold wordSize
              omega
            · rcases buddyAreaInit_nodes hInit a ha with hOld | hEq | ⟨k, hk, hEq⟩
              · exact h.kernel a hOld
              · rw [hEq]
                unfold BuddyArea.headOffset wordSize
                omega
              · rw [hEq]
                unfold wordSize
                omega
          · intro a b' ha
            simp only [PageState.setBuddy] at ha
            split at ha
            · cases ha
              exact ⟨hSize, e, he, by omega, hBase.trans hArena⟩
            · exact h.manages a b' ha

theorem bootPages_managed {st st' : PageState} (hPhys : Physical mmap poff)
    (hEnv : Environment st areasAt (available mmap).length)
    (hOk : bootPages st areasAt mmap poff = .ok st') : Managed mmap poff st' := by
  have hAll := bootPages_areas hOk
  have hPlace := fun i e area =>
    @bootPages_area mmap poff areasAt st st' hPhys hOk i e area
  obtain ⟨-, -, hBoot⟩ := bootPages_ok hOk
  have hLength := bootPages_length hOk
  refine bootstrapFrom_managed ?_ (Nat.le_of_eq ((Nat.zero_add _).trans hLength)) ?_ ?_ ?_ ?_ hBoot
  · intro area hMem
    obtain ⟨i, hi⟩ := List.mem_iff_getElem?.mp hMem
    obtain ⟨e, he, -⟩ := (hAll i).2 area hi
    obtain ⟨-, hLen, -, hBase, -⟩ := hPlace i e area he hi
    have hIn := List.mem_of_getElem? he
    exact ⟨e, hIn, hLen, hBase, MmapEntry.arena_le (hPhys.region e hIn) hPhys.image⟩
  · exact hEnv.areas_ge
  · exact hEnv.areas_le
  · exact hEnv.reserved_le
  · refine ⟨hEnv.kernel, ?_⟩
    intro a b ha
    dsimp only at ha
    rw [hEnv.buddies] at ha
    cases ha

end Boot

/-! ## Runs -/

inductive PageOp
  | alloc (npages : Nat)
  | free (addr : Nat)
  deriving DecidableEq, Repr

/-- One completed call. -/
inductive PageStep (st : PageState) : PageOp → PageState → Prop
  | alloc {npages fuel : Nat} {p : Option Nat} {st' : PageState} :
      pageAlloc st npages fuel = .ok (p, st') → PageStep st (.alloc npages) st'
  | free {addr : Nat} {st' : PageState} :
      pageFree st addr = .ok st' → PageStep st (.free addr) st'

theorem Managed.writePage {mmap : List MmapEntry} {poff : Nat} {st : PageState} {m : Mem}
    {ref? : Option PageRef} {f : Page → Page} (h : Managed mmap poff st)
    (hOk : st.m.writePage ref? f = .ok m) : Managed mmap poff { st with m } := by
  obtain ⟨hHeap, -⟩ := Mem.writePage_frame hOk
  refine ⟨?_, h.manages⟩
  intro a ha
  dsimp only at ha
  rw [hHeap] at ha
  exact h.kernel a ha

theorem buddy_eq_ok {st : PageState} {at_ : Nat} {b : BuddyArea} :
    st.buddy at_ = .ok b ↔ st.buddies at_ = some b := by
  unfold PageState.buddy
  cases st.buddies at_ <;> simp

/-- The ways `page_alloc` returns. -/
inductive PageAllocReturns (st : PageState) (npages fuel : Nat) : Option Nat → PageState → Prop
  | unserved : pageAllocFind st (mul64 PGSIZE npages) fuel 0 st.m.physMem = .ok none →
      PageAllocReturns st npages fuel none st
  | refused {at_ : Nat} {b b' : BuddyArea} {m' : Mem} :
      pageAllocFind st (mul64 PGSIZE npages) fuel 0 st.m.physMem = .ok (some at_) →
      st.buddies at_ = some b → buddyAlloc b st.m npages fuel = .ok (none, b', m') →
      PageAllocReturns st npages fuel none { st.setBuddy at_ b' with m := m' }
  | served {at_ p : Nat} {b b' : BuddyArea} {m' m'' : Mem} {ref : PageRef} :
      pageAllocFind st (mul64 PGSIZE npages) fuel 0 st.m.physMem = .ok (some at_) →
      st.buddies at_ = some b → buddyAlloc b st.m npages fuel = .ok (some p, b', m') →
      phys2page m'.physMem p = some ref →
      m'.writePage (some ref) (fun page => { page with buddy := at_ }) = .ok m'' →
      PageAllocReturns st npages fuel (some p) { st.setBuddy at_ b' with m := m'' }

theorem pageAlloc_returns {st st' : PageState} {npages fuel : Nat} {ret : Option Nat}
    (hOk : pageAlloc st npages fuel = .ok (ret, st')) :
    PageAllocReturns st npages fuel ret st' := by
  obtain ⟨found, hFind, hOk⟩ := bind_eq_ok.mp hOk
  cases found with
  | none =>
    cases hOk
    exact .unserved hFind
  | some at_ =>
    obtain ⟨b, hb, hOk⟩ := bind_eq_ok.mp hOk
    obtain ⟨⟨p, b', m'⟩, hAlloc, hOk⟩ := bind_eq_ok.mp hOk
    cases p with
    | none =>
      cases hOk
      exact .refused hFind (buddy_eq_ok.mp hb) hAlloc
    | some p =>
      dsimp only at hOk
      split at hOk
      · cases hOk
      · next hRef =>
        obtain ⟨m'', hWrite, hOk⟩ := bind_eq_ok.mp hOk
        cases hOk
        exact .served hFind (buddy_eq_ok.mp hb) hAlloc hRef hWrite

theorem pageFree_ok {st st' : PageState} {addr : Nat} (hOk : pageFree st addr = .ok st') :
    addr = 0 ∧ st' = st ∨ ∃ ref b b' m', phys2page st.m.physMem addr = some ref ∧
      st.buddies (st.m.page ref).buddy = some b ∧ buddyFree b st.m addr = .ok (b', m') ∧
      st' = { st.setBuddy (st.m.page ref).buddy b' with m := m' } := by
  unfold pageFree at hOk
  split at hOk
  · next hZero =>
    cases hOk
    exact Or.inl ⟨hZero, rfl⟩
  · split at hOk
    · cases hOk
    · next ref hRef =>
      obtain ⟨page, hPage, hOk⟩ := bind_eq_ok.mp hOk
      obtain ⟨b, hb, hOk⟩ := bind_eq_ok.mp hOk
      obtain ⟨⟨b', m'⟩, hFree, hOk⟩ := bind_eq_ok.mp hOk
      obtain ⟨-, rfl⟩ := Mem.readPage_ok hPage
      cases hOk
      exact Or.inr ⟨ref, b, b', m', hRef, buddy_eq_ok.mp hb, hFree, rfl⟩

theorem PageStep.managed {mmap : List MmapEntry} {poff : Nat} {st st' : PageState} {op : PageOp}
    (h : Managed mmap poff st) (hStep : PageStep st op st') : Managed mmap poff st' := by
  cases hStep with
  | alloc hOk =>
    cases pageAlloc_returns hOk with
    | unserved => exact h
    | refused _ hb hAlloc => exact h.kept hb (buddyAlloc_kept hAlloc)
    | served _ hb hAlloc _ hWrite =>
      have hAfter := h.kept hb (buddyAlloc_kept hAlloc)
      exact hAfter.writePage hWrite
  | free hOk =>
    rcases pageFree_ok hOk with ⟨-, rfl⟩ | ⟨ref, b, b', m', -, hb, hFree, rfl⟩
    · exact h
    · exact h.kept hb (buddyFree_kept hFree)

theorem PageStep.physMem {st st' : PageState} {op : PageOp} (hStep : PageStep st op st') :
    st'.m.physMem = st.m.physMem := by
  cases hStep with
  | alloc hOk =>
    cases pageAlloc_returns hOk with
    | unserved => rfl
    | refused _ _ hAlloc => exact (buddyAlloc_kept hAlloc).physMem
    | served _ _ hAlloc _ hWrite =>
      exact (Mem.writePage_frame hWrite).2.trans (buddyAlloc_kept hAlloc).physMem
  | free hOk =>
    rcases pageFree_ok hOk with ⟨-, rfl⟩ | ⟨ref, b, b', m', -, -, hFree, rfl⟩
    · rfl
    · exact (buddyFree_kept hFree).physMem

theorem managed_of_reach {mmap : List MmapEntry} {poff areasAt : Nat} {st0 st st' : PageState}
    (hPhys : Physical mmap poff) (hEnv : Environment st0 areasAt (available mmap).length)
    (hBoot : bootPages st0 areasAt mmap poff = .ok st) (hReach : Reach PageStep st st') :
    Managed mmap poff st' :=
  hReach.invariant (Managed mmap poff) (fun _ _ _ h hStep => PageStep.managed h hStep)
    (bootPages_managed hPhys hEnv hBoot)

theorem bootState_kernel {a : Nat} (ha : (bootState.m.heap a).isSome) :
    VMM_KERNEL_START ≤ a ∧ a < wordSize := by
  unfold bootState at ha
  dsimp only at ha
  split at ha
  · unfold VMM_RESERVED_DM_START at *
    unfold VMM_KERNEL_START wordSize
    omega
  · cases ha

theorem bootState_environment : Environment bootState 0xffff800000100000 1 :=
  ⟨fun _ => bootState_kernel, fun _ => rfl, by decide, by decide, by decide⟩

theorem headedState_environment {n : Nat} (hn : n ≤ 1024) :
    Environment (headedState n) 0xffff800000100000 n := by
  refine ⟨?_, fun _ => rfl, by decide, ?_, bootState_environment.reserved_le⟩
  · intro a ha
    unfold headedState headedHeap at ha
    dsimp only at ha
    split at ha
    · unfold MemArea.size at *
      unfold VMM_KERNEL_START wordSize
      omega
    · exact bootState_kernel ha
  · unfold headedState bootState MemArea.size
    dsimp only
    omega

end LunarOS
