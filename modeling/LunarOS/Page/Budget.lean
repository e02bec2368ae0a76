import LunarOS.Multiboot.Encode
import LunarOS.Page.Managed

/-!
# What fits into the reserved area

The array of areas and the buddy of every long area are built in two pages: an area takes 64
bytes, a buddy 448 more. The page maps and the first nodes of the arenas lie in the areas
themselves, which the page tables need not map. `boot_budget` says how the boot from the boot
loader's block ends: what does not fit ends in the panic of the function that asked for it, and
the first page that is not mapped in a page fault.
-/

namespace LunarOS

open Logic BuddyArea

/-! ## One allocation -/

theorem mmReservedAlloc_eq {r : Reserved} {sz : Nat} (hEnd : r.fini ≤ VMM_RESERVED_DM_START)
    (hMult : sz % 8 = 0) : mmReservedAlloc r sz =
      if r.available < sz then (none, r) else (some r.base, ⟨r.base + sz, r.available - sz⟩) := by
  have hSame : alignTo sz 8 = sz := by
    unfold alignTo
    rw [if_neg (by omega)]
  unfold Reserved.fini VMM_RESERVED_DM_START at hEnd
  unfold mmReservedAlloc
  dsimp only
  rw [hSame]
  split
  · rfl
  · rw [add64_eq (by unfold wordSize; omega), sub64_eq (by omega) (by unfold wordSize; omega)]

/-! ## One buddy -/

/-- Structure, tree and list heads of a buddy of 512 KiB. -/
def buddyBytes : Nat := 64 + 256 + 128

section Buddy

variable {r : Reserved} {h : Heap} {base : Nat}

theorem maxBucket_512K {b : BuddyArea} (hMax : b.max = BUDDY_MAX_SIZE) (hMin : b.min = PGSIZE) :
    buddyMaxBucket b = 8 := buddyMaxBucket_eq (M := 19) (by omega) (by omega) hMax hMin

/-- The bytes of the tree and of the list heads. -/
theorem buddy_sizes : intShl 8 / 1 = 256 ∧ mul64 8 16 = 128 := by
  refine ⟨by rw [intShl_eq (by omega)]; rfl, mul64_eq (by unfold wordSize; omega)⟩

/-- The area that is built. -/
def builtArea (r : Reserved) (base : Nat) : BuddyArea :=
  { base, tree := fun _ => 0, treeSz := 256, freelist := r.base + 64 + 256, min := PGSIZE,
    max := BUDDY_MAX_SIZE, available := BUDDY_MAX_SIZE }

/-- The heap before the block at `base` is pushed. -/
def builtHeap (r : Reserved) (h : Heap) : Heap :=
  freelistInit (listInit h (r.base + BuddyArea.headOffset)) (r.base + 64 + 256) 8

theorem buddyAreaInit_eq (hEnd : r.fini ≤ VMM_RESERVED_DM_START)
    (hRoom : buddyBytes ≤ r.available) :
    buddyAreaInit mmReservedAlloc r h base BUDDY_MAX_SIZE = (do
      let heap ← buddyPushback (builtHeap r h) (r.base + 64 + 256) base
      pure (some (r.base, builtArea r base), heap,
        ⟨r.base + buddyBytes, r.available - buddyBytes⟩)) := by
  unfold buddyBytes at hRoom ⊢
  obtain ⟨hTree, hHeads⟩ := buddy_sizes
  have hEnd' : (⟨r.base + 64, r.available - 64⟩ : Reserved).fini ≤ VMM_RESERVED_DM_START := by
    unfold Reserved.fini at hEnd ⊢
    dsimp only
    omega
  have hEnd'' : (⟨r.base + 64 + 256, r.available - 64 - 256⟩ : Reserved).fini ≤
      VMM_RESERVED_DM_START := by
    unfold Reserved.fini at hEnd ⊢
    dsimp only
    omega
  unfold buddyAreaInit BuddyArea.size
  rw [mmReservedAlloc_eq hEnd (by decide), if_neg (by omega)]
  dsimp only
  rw [maxBucket_512K rfl rfl, hTree, hHeads, mmReservedAlloc_eq hEnd' (by decide),
    if_neg (by dsimp only; omega)]
  dsimp only
  rw [mmReservedAlloc_eq hEnd'' (by decide), if_neg (by dsimp only; omega)]
  dsimp only
  have hFirst : freelistAt (builtArea r base) 0 = .ok (r.base + 64 + 256) := by
    unfold freelistAt
    rw [maxBucket_512K rfl rfl, if_pos (by omega)]
    rfl
  have hLeft : r.available - 64 - 256 - 128 = r.available - (64 + 256 + 128) := by omega
  have hFront : r.base + 64 + 256 + 128 = r.base + (64 + 256 + 128) := by omega
  have hBuckets : buddyMaxBucket (builtArea r base) = 8 := maxBucket_512K rfl rfl
  unfold builtArea at hFirst hBuckets ⊢
  unfold builtHeap
  rw [hFirst, ok_bind_eq, hBuckets, hLeft, hFront]

/-- One of the three allocations fails. -/
theorem buddyAreaInit_refused (h : Heap) (base : Nat) (hEnd : r.fini ≤ VMM_RESERVED_DM_START)
    (hFull : r.available < buddyBytes) :
    ∃ r', buddyAreaInit mmReservedAlloc r h base BUDDY_MAX_SIZE = .ok (none, h, r') := by
  unfold buddyBytes at hFull
  obtain ⟨hTree, hHeads⟩ := buddy_sizes
  unfold buddyAreaInit BuddyArea.size
  rw [mmReservedAlloc_eq hEnd (by decide)]
  by_cases hStruct : r.available < 64
  · rw [if_pos hStruct]
    exact ⟨_, rfl⟩
  · have hEnd' : (⟨r.base + 64, r.available - 64⟩ : Reserved).fini ≤ VMM_RESERVED_DM_START := by
      unfold Reserved.fini at hEnd ⊢
      dsimp only
      omega
    rw [if_neg hStruct]
    dsimp only
    rw [maxBucket_512K rfl rfl, hTree, hHeads, mmReservedAlloc_eq hEnd' (by decide)]
    by_cases hSecond : r.available - 64 < 256
    · rw [if_pos hSecond]
      exact ⟨_, rfl⟩
    · have hEnd'' : (⟨r.base + 64 + 256, r.available - 64 - 256⟩ : Reserved).fini ≤
          VMM_RESERVED_DM_START := by
        unfold Reserved.fini at hEnd ⊢
        dsimp only
        omega
      rw [if_neg hSecond]
      dsimp only
      rw [mmReservedAlloc_eq hEnd'' (by decide), if_pos (by dsimp only; omega)]
      exact ⟨_, rfl⟩

/-- Not in the kernel image. -/
def OffImage (a : Nat) : Prop := a < VMM_KERNEL_START ∨ VMM_RESERVED_DM_START ≤ a

theorem phys2virt_offImage {p : Nat} (hp : p < 2 ^ 54) : OffImage (vmmPhys2virt p) := by
  unfold OffImage vmmPhys2virt add64 wordSize VMM_KERNEL_START VMM_RESERVED_DM_START
  omega

/-- Outside the kernel image there are the same list nodes. -/
def SameOffImage (h h' : Heap) : Prop := ∀ x, OffImage x → ((h' x).isSome ↔ (h x).isSome)

theorem SameOffImage.trans {h h' h'' : Heap} (hFirst : SameOffImage h h')
    (hSecond : SameOffImage h' h'') : SameOffImage h h'' :=
  fun x hx => (hSecond x hx).trans (hFirst x hx)

variable (hBase : VMM_KERNEL_START ≤ r.base) (hEnd : r.fini ≤ VMM_RESERVED_DM_START)
  (hRoom : buddyBytes ≤ r.available)
include hBase hEnd hRoom

/-- The new nodes are in the kernel image. -/
theorem builtHeap_offImage {x : Nat} (hx : OffImage x) : builtHeap r h x = h x := by
  have hCell := freelistInit_listInit h (r.base + BuddyArea.headOffset) (r.base + 64 + 256) 8 x
  unfold OffImage at hx
  unfold Reserved.fini at hEnd
  unfold buddyBytes at hRoom
  unfold BuddyArea.headOffset at hCell
  rw [if_neg (by rintro ⟨k, hk, rfl⟩; omega), if_neg (by omega)] at hCell
  exact hCell

theorem buddyAreaInit_served (hVirt : OffImage (vmmPhys2virt base))
    (hEntry : (h (vmmPhys2virt base)).isSome) :
    ∃ heap, buddyAreaInit mmReservedAlloc r h base BUDDY_MAX_SIZE =
        .ok (some (r.base, builtArea r base), heap,
          ⟨r.base + buddyBytes, r.available - buddyBytes⟩) ∧
      (heap (r.base + BuddyArea.headOffset)).isSome ∧ SameOffImage h heap := by
  have hCell := freelistInit_listInit h (r.base + BuddyArea.headOffset) (r.base + 64 + 256) 8
  change ∀ x, builtHeap r h x = _ at hCell
  have hHead : builtHeap r h (r.base + 64 + 256) =
      some ⟨r.base + 64 + 256, r.base + 64 + 256⟩ := by
    rw [hCell, if_pos ⟨0, by omega, rfl⟩]
  have hSame : ∀ x, OffImage x → builtHeap r h x = h x :=
    fun x hx => builtHeap_offImage hBase hEnd hRoom hx
  have hNe : r.base + 64 + 256 ≠ vmmPhys2virt base := by
    unfold OffImage at hVirt
    unfold buddyBytes at hRoom
    unfold Reserved.fini at hEnd
    omega
  have hMapped : (builtHeap r h (vmmPhys2virt base)).isSome := by rwa [hSame _ hVirt]
  have hPush : buddyPushback (builtHeap r h) (r.base + 64 + 256) base =
      .ok (linked (builtHeap r h) (r.base + 64 + 256) (vmmPhys2virt base) (r.base + 64 + 256)) :=
    listPushback_eq hHead (by rw [hHead]; rfl) hMapped hNe
  refine ⟨linked (builtHeap r h) (r.base + 64 + 256) (vmmPhys2virt base) (r.base + 64 + 256),
    ?_, ?_, ?_⟩
  · rw [buddyAreaInit_eq hEnd hRoom, hPush, ok_bind_eq]
    rfl
  · rw [linked_sameNodes hMapped, hCell]
    split
    · rfl
    · rw [if_pos rfl]
      rfl
  · intro x hx
    rw [linked_sameNodes hMapped, hSame x hx]

/-- The first block of the arena cannot be hooked on its list. -/
theorem buddyAreaInit_absent (hVirt : OffImage (vmmPhys2virt base))
    (hNone : h (vmmPhys2virt base) = none) :
    buddyAreaInit mmReservedAlloc r h base BUDDY_MAX_SIZE =
      .error (.fault (.list (vmmPhys2virt base))) := by
  have hHead : builtHeap r h (r.base + 64 + 256) =
      some ⟨r.base + 64 + 256, r.base + 64 + 256⟩ := by
    unfold builtHeap
    rw [freelistInit_listInit, if_pos ⟨0, by omega, rfl⟩]
  have hAbsent : builtHeap r h (vmmPhys2virt base) = none :=
    (builtHeap_offImage hBase hEnd hRoom hVirt).trans hNone
  have hPush : buddyPushback (builtHeap r h) (r.base + 64 + 256) base =
      .error (.fault (.list (vmmPhys2virt base))) :=
    listPushback_absent hHead (by rw [hHead]; rfl) hAbsent
  rw [buddyAreaInit_eq hEnd hRoom, hPush]
  rfl

end Buddy

/-! ## The loop of `bootstrap_page_allocator` -/

/-- Areas that are long enough for a buddy. -/
def longAreas (areas : List MemArea) : Nat := areas.countP fun area => BUDDY_MAX_SIZE ≤ area.len

/-- A buddy is hooked on the list of its area. -/
theorem hook_mapped {h : Heap} {head node : Nat} (hNe : head ≠ node) (hNode : (h node).isSome)
    (hHead : ¬ OffImage head) :
    ∃ h', listPushback (listInit h head) head node = .ok h' ∧ SameOffImage h h' := by
  have hSame : ∀ x, x ≠ head → listInit h head x = h x := fun x hx => if_neg hx
  have hRing : listInit h head head = some ⟨head, head⟩ := Heap.write_same ..
  have hMapped : (listInit h head node).isSome := by rwa [hSame node hNe.symm]
  refine ⟨_, listPushback_eq hRing (by rw [hRing]; rfl) hMapped hNe, ?_⟩
  intro x hx
  have hOther : x ≠ head := by
    rintro rfl
    exact hHead hx
  rw [linked_sameNodes hMapped, hSame x hOther]

section Loop

variable {areas before after : List MemArea} {area : MemArea} {st : PageState} {i n : Nat}

theorem longAreas_short (h : area.len < BUDDY_MAX_SIZE) :
    longAreas (area :: areas) = longAreas areas := List.countP_cons_of_neg (by simpa using h)

theorem longAreas_long (h : ¬ area.len < BUDDY_MAX_SIZE) :
    longAreas (area :: areas) = longAreas areas + 1 := List.countP_cons_of_pos (by simpa using h)

/-- The array of `n` areas and the reserved area behind it lie in the kernel image. -/
structure InImage (n : Nat) (st : PageState) : Prop where
  areas_ge : VMM_KERNEL_START ≤ st.physMemAt
  areas_le : st.physMemAt + MemArea.size * n ≤ st.reserved.base
  reserved_le : st.reserved.fini ≤ VMM_RESERVED_DM_START

theorem InImage.base_ge (h : InImage n st) : VMM_KERNEL_START ≤ st.reserved.base :=
  h.areas_ge.trans ((Nat.le_add_right ..).trans h.areas_le)

/-- The heads of the lists lie in the array of areas, below what is handed out next. -/
theorem InImage.buddiesAt_lt (h : InImage n st) (hi : i < n) :
    st.buddiesAt i < st.reserved.base := by
  have hLe := h.areas_le
  unfold PageState.buddiesAt MemArea.buddiesOffset
  unfold MemArea.size at hLe ⊢
  omega

/-- What a long area does to the state when its buddy fits and its arena is there. -/
theorem bootstrap_served (areas : List MemArea) (h : InImage n st) (hi : i < n)
    (hLong : ¬ area.len < BUDDY_MAX_SIZE)
    (hVirt : OffImage (vmmPhys2virt area.base)) (hRoom : buddyBytes ≤ st.reserved.available)
    (hEntry : (st.m.heap (vmmPhys2virt area.base)).isSome) :
    ∃ st', bootstrapFrom i (area :: areas) st = bootstrapFrom (i + 1) areas st' ∧
      st'.reserved = ⟨st.reserved.base + buddyBytes, st.reserved.available - buddyBytes⟩ ∧
      InImage n st' ∧ SameOffImage st.m.heap st'.m.heap := by
  have hLt := h.buddiesAt_lt hi
  have hLe := h.areas_le
  have hEnd := h.reserved_le
  obtain ⟨heap, hInit, hNode, hSame⟩ :=
    buddyAreaInit_served h.base_ge hEnd hRoom hVirt hEntry
  have hNe : st.buddiesAt i ≠ st.reserved.base + BuddyArea.headOffset := by
    unfold BuddyArea.headOffset
    omega
  have hHead : ¬ OffImage (st.buddiesAt i) := by
    have hGe := h.areas_ge
    unfold OffImage
    unfold Reserved.fini at hEnd
    unfold PageState.buddiesAt at hLt ⊢
    omega
  obtain ⟨heap', hPush, hSame'⟩ := hook_mapped hNe hNode hHead
  refine ⟨{ st.setBuddy st.reserved.base (builtArea st.reserved area.base) with
    m := { st.m with heap := heap' }
    reserved := ⟨st.reserved.base + buddyBytes, st.reserved.available - buddyBytes⟩ }, ?_, rfl, ?_,
    hSame.trans hSame'⟩
  · rw [bootstrapFrom, if_neg hLong, hInit, ok_bind_eq]
    dsimp only
    rw [hPush, ok_bind_eq]
  · refine ⟨h.areas_ge, hLe.trans (Nat.le_add_right ..), ?_⟩
    unfold Reserved.fini at hEnd ⊢
    dsimp only
    omega

/-- The areas before one are done. -/
theorem bootstrapFrom_append (after : List MemArea) (h : InImage n st) (hCount : i + before.length ≤ n)
    (hVirt : ∀ area ∈ before, OffImage (vmmPhys2virt area.base))
    (hEntry : ∀ area ∈ before, BUDDY_MAX_SIZE ≤ area.len →
      (st.m.heap (vmmPhys2virt area.base)).isSome)
    (hRoom : buddyBytes * longAreas before ≤ st.reserved.available) :
    ∃ st', bootstrapFrom i (before ++ after) st = bootstrapFrom (i + before.length) after st' ∧
      st'.reserved = ⟨st.reserved.base + buddyBytes * longAreas before,
        st.reserved.available - buddyBytes * longAreas before⟩ ∧
      InImage n st' ∧ SameOffImage st.m.heap st'.m.heap := by
  induction before generalizing i st with
  | nil => exact ⟨st, rfl, rfl, h, fun _ _ => Iff.rfl⟩
  | cons area rest ih =>
    rw [List.length_cons] at hCount
    have hRest : ∀ area ∈ rest, OffImage (vmmPhys2virt area.base) :=
      fun a ha => hVirt a (List.mem_cons_of_mem _ ha)
    rw [List.cons_append, List.length_cons, Nat.add_comm rest.length, ← Nat.add_assoc]
    by_cases hShort : area.len < BUDDY_MAX_SIZE
    · rw [longAreas_short hShort] at hRoom ⊢
      rw [bootstrapFrom, if_pos hShort]
      exact ih h (by omega) hRest (fun a ha => hEntry a (List.mem_cons_of_mem _ ha)) hRoom
    · rw [longAreas_long hShort, Nat.mul_succ] at hRoom ⊢
      obtain ⟨st1, hStep, hReserved, hImage, hSame⟩ := bootstrap_served (i := i) (rest ++ after) h
        (by omega) hShort (hVirt area List.mem_cons_self) (by omega)
        (hEntry area List.mem_cons_self (by omega))
      obtain ⟨st', hRun, hLeft, hImage', hSame'⟩ := ih (i := i + 1) hImage (by omega) hRest
        (fun a ha hLong => (hSame _ (hRest a ha)).mpr (hEntry a (List.mem_cons_of_mem _ ha) hLong))
        (by rw [hReserved]; dsimp only; omega)
      refine ⟨st', hStep.trans hRun, ?_, hImage', hSame.trans hSame'⟩
      rw [hLeft, hReserved]
      dsimp only
      rw [Reserved.mk.injEq]
      omega

/-- The first buddy that does not fit. -/
theorem bootstrapFrom_full (h : InImage n st) (hLong : BUDDY_MAX_SIZE ≤ area.len)
    (hFull : st.reserved.available < buddyBytes) :
    bootstrapFrom i (area :: areas) st = .error
      (.panic "Not enough reserved memory to bootstrap the page allocator!\n") := by
  obtain ⟨r', hInit⟩ := buddyAreaInit_refused st.m.heap area.base h.reserved_le hFull
  rw [bootstrapFrom, if_neg (by omega), hInit]
  rfl

/-- The first arena that is not there. -/
theorem bootstrapFrom_absent (h : InImage n st) (hLong : BUDDY_MAX_SIZE ≤ area.len)
    (hEnough : buddyBytes ≤ st.reserved.available) (hOff : OffImage (vmmPhys2virt area.base))
    (hNone : st.m.heap (vmmPhys2virt area.base) = none) :
    bootstrapFrom i (area :: areas) st = .error (.fault (.list (vmmPhys2virt area.base))) := by
  rw [bootstrapFrom, if_neg (by omega),
    buddyAreaInit_absent h.base_ge h.reserved_le hEnough hOff hNone]
  rfl

end Loop

/-! ## The page maps -/

theorem mapM_ok {α β : Type} {f : α → Outcome β} {g : α → β} {xs : List α}
    (h : ∀ x ∈ xs, f x = .ok (g x)) : xs.mapM f = .ok (xs.map g) := by
  induction xs with
  | nil => rfl
  | cons x xs ih =>
    rw [List.mapM_cons, h x List.mem_cons_self, ok_bind_eq,
      ih fun x hx => h x (List.mem_cons_of_mem _ hx), ok_bind_eq]
    rfl

/-- The first failure is the result. -/
theorem mapM_error {α β : Type} {f : α → Outcome β} {g : α → β} {e : Stop} {before after : List α}
    {x : α} (h : ∀ y ∈ before, f y = .ok (g y)) (hx : f x = .error e) :
    (before ++ x :: after).mapM f = .error e := by
  rw [List.mapM_append, mapM_ok h, ok_bind_eq, List.mapM_cons, hx]
  rfl

/-! ### The records -/

section Records

variable {st : PageState} {area : MemArea}

/-- All records of the page map lie in mapped pages. -/
def Clearable (st : PageState) (area : MemArea) : Prop :=
  ∀ j < area.mapSz, st.reaches (area.record j) Page.size = true

theorem forM_cons (x : Nat) (xs : List Nat) (f : Nat → Outcome Unit) :
    (x :: xs).forM f = f x >>= fun _ => xs.forM f := rfl

theorem forM_ok {xs : List Nat} {p : Nat → Bool} {e : Nat → Stop} (h : ∀ x ∈ xs, p x = true) :
    (xs.forM fun x => if p x then Except.ok () else .error (e x)) = .ok () := by
  induction xs with
  | nil => rfl
  | cons x xs ih =>
    rw [forM_cons, if_pos (h x List.mem_cons_self), ok_bind_eq]
    exact ih fun y hy => h y (List.mem_cons_of_mem _ hy)

/-- The first element for which the test fails is the one that the error names. -/
theorem forM_error {p : Nat → Bool} {e : Nat → Stop} (xs : List Nat)
    (h : ¬ ∀ x ∈ xs, p x = true) :
    ∃ x ∈ xs, p x = false ∧
      (xs.forM fun x => if p x then Except.ok () else .error (e x)) = .error (e x) := by
  induction xs with
  | nil => exact absurd (fun _ hx => nomatch hx) h
  | cons x xs ih =>
    rw [forM_cons]
    by_cases hx : p x = true
    · rw [if_pos hx, ok_bind_eq]
      obtain ⟨y, hy, hFails, hError⟩ := ih fun hAll => h fun y hy => by
        rcases List.mem_cons.mp hy with rfl | hTail
        · exact hx
        · exact hAll y hTail
      exact ⟨y, List.mem_cons_of_mem _ hy, hFails, hError⟩
    · rw [if_neg hx]
      exact ⟨x, List.mem_cons_self, by simpa using hx, rfl⟩

theorem clearMap_ok (h : Clearable st area) : clearMap st area = .ok () :=
  forM_ok (p := fun j => st.reaches (area.record j) Page.size)
    (e := fun j => .fault (.unmapped (area.record j))) fun j hj => h j (List.mem_range.mp hj)

theorem clearMap_faults (st : PageState) (area : MemArea) (h : ¬ Clearable st area) : ∃ j < area.mapSz,
    st.reaches (area.record j) Page.size = false ∧
      clearMap st area = .error (.fault (.unmapped (area.record j))) := by
  obtain ⟨j, hj, hFails, hError⟩ := forM_error (p := fun j => st.reaches (area.record j) Page.size)
    (e := fun j => .fault (.unmapped (area.record j))) (List.range area.mapSz)
    fun hAll => h fun j hj => hAll j (List.mem_range.mpr hj)
  exact ⟨j, List.mem_range.mp hj, hFails, hError⟩

end Records

/-! ## The boot -/

/-- Entries that are long enough for a buddy. -/
def longEntries (entries : List MmapEntry) : Nat :=
  entries.countP fun e => BUDDY_MAX_SIZE ≤ e.len

/-- The array of areas. -/
def arrayBytes (mmap : List MmapEntry) : Nat := (available mmap).length * MemArea.size

/-- The array, and the buddies of the first entries. -/
def takenBytes (mmap entries : List MmapEntry) : Nat :=
  arrayBytes mmap + buddyBytes * longEntries entries

/-- Bytes of the reserved area that the boot asks for. -/
def bootBytes (mmap : List MmapEntry) : Nat := takenBytes mmap (available mmap)

/-- The area of the entry gets its page map. -/
def GetsMap (st : PageState) (poff : Nat) (e : MmapEntry) : Prop :=
  e.used poff ≤ e.len ∧ Clearable st (e.mapped poff)

/-- The first page of the arena is there. -/
def HasArena (st : PageState) (poff : Nat) (e : MmapEntry) : Prop :=
  (st.m.heap (vmmPhys2virt (e.arena poff))).isSome

/-- The screen, two bytes for each of 80 times 25 cells. -/
def screenStart : Nat := 0xB8000
def screenEnd : Nat := screenStart + 2 * 80 * 25

/-- What a boot starts from. The page maps and the first nodes of the arenas keep clear of the
kernel image below `poff` and of the screen, since nothing is said about a kernel that has
overwritten itself. -/
structure Bootable (st : PageState) (mmap : List MmapEntry) (poff : Nat) : Prop where
  physical : Physical mmap poff
  image : ∀ e ∈ available mmap, PGSIZE ≤ e.len → poff ≤ e.start poff
  screen : ∀ e ∈ available mmap, PGSIZE ≤ e.len →
    screenEnd ≤ e.start poff ∨ e.arena poff + 16 ≤ screenStart
  reserved_ge : VMM_KERNEL_START ≤ st.reserved.base
  reserved_le : st.reserved.fini ≤ VMM_RESERVED_DM_START

section Boot

variable {mmap before after : List MmapEntry} {e : MmapEntry} {poff areasAt : Nat} {st : PageState}

/-- What `init_mem_map` leaves. -/
def PageState.withMaps (st : PageState) (areasAt : Nat) (mmap : List MmapEntry) (poff : Nat) :
    PageState :=
  { st with
    physoff := poff
    physMemAt := areasAt
    m := { st.m with
      physMem := (available mmap).map (MmapEntry.mapped · poff)
      page := fun ref =>
        if InMap ((available mmap).map (MmapEntry.mapped · poff)) ref then {} else st.m.page ref } }

/-- So many bytes of the reserved area have been handed out. -/
def PageState.handOut (st : PageState) (n : Nat) : PageState :=
  { st with reserved := ⟨st.reserved.base + n, st.reserved.available - n⟩ }

/-- The state in which the loop of `init_mem_map` runs. -/
def PageState.placed (st : PageState) (areasAt : Nat) (mmap : List MmapEntry) (poff : Nat) :
    PageState :=
  { st with
    physoff := poff
    physMemAt := areasAt
    m := { st.m with physMem := ((available mmap).map MmapEntry.area).map (placeArea poff) } }

theorem bootPages_eq : bootPages st areasAt mmap poff =
    (((available mmap).map MmapEntry.area).map (placeArea poff)).mapM
        (initArea (st.placed areasAt mmap poff)) >>= fun areas =>
      bootstrapFrom 0 areas { st with
        physoff := poff
        physMemAt := areasAt
        m := { st.m with
          physMem := areas
          page := fun ref => if InMap areas ref then {} else st.m.page ref } } := by
  rw [bootPages, pageInit, initMemMap]
  exact bind_assoc _ _ _

theorem initArea_fits (hRegion : e.addr + e.len ≤ physSize) (hImage : poff ≤ physSize)
    (h : GetsMap st poff e) :
    initArea (st.placed areasAt mmap poff) (placeArea poff e.area) = .ok (e.mapped poff) := by
  have hClear : clearMap (st.placed areasAt mmap poff) (e.mapped poff) = .ok () := clearMap_ok h.2
  rw [initArea, mapArea_fits hRegion hImage h.1, ok_bind_eq, hClear]
  rfl

theorem initArea_refused (hRegion : e.addr + e.len ≤ physSize) (hImage : poff ≤ physSize)
    (hLess : e.len < e.used poff) : initArea (st.placed areasAt mmap poff) (placeArea poff e.area) =
      .error (.panic "Cannot allocate memory map\n") := by
  rw [initArea, mapArea_refused hRegion hImage hLess]
  rfl

/-- The error of an area whose records are not all mapped. -/
theorem initArea_faults (hRegion : e.addr + e.len ≤ physSize) (hImage : poff ≤ physSize)
    (hFits : e.used poff ≤ e.len) (hClear : ¬ Clearable st (e.mapped poff)) :
    ∃ j < e.pages poff, st.reaches ((e.mapped poff).record j) Page.size = false ∧
      initArea (st.placed areasAt mmap poff) (placeArea poff e.area) =
        .error (.fault (.unmapped ((e.mapped poff).record j))) := by
  obtain ⟨j, hj, hFails, hError⟩ := clearMap_faults
    (st.placed areasAt mmap poff) (e.mapped poff) hClear
  refine ⟨j, hj, hFails, ?_⟩
  rw [initArea, mapArea_fits hRegion hImage hFits, ok_bind_eq, hError]
  rfl

/-- `page_init` reaches the loop of `bootstrap_page_allocator`. -/
theorem bootPages_fits (hPhys : Physical mmap poff)
    (hMaps : ∀ e ∈ available mmap, GetsMap st poff e) :
    bootPages st areasAt mmap poff = bootstrapFrom 0
      ((available mmap).map (MmapEntry.mapped · poff)) (st.withMaps areasAt mmap poff) := by
  have hAreas : (((available mmap).map MmapEntry.area).map (placeArea poff)).mapM
      (initArea (st.placed areasAt mmap poff)) =
        .ok ((available mmap).map (MmapEntry.mapped · poff)) := by
    rw [List.map_map, List.mapM_map]
    apply mapM_ok
    intro e he
    rw [Function.comp_apply, Function.comp_apply]
    exact initArea_fits (hPhys.region e he) hPhys.image (hMaps e he)
  rw [bootPages_eq, hAreas]
  rfl

/-- The first area that does not get its map decides. -/
theorem bootPages_stops (st : PageState) (hPhys : Physical mmap poff)
    (hSplit : available mmap = before ++ e :: after)
    (hBefore : ∀ e ∈ before, GetsMap st poff e) {stop : Stop}
    (hStop : initArea (st.placed areasAt mmap poff) (placeArea poff e.area) = .error stop) :
    bootPages st areasAt mmap poff = .error stop := by
  have hRegion : ∀ e' ∈ before ++ e :: after, e'.addr + e'.len ≤ physSize := by
    intro e' he'
    rw [← hSplit] at he'
    exact hPhys.region e' he'
  have hAreas : (((available mmap).map MmapEntry.area).map (placeArea poff)).mapM
      (initArea (st.placed areasAt mmap poff)) = .error stop := by
    rw [List.map_map, List.mapM_map, hSplit]
    apply mapM_error (g := (MmapEntry.mapped · poff))
    · intro e' he'
      rw [Function.comp_apply, Function.comp_apply]
      exact initArea_fits (hRegion e' (List.mem_append_left _ he')) hPhys.image (hBefore e' he')
    · rw [Function.comp_apply, Function.comp_apply]
      exact hStop
  rw [bootPages_eq, hAreas]
  rfl

theorem bootPages_refused (st : PageState) (hPhys : Physical mmap poff)
    (hSplit : available mmap = before ++ e :: after) (hBefore : ∀ e ∈ before, GetsMap st poff e)
    (hLess : e.len < e.used poff) :
    bootPages st areasAt mmap poff = .error (.panic "Cannot allocate memory map\n") :=
  bootPages_stops st hPhys hSplit hBefore
    (initArea_refused (hPhys.region e (hSplit ▸ by simp)) hPhys.image hLess)

theorem bootPages_faults (st : PageState) (hPhys : Physical mmap poff)
    (hSplit : available mmap = before ++ e :: after) (hBefore : ∀ e ∈ before, GetsMap st poff e)
    (hFits : e.used poff ≤ e.len) (hClear : ¬ Clearable st (e.mapped poff)) :
    ∃ j < e.pages poff, st.reaches ((e.mapped poff).record j) Page.size = false ∧
      bootPages st areasAt mmap poff =
        .error (.fault (.unmapped ((e.mapped poff).record j))) := by
  obtain ⟨j, hj, hFails, hStop⟩ :=
    initArea_faults (hPhys.region e (hSplit ▸ by simp)) hPhys.image hFits hClear
  exact ⟨j, hj, hFails, bootPages_stops st hPhys hSplit hBefore hStop⟩

theorem longAreas_mapped (entries : List MmapEntry) :
    longAreas (entries.map (MmapEntry.mapped · poff)) = longEntries entries := by
  unfold longAreas longEntries
  rw [List.countP_map]
  rfl

theorem arena_offImage (hRegion : e.addr + e.len ≤ physSize) (hImage : poff ≤ physSize) :
    OffImage (vmmPhys2virt (e.mapped poff).base) := by
  obtain ⟨hKernel, hRound⟩ := rounds hRegion hImage
  unfold physSize at hRegion hImage
  have hStart : e.start poff ≤ 2 ^ 52 + 7 := by
    unfold MmapEntry.start
    split <;> omega
  have hMap : e.pages poff * Page.size ≤ e.len := by
    unfold MmapEntry.pages PGSIZE Page.size
    omega
  have hArena := (alignTo_of_fits (n := e.start poff + e.pages poff * Page.size) (by
    unfold wordSize
    omega)).2.1
  apply phys2virt_offImage
  change e.arena poff < 2 ^ 54
  unfold MmapEntry.arena
  omega

section

variable {r : Reserved}
  (hLeft : st.reserved = ⟨r.base + arrayBytes mmap, r.available - arrayBytes mmap⟩)
  (hPhys : Physical mmap poff) (hBase : VMM_KERNEL_START ≤ r.base)
  (hEnd : r.fini ≤ VMM_RESERVED_DM_START) (hRoom : arrayBytes mmap ≤ r.available)

include hLeft hBase hEnd hRoom in
theorem withMaps_inImage (poff : Nat) :
    InImage (available mmap).length (st.withMaps r.base mmap poff) := by
  have hSame : (st.withMaps r.base mmap poff).reserved =
      ⟨r.base + arrayBytes mmap, r.available - arrayBytes mmap⟩ := hLeft
  refine ⟨hBase, ?_, ?_⟩
  · rw [hSame, Nat.mul_comm]
    exact Nat.le_refl _
  · rw [hSame]
    unfold Reserved.fini at hEnd ⊢
    dsimp only
    omega

include hPhys in
theorem mapped_offImage {entries : List MmapEntry} (hSub : ∀ e ∈ entries, e ∈ available mmap) :
    ∀ area ∈ entries.map (MmapEntry.mapped · poff), OffImage (vmmPhys2virt area.base) := by
  intro area hArea
  obtain ⟨e, he, rfl⟩ := List.mem_map.mp hArea
  exact arena_offImage (hPhys.region e (hSub e he)) hPhys.image

theorem mapped_arenas {entries : List MmapEntry}
    (hArenas : ∀ e ∈ entries, BUDDY_MAX_SIZE ≤ e.len → HasArena st poff e) :
    ∀ area ∈ entries.map (MmapEntry.mapped · poff), BUDDY_MAX_SIZE ≤ area.len →
      ((st.withMaps r.base mmap poff).m.heap (vmmPhys2virt area.base)).isSome := by
  intro area hArea hLong
  obtain ⟨e, he, rfl⟩ := List.mem_map.mp hArea
  exact hArenas e he hLong

variable (hMaps : ∀ e ∈ available mmap, GetsMap st poff e)
include hLeft hPhys hBase hEnd hRoom hMaps

/-- The buddies of the first entries are there. -/
theorem bootPages_upto {rest : List MmapEntry} (hSplit : available mmap = before ++ rest)
    (hArenas : ∀ e ∈ before, BUDDY_MAX_SIZE ≤ e.len → HasArena st poff e)
    (hTaken : takenBytes mmap before ≤ r.available) :
    ∃ st', bootPages st r.base mmap poff =
        bootstrapFrom before.length (rest.map (MmapEntry.mapped · poff)) st' ∧
      st'.reserved = ⟨r.base + takenBytes mmap before, r.available - takenBytes mmap before⟩ ∧
      InImage (available mmap).length st' ∧ SameOffImage st.m.heap st'.m.heap := by
  have hSame : (st.withMaps r.base mmap poff).reserved =
      ⟨r.base + arrayBytes mmap, r.available - arrayBytes mmap⟩ := hLeft
  have hSub : ∀ e ∈ before, e ∈ available mmap := fun e he => hSplit ▸ List.mem_append_left _ he
  have hCount : 0 + (before.map (MmapEntry.mapped · poff)).length ≤ (available mmap).length := by
    rw [hSplit, List.length_map, List.length_append]
    omega
  unfold takenBytes at hTaken ⊢
  obtain ⟨st', hRun, hReserved, hImage, hHeap⟩ := bootstrapFrom_append
    (rest.map (MmapEntry.mapped · poff)) (withMaps_inImage hLeft hBase hEnd hRoom poff) hCount
    (mapped_offImage hPhys hSub) (mapped_arenas hArenas)
    (by rw [hSame, longAreas_mapped]; dsimp only; omega)
  rw [List.length_map, Nat.zero_add] at hRun
  refine ⟨st', ?_, ?_, hImage, hHeap⟩
  · rw [bootPages_fits hPhys hMaps, hSplit, List.map_append]
    exact hRun
  · rw [hReserved, hSame, longAreas_mapped, Reserved.mk.injEq]
    dsimp only
    omega

/-- Behind the array of areas, when the buddies fit too. -/
theorem bootPages_completes (hEnough : bootBytes mmap ≤ r.available)
    (hArenas : ∀ e ∈ available mmap, BUDDY_MAX_SIZE ≤ e.len → HasArena st poff e) :
    ∃ st', bootPages st r.base mmap poff = .ok st' ∧
      st'.m.physMem = (available mmap).map (MmapEntry.mapped · poff) ∧
      st'.reserved = ⟨r.base + bootBytes mmap, r.available - bootBytes mmap⟩ := by
  obtain ⟨st', hBoot, hReserved, -⟩ := bootPages_upto hLeft hPhys hBase hEnd hRoom hMaps
    (List.append_nil _).symm hArenas hEnough
  have hRun : bootstrapFrom 0 ((available mmap).map (MmapEntry.mapped · poff))
      (st.withMaps r.base mmap poff) = .ok st' := by
    rw [← bootPages_fits hPhys hMaps, hBoot]
    rfl
  exact ⟨st', hBoot, (bootstrapFrom_same hRun).1, hReserved⟩

variable (hSplit : available mmap = before ++ e :: after)
  (hArenas : ∀ e ∈ before, BUDDY_MAX_SIZE ≤ e.len → HasArena st poff e)
  (hTaken : takenBytes mmap before ≤ r.available) (hLong : BUDDY_MAX_SIZE ≤ e.len)
include hSplit hArenas hTaken hLong

theorem bootPages_exhausts (hFull : r.available < takenBytes mmap before + buddyBytes) :
    bootPages st r.base mmap poff = .error
      (.panic "Not enough reserved memory to bootstrap the page allocator!\n") := by
  obtain ⟨st', hRun, hReserved, hImage, -⟩ :=
    bootPages_upto hLeft hPhys hBase hEnd hRoom hMaps hSplit hArenas hTaken
  have hLess : st'.reserved.available < buddyBytes := by
    rw [hReserved]
    dsimp only
    omega
  rw [hRun, List.map_cons]
  exact bootstrapFrom_full hImage hLong hLess

theorem bootPages_absent (hEnough : takenBytes mmap before + buddyBytes ≤ r.available)
    (hNone : ¬ HasArena st poff e) : bootPages st r.base mmap poff =
      .error (.fault (.list (vmmPhys2virt (e.arena poff)))) := by
  obtain ⟨st', hRun, hReserved, hImage, hHeap⟩ :=
    bootPages_upto hLeft hPhys hBase hEnd hRoom hMaps hSplit hArenas hTaken
  have hMem : e ∈ available mmap := by
    rw [hSplit]
    simp
  have hOff := arena_offImage (hPhys.region e hMem) hPhys.image
  have hMore : buddyBytes ≤ st'.reserved.available := by
    rw [hReserved]
    dsimp only
    omega
  have hAbsent : st'.m.heap (vmmPhys2virt (e.mapped poff).base) = none := by
    simpa using mt (hHeap _ hOff).mp hNone
  rw [hRun, List.map_cons]
  exact bootstrapFrom_absent hImage hLong hMore hOff hAbsent

end

end Boot

/-- Everything goes through, or some entry is the first that does not. -/
theorem first_failure {α : Type} {p : α → Prop} {xs : List α} (h : ¬ ∀ x ∈ xs, p x) :
    ∃ before x after, xs = before ++ x :: after ∧ (∀ y ∈ before, p y) ∧ ¬ p x := by
  induction xs with
  | nil => exact absurd (fun _ hx => nomatch hx) h
  | cons x xs ih =>
    by_cases hx : p x
    · obtain ⟨before, y, after, hSplit, hBefore, hy⟩ := ih fun hAll => h (List.forall_mem_cons.mpr
        ⟨hx, hAll⟩)
      exact ⟨x :: before, y, after, congrArg (x :: ·) hSplit, List.forall_mem_cons.mpr ⟨hx, hBefore⟩,
        hy⟩
    · exact ⟨[], x, xs, rfl, by simp, hx⟩

theorem takenBytes_snoc (mmap before : List MmapEntry) (e : MmapEntry) :
    takenBytes mmap (before ++ [e]) = takenBytes mmap before +
      if BUDDY_MAX_SIZE ≤ e.len then buddyBytes else 0 := by
  unfold takenBytes longEntries
  rw [List.countP_append, Nat.mul_add, List.countP_singleton, ← Nat.add_assoc]
  congr 1
  split <;> simp_all

/-- The same for the buddies, where the room depends on the entries before. -/
theorem first_buddy {mmap : List MmapEntry} {room : Nat} {p : MmapEntry → Prop}
    (rest before : List MmapEntry) (hBefore : ∀ e ∈ before, BUDDY_MAX_SIZE ≤ e.len → p e)
    (hTaken : takenBytes mmap before ≤ room) :
    (takenBytes mmap (before ++ rest) ≤ room ∧
      ∀ e ∈ before ++ rest, BUDDY_MAX_SIZE ≤ e.len → p e) ∨
    ∃ done e after, before ++ rest = done ++ e :: after ∧
      (∀ e ∈ done, BUDDY_MAX_SIZE ≤ e.len → p e) ∧ BUDDY_MAX_SIZE ≤ e.len ∧
      takenBytes mmap done ≤ room ∧
      (room < takenBytes mmap done + buddyBytes ∨
        takenBytes mmap done + buddyBytes ≤ room ∧ ¬ p e) := by
  induction rest generalizing before with
  | nil => exact .inl ⟨by rwa [List.append_nil], by rwa [List.append_nil]⟩
  | cons e rest ih =>
    by_cases hStop : BUDDY_MAX_SIZE ≤ e.len ∧ (room < takenBytes mmap before + buddyBytes ∨ ¬ p e)
    · obtain ⟨hLong, hStop⟩ := hStop
      refine .inr ⟨before, e, rest, rfl, hBefore, hLong, hTaken, ?_⟩
      rcases Nat.lt_or_ge room (takenBytes mmap before + buddyBytes) with hFull | hEnough
      · exact .inl hFull
      · exact .inr ⟨hEnough, hStop.resolve_left (by omega)⟩
    · have hNext := ih (before ++ [e]) ?_ ?_
      · rwa [List.append_assoc] at hNext
      · intro e' he' hLong
        rcases List.mem_append.mp he' with hOld | hNew
        · exact hBefore e' hOld hLong
        · obtain rfl := List.mem_singleton.mp hNew
          by_contra hNot
          exact hStop ⟨hLong, .inr hNot⟩
      · rw [takenBytes_snoc]
        split
        · next hLong =>
          by_contra hMore
          exact hStop ⟨hLong, .inl (by omega)⟩
        · exact hTaken

theorem all_buddies {mmap : List MmapEntry} {room : Nat} (p : MmapEntry → Prop)
    (hRoom : arrayBytes mmap ≤ room) :
    (bootBytes mmap ≤ room ∧ ∀ e ∈ available mmap, BUDDY_MAX_SIZE ≤ e.len → p e) ∨
    ∃ before e after, available mmap = before ++ e :: after ∧
      (∀ e ∈ before, BUDDY_MAX_SIZE ≤ e.len → p e) ∧ BUDDY_MAX_SIZE ≤ e.len ∧
      takenBytes mmap before ≤ room ∧
      (room < takenBytes mmap before + buddyBytes ∨
        takenBytes mmap before + buddyBytes ≤ room ∧ ¬ p e) :=
  first_buddy (available mmap) [] (by simp) (by simpa [takenBytes, longEntries] using hRoom)

section Block

open BootInfo

variable {b : BootInfo} {tags : List Nat} {r : Reserved}

/-- The array of areas is the first thing that the reserved area hands out. -/
theorem parse_takes (h : b.Laid tags) (areas : Nat → MemArea)
    (hEnd : r.fini ≤ VMM_RESERVED_DM_START)
    (hRoom : arrayBytes (b.mmap tags) ≤ r.available) :
    ∃ p, b.multibootParseMmap r areas (b.totalSize + 1) = .ok p ∧ p.areasAt = r.base ∧
      (List.range p.sz).map p.areas = (available (b.mmap tags)).map MmapEntry.area ∧
      p.reserved = ⟨r.base + arrayBytes (b.mmap tags), r.available - arrayBytes (b.mmap tags)⟩ := by
  obtain ⟨reserved, hRun⟩ := h.parse_eq areas hRoom
  refine ⟨_, hRun, rfl, ?_, ?_⟩
  · apply range_map_filled
    intro k e he
    dsimp only
    rw [he]
  · unfold arrayBytes at hRoom ⊢
    rw [multibootParseMmap, h.count_eq, ok_bind_eq, h.size_eq,
      mmReservedAlloc_eq hEnd (by unfold MemArea.size; omega), if_neg (by omega)] at hRun
    dsimp only at hRun ⊢
    rw [h.fill_eq, ok_bind_eq] at hRun
    exact (congrArg Parsed.reserved (Except.ok.inj hRun)).symm

end Block

/-- How the boot ends, from what the reserved area has and what the map asks for. The areas are
looked at in order, first for their page maps and then for their buddies. -/
structure BootBudget (run : Outcome PageState) (st : PageState) (mmap : List MmapEntry)
    (poff : Nat) : Prop where
  noAreas : st.reserved.available < arrayBytes mmap →
    run = .error (.panic "Not enough memory\n")
  noMap : arrayBytes mmap ≤ st.reserved.available →
    ∀ before e after, available mmap = before ++ e :: after → (∀ e ∈ before, GetsMap st poff e) →
      e.len < e.used poff → run = .error (.panic "Cannot allocate memory map\n")
  noRecord : arrayBytes mmap ≤ st.reserved.available →
    ∀ before e after, available mmap = before ++ e :: after → (∀ e ∈ before, GetsMap st poff e) →
      e.used poff ≤ e.len → ¬ Clearable st (e.mapped poff) →
        ∃ j < e.pages poff, st.reaches ((e.mapped poff).record j) Page.size = false ∧
          run = .error (.fault (.unmapped ((e.mapped poff).record j)))
  noBuddy : (∀ e ∈ available mmap, GetsMap st poff e) →
    ∀ before e after, available mmap = before ++ e :: after →
      (∀ e ∈ before, BUDDY_MAX_SIZE ≤ e.len → HasArena st poff e) → BUDDY_MAX_SIZE ≤ e.len →
        takenBytes mmap before ≤ st.reserved.available →
          st.reserved.available < takenBytes mmap before + buddyBytes → run = .error
            (.panic "Not enough reserved memory to bootstrap the page allocator!\n")
  noArena : (∀ e ∈ available mmap, GetsMap st poff e) →
    ∀ before e after, available mmap = before ++ e :: after →
      (∀ e ∈ before, BUDDY_MAX_SIZE ≤ e.len → HasArena st poff e) → BUDDY_MAX_SIZE ≤ e.len →
        takenBytes mmap before + buddyBytes ≤ st.reserved.available → ¬ HasArena st poff e →
          run = .error (.fault (.list (vmmPhys2virt (e.arena poff))))
  boots : bootBytes mmap ≤ st.reserved.available → (∀ e ∈ available mmap, GetsMap st poff e) →
    (∀ e ∈ available mmap, BUDDY_MAX_SIZE ≤ e.len → HasArena st poff e) →
      ∃ st', run = .ok st' ∧ st'.m.physMem = (available mmap).map (MmapEntry.mapped · poff) ∧
        st'.reserved =
          ⟨st.reserved.base + bootBytes mmap, st.reserved.available - bootBytes mmap⟩

/-- A block with the entries of `roomyMap`. -/
def roomyTags : List Tag := [.plainMmap [.plain 0x100000 0x400000 1]]

theorem roomyMap_bootable : Bootable bootState roomyMap 0x10000 := by
  have hOne : ∀ e ∈ available roomyMap, e = ⟨0x100000, 0x400000, 1⟩ :=
    fun e he => List.mem_singleton.mp he
  refine ⟨roomyMap_physical, ?_, ?_, by decide, by decide⟩
  · intro e he _
    obtain rfl := hOne e he
    decide
  · intro e he _
    obtain rfl := hOne e he
    exact .inl (by decide)

end LunarOS
