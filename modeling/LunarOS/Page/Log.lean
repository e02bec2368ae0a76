import LunarOS.Lib.Log
import LunarOS.Page.Budget

/-!
# What `page_init` prints

`pageInit` again, with the lines that it and the functions it calls print. The loops do what they
do without them (`Logged.bootstrapFrom_eq`), and each ending of `boot_budget` has its text here,
from `Logged.bootPages_refused` to `Logged.bootPages_completes`: what an area has printed before
another one fails stays on the screen.
-/

namespace LunarOS

open Logic

namespace Logged

/-- All three failures print the same line. -/
def buddyAreaInit (r : Reserved) (h : Heap) (base max : Nat) :
    Logged (Option (Nat × BuddyArea) × Heap × Reserved) := do
  match ← lift (LunarOS.buddyAreaInit mmReservedAlloc r h base max) with
  | (none, h, r) =>
    prErr "Not enough memory for buddy" []
    pure (none, h, r)
  | (some b, h, r) => pure (some b, h, r)

def bootstrapFrom : Nat → List MemArea → PageState → Logged PageState
  | _, [], st => do
    prDebug "Page Allocator initialized\n" []
    pure st
  | i, area :: rest, st =>
    if area.len < BUDDY_MAX_SIZE then bootstrapFrom (i + 1) rest st
    else do
      match ← buddyAreaInit st.reserved st.m.heap area.base BUDDY_MAX_SIZE with
      | (none, _, _) => panic "Not enough reserved memory to bootstrap the page allocator!\n"
      | (some (self, b), heap, reserved) =>
        let head := st.buddiesAt i
        let heap ← lift (listPushback (listInit heap head) head (self + BuddyArea.headOffset))
        bootstrapFrom (i + 1) rest
          { st.setBuddy self b with m := { st.m with heap }, reserved }

/-- `alloc_sz` is the size of the map. -/
def initArea (st : PageState) (area : MemArea) : Logged MemArea := do
  let area ← lift (LunarOS.initArea st area)
  prDebug "Reserved area of %d bytes for memory map\n" [.num (mul64 area.mapSz Page.size)]
  pure area

def initMemMap (st : PageState) : Logged PageState := do
  let areas ← st.m.physMem.mapM (initArea st)
  pure { st with m := { st.m with
    physMem := areas
    page := fun ref => if InMap areas ref then {} else st.m.page ref } }

def pageInit (st : PageState) (areasAt : Nat) (areas : List MemArea) (poff : Nat) :
    Logged PageState := do
  let st := { st with
    physoff := poff
    physMemAt := areasAt
    m := { st.m with physMem := areas.map (placeArea poff) } }
  let available := areas.foldl (fun available area => add64 available area.len) 0
  let npages := available / PGSIZE
  prDebug "%d KiB available in physical memory\n" [.num (available / 2 ^ 10)]
  prDebug "%d pages available\n" [.num npages]
  let st ← initMemMap st
  bootstrapFrom 0 st.m.physMem st

end Logged

/-! ## Functions that do not panic -/

/-- The function stops only at an access outside an object. -/
def Faults {α : Type} (x : Outcome α) : Prop := ∀ e, x = .error e → ∃ f, e = .fault f

section

variable {α β : Type}

theorem Faults.ok (a : α) : Faults (.ok a) := fun _ h => nomatch h

theorem Faults.fault (f : Fault) : Faults (.error (.fault f) : Outcome α) :=
  fun _ h => ⟨f, (Except.error.inj h).symm⟩

theorem Faults.bind {x : Outcome α} {f : α → Outcome β} (hx : Faults x) (hf : ∀ a, Faults (f a)) :
    Faults (x >>= f) := by
  intro e hError
  rcases bind_eq_error.mp hError with hFirst | ⟨a, -, hThen⟩
  · exact hx e hFirst
  · exact hf a e hThen

theorem Heap.faults_read (h : Heap) (a : Nat) : Faults (h.read a) := by
  unfold Heap.read
  split
  · exact .ok _
  · exact .fault _

theorem Heap.faults_setNext (h : Heap) (a v : Nat) : Faults (h.setNext a v) :=
  .bind (h.faults_read a) fun _ => .ok _

theorem Heap.faults_setPrev (h : Heap) (a v : Nat) : Faults (h.setPrev a v) :=
  .bind (h.faults_read a) fun _ => .ok _

theorem faults_listPushback (h : Heap) (lst entry : Nat) : Faults (listPushback h lst entry) := by
  apply Faults.bind (h.faults_read lst)
  intro c
  apply Faults.bind (h.faults_setNext _ _)
  intro h
  apply Faults.bind (h.faults_setPrev _ _)
  intro h
  apply Faults.bind (h.faults_setPrev _ _)
  intro h
  exact h.faults_setNext _ _

theorem faults_freelistAt (b : BuddyArea) (bkt : Nat) : Faults (freelistAt b bkt) := by
  unfold freelistAt
  split
  · exact .ok _
  · exact .fault _

theorem faults_buddyAreaInit {σ : Type} (alloc : σ → Nat → Option Nat × σ) (r : σ) (h : Heap)
    (base max : Nat) : Faults (buddyAreaInit alloc r h base max) := by
  unfold buddyAreaInit
  split
  · exact .ok _
  · dsimp only
    split
    · exact .ok _
    · split
      · exact .ok _
      · apply Faults.bind (faults_freelistAt _ _)
        intro freelist
        exact .bind (faults_listPushback _ _ _) fun _ => .ok _

end

/-! ## The two loops -/

namespace Logged

/-- What the loop of `bootstrap_page_allocator` prints, by its result. -/
def bootLog : Outcome PageState → Logged PageState
  | .ok st => ⟨"[DEBUG] Page Allocator initialized\n".toList, .ok st⟩
  | .error (.panic message) => panicked "[ERROR] Not enough memory for buddy".toList message
  | .error e => .fail (.stop e)

theorem lift_bind_bootLog {α : Type} {x : Outcome α} (h : Faults x) {g : α → Logged PageState}
    {f : α → Outcome PageState} (hNext : ∀ a, x = .ok a → g a = bootLog (f a)) :
    lift x >>= g = bootLog (x >>= f) := by
  cases x with
  | ok a =>
    rw [lift_ok, Writer.pure_bind, ok_bind_eq]
    exact hNext a rfl
  | error e =>
    obtain ⟨fault, rfl⟩ := h e rfl
    rfl

theorem bootstrapFrom_eq (i : Nat) (areas : List MemArea) (st : PageState) :
    bootstrapFrom i areas st = bootLog (LunarOS.bootstrapFrom i areas st) := by
  induction areas generalizing i st with
  | nil =>
    have hLine : prDebug "Page Allocator initialized\n" [] =
        .tell "[DEBUG] Page Allocator initialized\n".toList := prDebug_plain rfl
    rw [bootstrapFrom, hLine, Writer.tell_bind, Writer.pure_eq, List.append_nil]
    rfl
  | cons area rest ih =>
    rw [bootstrapFrom, LunarOS.bootstrapFrom]
    by_cases hShort : area.len < BUDDY_MAX_SIZE
    · rw [if_pos hShort, if_pos hShort]
      exact ih (i + 1) st
    · rw [if_neg hShort, if_neg hShort, buddyAreaInit, Writer.bind_assoc]
      apply lift_bind_bootLog (faults_buddyAreaInit _ _ _ _ _)
      rintro ⟨b, h, r⟩ -
      cases b with
      | none =>
        have hLine : prErr "Not enough memory for buddy" [] =
            .tell "[ERROR] Not enough memory for buddy".toList := prErr_plain rfl
        dsimp only
        rw [hLine, Writer.bind_assoc]
        simp only [Writer.pure_bind]
        exact tell_panic rfl _
      | some new =>
        dsimp only
        rw [Writer.pure_bind]
        apply lift_bind_bootLog (faults_listPushback _ _ _)
        intro heap _
        exact ih (i + 1) _

end Logged

/-! ## The text -/

def debugNumber (before : List Char) (n : Nat) (after : List Char) : List Char :=
  "[DEBUG] ".toList ++ (before ++ (renderNumber .int .d n ++ after))

/-- The page map of an area. -/
def MmapEntry.mapLine (e : MmapEntry) (poff : Nat) : List Char :=
  debugNumber "Reserved area of ".toList (e.pages poff * Page.size)
    " bytes for memory map\n".toList

/-- All available bytes, as the counter has them. -/
def availableBytes (mmap : List MmapEntry) : Nat :=
  ((available mmap).map MmapEntry.len).sum % wordSize

def sizeLines (mmap : List MmapEntry) : List Char :=
  debugNumber [] (availableBytes mmap / 2 ^ 10) " KiB available in physical memory\n".toList ++
    debugNumber [] (availableBytes mmap / PGSIZE) " pages available\n".toList

/-- What is printed when all areas get their maps. -/
def mapText (mmap : List MmapEntry) (poff : Nat) : List Char :=
  sizeLines mmap ++ (available mmap).flatMap (MmapEntry.mapLine · poff)

theorem Logged.prDebug_number {fmt : String} (before after : String) (n : Nat)
    (hBefore : Item.plain before = true) (hAfter : Item.plain after = true)
    (hFormat : fmt.toList = before.toList ++ ('%' :: 'd' :: after.toList)) :
    Logged.prDebug fmt [.num n] = .tell (debugNumber before.toList n after.toList) := by
  have hItems := @Logged.prDebug_items fmt [.num n]
    (Item.lits before hBefore ++ Item.num .int .d n :: Item.lits after hAfter)
  rw [format_append, format_cons, format_lits, format_lits, arguments_append, arguments_cons,
    arguments_lits, arguments_lits, render_append, render_num, render_lits, render_lits] at hItems
  exact hItems (by simpa using ⟨noLong_lits _, noLong_lits _⟩) hFormat rfl

section

variable {mmap : List MmapEntry} {poff areasAt : Nat} {st : PageState} {e : MmapEntry}

theorem Logged.initArea_fits (hRegion : e.addr + e.len ≤ physSize) (hImage : poff ≤ physSize)
    (h : GetsMap st poff e) :
    Logged.initArea (st.placed areasAt mmap poff) (placeArea poff e.area) =
      ⟨e.mapLine poff, .ok (e.mapped poff)⟩ := by
  have hMap : e.pages poff * Page.size ≤ e.len := by
    unfold MmapEntry.pages PGSIZE Page.size
    omega
  have hBytes : mul64 (e.mapped poff).mapSz Page.size = e.pages poff * Page.size := by
    apply mul64_eq
    change e.pages poff * Page.size < wordSize
    unfold physSize at hRegion
    unfold wordSize
    omega
  have hLine : Logged.prDebug "Reserved area of %d bytes for memory map\n"
      [.num (e.pages poff * Page.size)] = .tell (e.mapLine poff) :=
    Logged.prDebug_number "Reserved area of " " bytes for memory map\n" _ rfl rfl rfl
  rw [Logged.initArea, LunarOS.initArea_fits hRegion hImage h, Logged.lift_ok, Writer.pure_bind,
    hBytes, hLine, Writer.tell_bind, Writer.pure_eq, List.append_nil]

theorem availableBytes_eq : ((available mmap).map MmapEntry.area).foldl
    (fun available area => add64 available area.len) 0 = availableBytes mmap := by
  have hFold : ∀ (l : List MmapEntry) (n : Nat), (l.map MmapEntry.area).foldl
      (fun available area => add64 available area.len) (n % wordSize) =
        (n + (l.map MmapEntry.len).sum) % wordSize := by
    intro l
    induction l with
    | nil => intro n; rfl
    | cons e l ih =>
      intro n
      have hAdd : add64 (n % wordSize) e.area.len = (n + e.len) % wordSize := Nat.mod_add_mod ..
      rw [List.map_cons, List.foldl_cons, hAdd, ih, List.map_cons, List.sum_cons, Nat.add_assoc]
  have hAll := hFold (available mmap) 0
  rw [Nat.zero_mod, Nat.zero_add] at hAll
  exact hAll

/-- `page_init` on the entries of a map. -/
def Logged.bootPages (st : PageState) (areasAt : Nat) (mmap : List MmapEntry) (poff : Nat) :
    Logged PageState := Logged.pageInit st areasAt ((available mmap).map MmapEntry.area) poff

/-- Two lines, then the maps. -/
theorem Logged.bootPages_eq : Logged.bootPages st areasAt mmap poff =
    Writer.tell (sizeLines mmap) >>= (fun _ =>
      (((available mmap).map MmapEntry.area).map (placeArea poff)).mapM
          (Logged.initArea (st.placed areasAt mmap poff)) >>=
        fun areas => bootLog (LunarOS.bootstrapFrom 0 areas { st with
          physoff := poff
          physMemAt := areasAt
          m := { st.m with
            physMem := areas
            page := fun ref => if InMap areas ref then {} else st.m.page ref } })) := by
  have hKib : Logged.prDebug "%d KiB available in physical memory\n"
      [.num (availableBytes mmap / 2 ^ 10)] =
        .tell (debugNumber [] (availableBytes mmap / 2 ^ 10)
          " KiB available in physical memory\n".toList) :=
    Logged.prDebug_number "" " KiB available in physical memory\n" _ rfl rfl rfl
  have hPages : Logged.prDebug "%d pages available\n" [.num (availableBytes mmap / PGSIZE)] =
      .tell (debugNumber [] (availableBytes mmap / PGSIZE) " pages available\n".toList) :=
    Logged.prDebug_number "" " pages available\n" _ rfl rfl rfl
  unfold Logged.bootPages Logged.pageInit Logged.initMemMap
  dsimp only
  rw [availableBytes_eq, hKib, hPages, Writer.tell_bind, Writer.tell_bind, Writer.tell_bind]
  simp only [Logged.bootstrapFrom_eq, Writer.bind_assoc, Writer.pure_bind, sizeLines,
    List.append_assoc, PageState.placed]

theorem Logged.bootPages_fits (hPhys : Physical mmap poff)
    (hMaps : ∀ e ∈ available mmap, GetsMap st poff e) :
    Logged.bootPages st areasAt mmap poff =
      Writer.tell (mapText mmap poff) >>= fun _ =>
        bootLog (LunarOS.bootPages st areasAt mmap poff) := by
  have hAreas : (((available mmap).map MmapEntry.area).map (placeArea poff)).mapM
      (Logged.initArea (st.placed areasAt mmap poff)) =
      ⟨(available mmap).flatMap (MmapEntry.mapLine · poff),
        .ok ((available mmap).map (MmapEntry.mapped · poff))⟩ := by
    rw [List.map_map, List.mapM_map]
    apply Writer.mapM_of_ok
    intro e he
    rw [Function.comp_apply, Function.comp_apply]
    exact Logged.initArea_fits (hPhys.region e he) hPhys.image (hMaps e he)
  rw [Logged.bootPages_eq, hAreas, LunarOS.bootPages_fits hPhys hMaps, Writer.tell_bind,
    Writer.tell_bind, Writer.bind_of_ok rfl, ← List.append_assoc]
  rfl

section

variable {before after : List MmapEntry} (st : PageState) (areasAt : Nat)
  (hPhys : Physical mmap poff) (hSplit : available mmap = before ++ e :: after)
  (hBefore : ∀ e ∈ before, GetsMap st poff e)
include hPhys hSplit hBefore

/-- The maps before the area that does not get one. -/
theorem Logged.bootPages_stops {out : List Char} {halt : Halt}
    (hStop : Logged.initArea (st.placed areasAt mmap poff) (placeArea poff e.area) =
      ⟨out, .error halt⟩) :
    Logged.bootPages st areasAt mmap poff =
      ⟨sizeLines mmap ++ (before.flatMap (MmapEntry.mapLine · poff) ++ out), .error halt⟩ := by
  have hRegion : ∀ e' ∈ before ++ e :: after, e'.addr + e'.len ≤ physSize := by
    intro e' he'
    rw [← hSplit] at he'
    exact hPhys.region e' he'
  have hAreas : (((available mmap).map MmapEntry.area).map (placeArea poff)).mapM
      (Logged.initArea (st.placed areasAt mmap poff)) =
        ⟨before.flatMap (MmapEntry.mapLine · poff) ++ out, .error halt⟩ := by
    rw [List.map_map, List.mapM_map, hSplit]
    apply Writer.mapM_of_error (g := (MmapEntry.mapped · poff))
    · intro e' he'
      rw [Function.comp_apply, Function.comp_apply]
      exact Logged.initArea_fits (hRegion e' (List.mem_append_left _ he')) hPhys.image
        (hBefore e' he')
    · rw [Function.comp_apply, Function.comp_apply]
      exact hStop
  rw [Logged.bootPages_eq, hAreas, Writer.tell_bind, Writer.bind_of_error rfl]

theorem Logged.bootPages_refused (hLess : e.len < e.used poff) :
    Logged.bootPages st areasAt mmap poff =
      .panicked (sizeLines mmap ++ before.flatMap (MmapEntry.mapLine · poff))
        "Cannot allocate memory map\n" := by
  have hPlain : Item.plain "Cannot allocate memory map\n" = true := rfl
  have hStop : Logged.initArea (st.placed areasAt mmap poff) (placeArea poff e.area) =
      .panicked [] "Cannot allocate memory map\n" := by
    rw [Logged.initArea, initArea_refused (hPhys.region e (hSplit ▸ by simp)) hPhys.image hLess,
      Logged.lift_panic hPlain, Logged.panicked_bind]
  rw [Logged.bootPages_stops st areasAt hPhys hSplit hBefore hStop]
  unfold Logged.panicked
  rw [List.append_assoc, List.nil_append]

/-- The record that is not mapped is the first thing that goes wrong. -/
theorem Logged.bootPages_faults (hFits : e.used poff ≤ e.len)
    (hClear : ¬ Clearable st (e.mapped poff)) :
    ∃ j < e.pages poff, st.reaches ((e.mapped poff).record j) Page.size = false ∧
      Logged.bootPages st areasAt mmap poff =
        .faulted (sizeLines mmap ++ before.flatMap (MmapEntry.mapLine · poff))
          (.unmapped ((e.mapped poff).record j)) := by
  obtain ⟨j, hj, hFails, hArea⟩ :=
    initArea_faults (hPhys.region e (hSplit ▸ by simp)) hPhys.image hFits hClear
  have hStop : Logged.initArea (st.placed areasAt mmap poff) (placeArea poff e.area) =
      .faulted [] (.unmapped ((e.mapped poff).record j)) := by
    rw [Logged.initArea, hArea, Logged.lift_fault, Logged.faulted_bind]
  refine ⟨j, hj, hFails, ?_⟩
  rw [Logged.bootPages_stops st areasAt hPhys hSplit hBefore hStop, List.append_nil]
  rfl

end

section

variable {r : Reserved} {before after : List MmapEntry}
  (hLeft : st.reserved = ⟨r.base + arrayBytes mmap, r.available - arrayBytes mmap⟩)
  (hPhys : Physical mmap poff) (hBase : VMM_KERNEL_START ≤ r.base)
  (hEnd : r.fini ≤ VMM_RESERVED_DM_START) (hRoom : arrayBytes mmap ≤ r.available)
  (hMaps : ∀ e ∈ available mmap, GetsMap st poff e)
include hLeft hPhys hBase hEnd hRoom hMaps

theorem Logged.bootPages_completes (hEnough : bootBytes mmap ≤ r.available)
    (hArenas : ∀ e ∈ available mmap, BUDDY_MAX_SIZE ≤ e.len → HasArena st poff e) :
    ∃ st', Logged.bootPages st r.base mmap poff =
      ⟨mapText mmap poff ++ "[DEBUG] Page Allocator initialized\n".toList, .ok st'⟩ := by
  obtain ⟨st', hBoot, -⟩ :=
    LunarOS.bootPages_completes hLeft hPhys hBase hEnd hRoom hMaps hEnough hArenas
  refine ⟨st', ?_⟩
  rw [Logged.bootPages_fits hPhys hMaps, hBoot, Writer.tell_bind]
  rfl

variable (hSplit : available mmap = before ++ e :: after)
  (hArenas : ∀ e ∈ before, BUDDY_MAX_SIZE ≤ e.len → HasArena st poff e)
  (hTaken : takenBytes mmap before ≤ r.available) (hLong : BUDDY_MAX_SIZE ≤ e.len)
include hSplit hArenas hTaken hLong

theorem Logged.bootPages_exhausts (hFull : r.available < takenBytes mmap before + buddyBytes) :
    Logged.bootPages st r.base mmap poff =
      .panicked (mapText mmap poff ++ "[ERROR] Not enough memory for buddy".toList)
        "Not enough reserved memory to bootstrap the page allocator!\n" := by
  rw [Logged.bootPages_fits hPhys hMaps, LunarOS.bootPages_exhausts hLeft hPhys hBase hEnd hRoom
    hMaps hSplit hArenas hTaken hLong hFull]
  exact Logged.tell_panicked ..

theorem Logged.bootPages_absent (hEnough : takenBytes mmap before + buddyBytes ≤ r.available)
    (hNone : ¬ HasArena st poff e) :
    Logged.bootPages st r.base mmap poff =
      .faulted (mapText mmap poff) (.list (vmmPhys2virt (e.arena poff))) := by
  have hLog : ∀ f : Fault, Logged.bootLog (.error (.fault f)) = Logged.faulted [] f :=
    fun _ => rfl
  rw [Logged.bootPages_fits hPhys hMaps, LunarOS.bootPages_absent hLeft hPhys hBase hEnd hRoom
    hMaps hSplit hArenas hTaken hLong hEnough hNone, hLog, Logged.tell_faulted, List.append_nil]

end

end

end LunarOS
