import LunarOS.Vmm.DirectMap
import LunarOS.Vmm.Window

/-!
# The kernel's address space

`bootTables`, `directMapEverything` and the calls that map pages each write to tables of their
own. Here they act on one memory: the tables of the boot code, the array `pages` of the direct
map, and `pte` as the table behind `reserved.pt`. `SpaceHolds` says what all the tables contain,
and from it follows what every virtual address means to the processor (`AddressSpace`), after
any number of calls.
-/

namespace LunarOS

open Logic

/-- The boot tables and the static array `pages` of `direct_map_everything`, on pages of their
own in the image. -/
structure ImageSymbols extends BootSymbols where
  pages : Nat
  pages_page : PGSIZE ∣ pages
  pages_low : pages < 2 ^ 30
  pages_apart : ∀ t, address t ≠ pages

/-- `reserved.pt` points to the table: the words that the stores so far have left there. -/
def VmArea.memory (vm : VmArea) (table : Nat) (m : Nat → Nat) : Nat → Nat :=
  vm.stores.foldr (fun i m => movq m (table + 8 * i) (vm.pt i)) m

/-- Entries of the tables, with the window's table given by `pt`. -/
def spaceContents (s : ImageSymbols) (n : Nat) (pt : Nat → Nat) : Contents
  | .pml4, i => if i = 273 then s.pages + 3 else finalContents s.toBootSymbols n .pml4 i
  | .pte, i => pt i
  | t, i => finalContents s.toBootSymbols n t i

/-- All tables, for a kernel of `n` pages of 2 MiB. -/
structure SpaceHolds (s : ImageSymbols) (n : Nat) (pt : Nat → Nat) (m : Nat → Nat) : Prop where
  tables : Holds s.toBootSymbols m (spaceContents s n pt)
  pages : ∀ i < 512, m (s.pages + i * 8) = if i = 0 then 131 else 0

/-- What a virtual address means: the kernel's pages, the first GiB through the direct map, and
the window. -/
def spaceTranslate (n : Nat) (vm : VmArea) (v : Nat) : Option Nat :=
  if VMM_KERNEL_START ≤ v ∧ v < VMM_KERNEL_START + n * 2 ^ 21 then some (v - VMM_KERNEL_START)
  else if VMM_RESERVED_DM_START ≤ v ∧ v < VMM_RESERVED_DM_START + 2 ^ 30 then
    some (v - VMM_RESERVED_DM_START)
  else vm.translate v

/-! ## The walk over all tables -/

theorem spaceContents_pml4 (s : ImageSymbols) (n : Nat) (pt : Nat → Nat) (i : Nat) :
    spaceContents s n pt .pml4 i = if i = 273 then s.pages + 3
      else finalContents s.toBootSymbols n .pml4 i := rfl

section

variable {s : ImageSymbols} {n : Nat} {vm : VmArea} {m : Nat → Nat}

theorem spaceContents_below (s : ImageSymbols) (n : Nat) (pt : Nat → Nat) :
    BelowTop s.toBootSymbols n (spaceContents s n pt) := by
  intro t hTop hLast
  cases t with
  | pml4 => exact absurd rfl hTop
  | pte => exact absurd rfl hLast
  | _ => rfl

/-- The last level, as `VmArea.translate` reads it. -/
theorem SpaceHolds.walk_pte (h : SpaceHolds s n vm.pt m) {v : Nat} (hLow : windowStart ≤ v)
    (hHigh : v < windowStart + VM_AREA_MAX * PGSIZE) :
    Paging.walk m 0 (s.address .pte) v = vm.translate v := by
  have hEntry : m (s.address .pte + 8 * Paging.slot 0 v) = vm.pt (v / PGSIZE % 512) :=
    h.tables.entry .pte 0 v
  unfold VmArea.translate
  rw [if_pos (And.intro hLow hHigh)]
  unfold Paging.walk
  rw [hEntry]
  rfl

theorem SpaceHolds.walk_direct (h : SpaceHolds s n vm.pt m) (v : Nat) :
    Paging.walk m 2 s.pages v = if Paging.slot 2 v = 0 then some (v % 2 ^ 30) else none := by
  have hSlot : Paging.slot 2 v < 512 := Nat.mod_lt _ (by omega)
  have hEntry := h.pages _ hSlot
  rw [Nat.mul_comm _ 8] at hEntry
  by_cases hTwo : Paging.slot 2 v = 0
  · have hHuge : 131 = 0 * 2 ^ Paging.width 2 + 131 := by decide
    rw [if_pos hTwo, hHuge] at hEntry
    rw [if_pos hTwo, Paging.walk_page 1 (by decide) (by decide) (by decide) (by decide) (by decide)
      hEntry, Nat.zero_mul, Nat.zero_add]
    rfl
  · rw [if_neg hTwo] at hEntry
    rw [if_neg hTwo]
    apply Paging.walk_absent
    rw [hEntry]
    decide

/-- The entry of PML4 slot 273. -/
theorem SpaceHolds.walk_pages (h : SpaceHolds s n vm.pt m) {v : Nat}
    (hSlot : Paging.slot 3 v = 273) :
    Paging.walk m 3 (s.address .pml4) v = Paging.walk m 2 s.pages v := by
  have hEntry : m (s.address .pml4 + 8 * Paging.slot 3 v) = s.pages + 3 := by
    rw [h.tables.entry, spaceContents_pml4, if_pos hSlot]
  have hLow := s.pages_low
  exact Paging.walk_table s.pages_page (by omega) (by omega) (by omega) hEntry

/-- An entry of the top table that is none of the three in use. -/
theorem SpaceHolds.walk_unused (h : SpaceHolds s n vm.pt m) {v : Nat}
    (hKernel : Paging.slot 3 v ≠ 256) (hWindow : Paging.slot 3 v ≠ 257)
    (hDirect : Paging.slot 3 v ≠ 273) : Paging.walk m 3 (s.address .pml4) v = none := by
  apply h.tables.walk_zero
  rw [spaceContents_pml4, if_neg hDirect]
  unfold finalContents
  dsimp only
  rw [if_neg hKernel, if_neg hWindow]

/-! ### The ranges by their slots -/

section

variable {v : Nat} (hLow : 2 ^ 64 - 2 ^ 47 ≤ v) (hHigh : v < 2 ^ 64)
include hLow hHigh

theorem kernel_range_iff (hn : n ≤ 512) :
    VMM_KERNEL_START ≤ v ∧ v < VMM_KERNEL_START + n * 2 ^ 21 ↔
      Paging.slot 3 v = 256 ∧ Paging.slot 2 v = 0 ∧ Paging.slot 1 v < n := by
  have hSplit := Paging.upper_eq hLow hHigh
  have hTwo : Paging.slot 2 v < 512 := Nat.mod_lt _ (by omega)
  have hOne : Paging.slot 1 v < 512 := Nat.mod_lt _ (by omega)
  have hOffset : v % 2 ^ 21 < 2 ^ 21 := Nat.mod_lt _ (by omega)
  unfold VMM_KERNEL_START
  constructor
  · intro h
    refine ⟨?_, ?_, ?_⟩ <;> omega
  · rintro ⟨hThree, hZero, hLess⟩
    constructor <;> omega

theorem direct_range_iff :
    VMM_RESERVED_DM_START ≤ v ∧ v < VMM_RESERVED_DM_START + 2 ^ 30 ↔
      Paging.slot 3 v = 273 ∧ Paging.slot 2 v = 0 := by
  have hSplit := Paging.upper_eq hLow hHigh
  have hTwo : Paging.slot 2 v < 512 := Nat.mod_lt _ (by omega)
  have hOne : Paging.slot 1 v < 512 := Nat.mod_lt _ (by omega)
  have hOffset : v % 2 ^ 21 < 2 ^ 21 := Nat.mod_lt _ (by omega)
  unfold VMM_RESERVED_DM_START
  constructor
  · intro h
    constructor <;> omega
  · rintro ⟨hThree, hZero⟩
    constructor <;> omega

theorem window_range_iff :
    windowStart ≤ v ∧ v < windowStart + VM_AREA_MAX * PGSIZE ↔
      Paging.slot 3 v = 257 ∧ Paging.slot 2 v = 0 ∧ Paging.slot 1 v = 0 := by
  have hSplit := Paging.upper_eq hLow hHigh
  have hTwo : Paging.slot 2 v < 512 := Nat.mod_lt _ (by omega)
  have hOne : Paging.slot 1 v < 512 := Nat.mod_lt _ (by omega)
  have hOffset : v % 2 ^ 21 < 2 ^ 21 := Nat.mod_lt _ (by omega)
  unfold windowStart VM_AREA_MAX PGSIZE
  constructor
  · intro h
    refine ⟨?_, ?_, ?_⟩ <;> omega
  · rintro ⟨hThree, hZero, hFirst⟩
    constructor <;> omega

end

/-- Outside the window its entries mean nothing. -/
theorem VmArea.translate_outside {v : Nat}
    (h : ¬ (windowStart ≤ v ∧ v < windowStart + VM_AREA_MAX * PGSIZE)) : vm.translate v = none :=
  if_neg h

theorem SpaceHolds.translate_upper (hn : n ≤ 512) (h : SpaceHolds s n vm.pt m) {v : Nat}
    (hLow : 2 ^ 64 - 2 ^ 47 ≤ v) (hHigh : v < 2 ^ 64) :
    Paging.walk m 3 (s.address .pml4) v = spaceTranslate n vm v := by
  have hKernel := kernel_range_iff hLow hHigh hn
  have hDirect := direct_range_iff hLow hHigh
  have hWindow := window_range_iff hLow hHigh
  have hSplit := Paging.upper_eq hLow hHigh
  unfold spaceTranslate
  by_cases hInKernel : Paging.slot 3 v = 256
  · have hLink : spaceContents s n vm.pt .pml4 (Paging.slot 3 v) = s.address .pdpte2mb + 3 := by
      rw [hInKernel]
      rfl
    rw [h.tables.walk_link .pml4 .pdpte2mb 2 hLink,
      walk_kernel hn h.tables (spaceContents_below s n vm.pt)]
    by_cases hPage : Paging.slot 2 v = 0 ∧ Paging.slot 1 v < n
    · rw [if_pos hPage, if_pos (hKernel.mpr ⟨hInKernel, hPage⟩)]
      unfold VMM_KERNEL_START
      exact congrArg some (by omega)
    · rw [if_neg hPage, if_neg fun hv => hPage (hKernel.mp hv).2,
        if_neg fun hv => by have := (hDirect.mp hv).1; omega,
        VmArea.translate_outside fun hv => by have := (hWindow.mp hv).1; omega]
  · rw [if_neg fun hv => hInKernel (hKernel.mp hv).1]
    by_cases hInDirect : Paging.slot 3 v = 273
    · rw [h.walk_pages hInDirect, h.walk_direct,
        VmArea.translate_outside fun hv => by have := (hWindow.mp hv).1; omega]
      by_cases hFirst : Paging.slot 2 v = 0
      · have hRange := hDirect.mpr ⟨hInDirect, hFirst⟩
        rw [if_pos hFirst, if_pos hRange]
        unfold VMM_RESERVED_DM_START at hRange ⊢
        exact congrArg some (by omega)
      · rw [if_neg hFirst, if_neg fun hv => hFirst (hDirect.mp hv).2]
    · rw [if_neg fun hv => hInDirect (hDirect.mp hv).1]
      by_cases hInWindow : Paging.slot 3 v = 257
      · have hLink : spaceContents s n vm.pt .pml4 (Paging.slot 3 v) = s.address .pdpte + 3 := by
          rw [hInWindow]
          rfl
        rw [h.tables.walk_link .pml4 .pdpte 2 hLink,
          walk_window h.tables (spaceContents_below s n vm.pt)]
        by_cases hFirst : Paging.slot 2 v = 0 ∧ Paging.slot 1 v = 0
        · obtain ⟨hGe, hLt⟩ := hWindow.mpr ⟨hInWindow, hFirst⟩
          rw [if_pos hFirst, h.walk_pte hGe hLt]
        · rw [if_neg hFirst, VmArea.translate_outside fun hv => hFirst (hWindow.mp hv).2]
      · rw [h.walk_unused hInKernel hInWindow hInDirect,
          VmArea.translate_outside fun hv => hInWindow (hWindow.mp hv).1]

theorem SpaceHolds.translate_eq (hn : n ≤ 512) (h : SpaceHolds s n vm.pt m) (v : Nat) :
    Paging.translate m (s.address .pml4) v = spaceTranslate n vm v := by
  unfold Paging.translate
  by_cases hCanonical : Paging.Canonical v
  · rw [if_pos hCanonical]
    rcases hCanonical with hLower | ⟨hLow, hHigh⟩
    · have hSlot := Paging.slot_lower hLower
      rw [h.walk_unused (by omega) (by omega) (by omega)]
      unfold spaceTranslate VMM_KERNEL_START VMM_RESERVED_DM_START VmArea.translate windowStart
      rw [if_neg (by omega), if_neg (by omega), if_neg (by omega)]
    · exact h.translate_upper hn hLow hHigh
  · rw [if_neg hCanonical]
    unfold Paging.Canonical at hCanonical
    unfold spaceTranslate VMM_KERNEL_START VMM_RESERVED_DM_START VmArea.translate windowStart
      VM_AREA_MAX PGSIZE
    rw [if_neg (by omega), if_neg (by omega), if_neg (by omega)]

end

/-! ## The stores through `reserved.pt` -/

section

variable {s : ImageSymbols} {n : Nat} {vm : VmArea} {m : Nat → Nat}

theorem storesTo_apply (pt : Nat → Nat) (table : Nat) (m : Nat → Nat) (stores : List Nat) (i : Nat) :
    stores.foldr (fun i m => movq m (table + 8 * i) (pt i)) m (table + 8 * i) =
      if i ∈ stores then pt i else m (table + 8 * i) := by
  induction stores with
  | nil => rfl
  | cons j stores ih =>
    rw [List.foldr_cons]
    unfold movq
    by_cases hSame : i = j
    · rw [hSame, Function.update_self, if_pos List.mem_cons_self]
    · rw [Function.update_of_ne (by omega)]
      unfold movq at ih
      rw [ih]
      simp only [List.mem_cons, hSame, false_or]

theorem storesTo_other (pt : Nat → Nat) (table : Nat) (m : Nat → Nat) {stores : List Nat} {a : Nat}
    (h : ∀ i ∈ stores, a ≠ table + 8 * i) :
    stores.foldr (fun i m => movq m (table + 8 * i) (pt i)) m a = m a := by
  induction stores with
  | nil => rfl
  | cons j stores ih =>
    rw [List.foldr_cons]
    unfold movq
    rw [Function.update_of_ne (h j List.mem_cons_self)]
    exact ih fun i hi => h i (List.mem_cons_of_mem j hi)

/-- All stores are inside the table, and what they have not written is what was there. -/
structure VmArea.InTable (pt : Nat → Nat) (vm : VmArea) : Prop where
  size : vm.size ≤ VM_AREA_MAX
  stores : ∀ i ∈ vm.stores, i < VM_AREA_MAX
  kept : ∀ i, i ∉ vm.stores → vm.pt i = pt i

/-- The stores of the calls change the window's table and nothing else. -/
theorem SpaceHolds.memory {pt : Nat → Nat} (h : SpaceHolds s n pt m) (hTable : vm.InTable pt) :
    SpaceHolds s n vm.pt (vm.memory (s.address .pte) m) := by
  obtain ⟨f, hf⟩ := s.aligned .pte
  unfold PGSIZE at hf
  have hBound : ∀ i ∈ vm.stores, i < 512 := hTable.stores
  constructor
  · intro t i hi
    obtain ⟨d, hd⟩ := s.aligned t
    unfold PGSIZE at hd
    unfold VmArea.memory
    by_cases hPte : t = .pte
    · subst hPte
      rw [Nat.mul_comm i 8, storesTo_apply]
      by_cases hMem : i ∈ vm.stores
      · rw [if_pos hMem]
        rfl
      · rw [if_neg hMem, Nat.mul_comm 8 i, h.tables .pte i hi]
        exact (hTable.kept i hMem).symm
    · have hOther : s.address t ≠ s.address .pte := fun hEq => hPte (s.injective hEq)
      rw [storesTo_other, h.tables t i hi]
      · cases t <;> first | rfl | exact absurd rfl hPte
      · intro j hj
        have := hBound j hj
        omega
  · intro i hi
    obtain ⟨d, hd⟩ := s.pages_page
    unfold PGSIZE at hd
    have hOther := s.pages_apart .pte
    unfold VmArea.memory
    rw [storesTo_other, h.pages i hi]
    intro j hj
    have := hBound j hj
    omega

/-! ### Calls -/

/-- A call for at least one page of physical memory. -/
def MapOp.Physical (op : MapOp) : Prop :=
  0 < op.npages ∧ op.addr + PGSIZE * op.npages ≤ 2 ^ 52

theorem MapOp.Physical.addr_lt {op : MapOp} (h : op.Physical) : op.addr < 2 ^ 52 := by
  obtain ⟨hPos, hReal⟩ := h
  unfold PGSIZE at hReal
  omega

/-- The next entry is free, and there is one for each page. -/
theorem Takes.fits {op : MapOp} {vm' : VmArea} {va : Nat} (hPhysical : op.Physical)
    (hSize : vm.size ≤ VM_AREA_MAX) (h : Takes vm op.addr op.npages va vm') :
    vm.size + op.npages ≤ VM_AREA_MAX ∧ op.pages = op.npages := by
  obtain ⟨hPos, hReal⟩ := hPhysical
  have hRoom := h.room
  unfold PGSIZE at hReal
  unfold VM_AREA_MAX at hSize
  rw [add64_eq (by unfold wordSize; omega)] at hRoom
  refine ⟨hRoom, ?_⟩
  unfold MapOp.pages
  omega

theorem VmArea.InTable.step {pt : Nat → Nat} {w w' : Window} {op : MapOp}
    (h : w.vm.InTable pt) (hPhysical : op.Physical) (hStep : MapStep w op w') :
    w'.vm.InTable pt := by
  obtain ⟨va, vm', rfl, hTakes⟩ := hStep.takes hPhysical.addr_lt
  obtain ⟨hRoom, hPages⟩ := hTakes.fits hPhysical h.size
  obtain ⟨-, -, bits, -, hTable⟩ := hTakes
  have hPos := hPhysical.1
  have hFirst : w.vm.size % 2 ^ 16 = w.vm.size := by
    unfold VM_AREA_MAX at hRoom
    omega
  have hCount : max op.npages 1 = op.npages := hPages
  rw [hFirst, hCount] at hTable
  obtain ⟨hSize, hStores, hKept⟩ := h
  dsimp only
  refine ⟨?_, ?_, ?_⟩
  · rw [hTable, fill_size]
    unfold VM_AREA_MAX at hRoom ⊢
    dsimp only
    omega
  · intro i hi
    rw [hTable, fill_stores] at hi
    rcases List.mem_append.mp hi with hNew | hOld
    · have := (mem_slotsOf_small hRoom).mp hNew
      omega
    · exact hStores i hOld
  · intro i hi
    rw [hTable, fill_stores, List.mem_append, not_or] at hi
    rw [hTable, fill_pt_other _ _ _ _ hi.1]
    exact hKept i hi.2

theorem inTable_init (pt : Nat → Nat) : (vmmInit pt).InTable pt where
  size := Nat.zero_le _
  stores := by simp [vmmInit]
  kept _ _ := rfl

theorem inTable_run {pt : Nat → Nat} {ops : List MapOp} {w : Window}
    (hPhysical : ∀ op ∈ ops, op.Physical) (hRun : Run MapStep ⟨vmmInit pt, []⟩ ops w) :
    w.vm.InTable pt := by
  induction hRun with
  | nil => exact inTable_init pt
  | @snoc ops w op w' _ hStep ih =>
    exact (ih fun o ho => hPhysical o (List.mem_append_left _ ho)).step
      (hPhysical op (by simp)) hStep

end

/-! ## From the boot code to any number of calls -/

/-- The image as it is loaded: tables and `pages` are empty, and everything lies below
`kernelEnd`. -/
structure ImageSymbols.Loaded (s : ImageSymbols) (kernelEnd : Nat) (m : Nat → Nat) : Prop where
  small : kernelEnd < 2 ^ 30
  tables : Holds s.toBootSymbols m fun _ _ => 0
  pages : ∀ i < 512, m (s.pages + i * 8) = 0
  inside : ∀ t, s.address t + PGSIZE ≤ kernelEnd

/-- Memory and `reserved` after the boot code, `direct_map_everything`, `vmm_init` and calls. -/
inductive SpaceReach (s : ImageSymbols) (kernelEnd : Nat) (m : Nat → Nat) :
    VmArea → (Nat → Nat) → Prop
  | intro {m1 : Nat → Nat} {fuel : Nat} {st : DmState} {ops : List MapOp} {w : Window} :
      bootTables s.toBootSymbols kernelEnd m fuel = some m1 →
      directMapEverything (s.address .pml4) (VMM_KERNEL_START + s.pages) { m := m1 } = .ok st →
      (∀ op ∈ ops, op.Physical) →
      Run MapStep ⟨vmmInit fun i => st.m (s.address .pte + 8 * i), []⟩ ops w →
      SpaceReach s kernelEnd m w.vm (w.vm.memory (s.address .pte) st.m)

section

variable {s : ImageSymbols} {kernelEnd : Nat} {m : Nat → Nat}

theorem bootTables_unique {fuel fuel' : Nat} {m1 m2 : Nat → Nat}
    (h1 : bootTables s.toBootSymbols kernelEnd m fuel = some m1)
    (h2 : bootTables s.toBootSymbols kernelEnd m fuel' = some m2) : m1 = m2 := by
  obtain ⟨a1, hMap1, hStart1⟩ := Option.bind_eq_some_iff.mp h1
  obtain ⟨a2, hMap2, hStart2⟩ := Option.bind_eq_some_iff.mp h2
  obtain rfl : a1 = a2 := Loop.Returns.unique ⟨_, hMap1⟩ ⟨_, hMap2⟩
  exact Loop.Returns.unique ⟨_, hStart1⟩ ⟨_, hStart2⟩

theorem ImageSymbols.pages_elsewhere (s : ImageSymbols) {k : Nat} (hk : k < 512) :
    Elsewhere s.toBootSymbols (s.pages + k * 8) := by
  intro t i hi
  obtain ⟨d, hd⟩ := s.aligned t
  obtain ⟨f, hf⟩ := s.pages_page
  have hOther := s.pages_apart t
  unfold PGSIZE at hd hf
  omega

/-- The boot code leaves what `direct_map_everything` needs. -/
theorem ImageSymbols.Loaded.ready (h : s.Loaded kernelEnd m) {m1 : Nat → Nat} {fuel : Nat}
    (hRun : bootTables s.toBootSymbols kernelEnd m fuel = some m1) :
    DirectMapReady (s.address .pml4) (VMM_KERNEL_START + s.pages) { m := m1 } where
  first := rfl
  cr3_page := s.aligned .pml4
  cr3_low := s.low .pml4
  pages_page := (Nat.dvd_add_right (by decide)).mpr s.pages_page
  pages_ge := Nat.le_add_right ..
  pages_lt := Nat.add_lt_add_left s.pages_low _
  apart hEq := s.pages_apart .pml4 (Nat.add_left_cancel hEq).symm
  empty k hk := by
    rw [Nat.add_sub_cancel_left, Nat.mul_comm 8 k]
    exact ((s.pages_elsewhere hk).bootTables h.small hRun).trans (h.pages k hk)

/-- The boot code and `direct_map_everything` complete, and leave an empty window. -/
theorem ImageSymbols.Loaded.boot (h : s.Loaded kernelEnd m) :
    ∃ m1 st, bootTables s.toBootSymbols kernelEnd m 512 = some m1 ∧
      directMapEverything (s.address .pml4) (VMM_KERNEL_START + s.pages) { m := m1 } = .ok st ∧
      SpaceHolds s (kernelPages kernelEnd) (fun i => st.m (s.address .pte + 8 * i)) st.m ∧
      ∀ i < 512, st.m (s.address .pte + 8 * i) = 0 := by
  obtain ⟨m1, hRun, hHolds⟩ := bootTables_holds h.small h.tables
  have hReady := h.ready hRun
  obtain ⟨d, hd⟩ := s.pages_page
  unfold PGSIZE at hd
  refine ⟨m1, _, hRun, directMapEverything_eq hReady, ?_⟩
  rw [Nat.add_sub_cancel_left]
  -- the words of the six tables
  have hWord : ∀ t, ∀ i < 512, movq (movq m1 s.pages 131) (s.address .pml4 + 8 * 273)
      (s.pages + 3) (s.address t + i * 8) =
        if t = .pml4 ∧ i = 273 then s.pages + 3
        else finalContents s.toBootSymbols (kernelPages kernelEnd) t i := by
    intro t i hi
    obtain ⟨f, hf⟩ := s.aligned t
    have hApart := s.pages_apart t
    unfold PGSIZE at hf
    rw [Nat.mul_comm 8 273]
    unfold movq
    by_cases hTop : t = .pml4 ∧ i = 273
    · rw [if_pos hTop, hTop.1, hTop.2, Function.update_self]
    · have hNot : s.address t + i * 8 ≠ s.address .pml4 + 273 * 8 := fun hEq =>
        hTop (s.entry_inj hi (by omega) hEq)
      rw [if_neg hTop, Function.update_of_ne hNot, Function.update_of_ne (by omega), hHolds t i hi]
      rfl
  have hEmpty : ∀ i < 512, movq (movq m1 s.pages 131) (s.address .pml4 + 8 * 273)
      (s.pages + 3) (s.address .pte + 8 * i) = 0 := by
    intro i hi
    rw [Nat.mul_comm 8 i, hWord .pte i hi]
    rfl
  refine ⟨⟨?_, ?_⟩, hEmpty⟩
  · intro t i hi
    cases t with
    | pte =>
      rw [Nat.mul_comm i 8]
      rfl
    | pml4 =>
      apply (hWord .pml4 i hi).trans
      rw [spaceContents_pml4]
      simp only [true_and]
    | pdpte2mb => exact hWord .pdpte2mb i hi
    | pde2mb => exact hWord .pde2mb i hi
    | pdpte => exact hWord .pdpte i hi
    | pde => exact hWord .pde i hi
  · intro i hi
    have hNot := s.pages_elsewhere hi .pml4 273 (by omega)
    rw [Nat.mul_comm 8 273]
    unfold movq
    dsimp only
    rw [Function.update_of_ne hNot]
    by_cases hZero : i = 0
    · rw [if_pos hZero, hZero, Nat.zero_mul, Nat.add_zero, Function.update_self]
    · rw [if_neg hZero, Function.update_of_ne (by omega),
        (s.pages_elsewhere hi).bootTables h.small hRun, h.pages i hi]

/-- What every reachable state has in its tables. -/
theorem SpaceReach.holds (h : s.Loaded kernelEnd m) {vm : VmArea} {m' : Nat → Nat}
    (hReach : SpaceReach s kernelEnd m vm m') :
    SpaceHolds s (kernelPages kernelEnd) vm.pt m' ∧ kernelPages kernelEnd ≤ 512 := by
  obtain ⟨hRun, hDirect, hPhysical, hCalls⟩ := hReach
  obtain ⟨m1, st, hRun', hDirect', hHolds, -⟩ := h.boot
  obtain rfl := bootTables_unique hRun hRun'
  obtain rfl := Except.ok.inj (hDirect.symm.trans hDirect')
  have hSmall := h.small
  refine ⟨hHolds.memory (inTable_run hPhysical hCalls), ?_⟩
  unfold kernelPages
  omega

end

/-! ## What addresses mean -/

/-- The tables translate the three ranges and nothing else. The image is in the first, so the
tables map themselves. -/
structure AddressSpace (s : ImageSymbols) (kernelEnd : Nat) (vm : VmArea) (m : Nat → Nat) :
    Prop where
  exact : ∀ v, Paging.translate m (s.address .pml4) v =
    spaceTranslate (kernelPages kernelEnd) vm v
  image : ∀ p < kernelEnd,
    Paging.translate m (s.address .pml4) (VMM_KERNEL_START + p) = some p
  tables : ∀ t, ∀ i < 512, Paging.translate m (s.address .pml4)
    (VMM_KERNEL_START + (s.address t + 8 * i)) = some (s.address t + 8 * i)

theorem SpaceReach.addressSpace {s : ImageSymbols} {kernelEnd : Nat} {m m' : Nat → Nat}
    {vm : VmArea} (hReach : SpaceReach s kernelEnd m vm m') (h : s.Loaded kernelEnd m) :
    AddressSpace s kernelEnd vm m' := by
  obtain ⟨hHolds, hPages⟩ := hReach.holds h
  have hExact := hHolds.translate_eq hPages
  have hImage : ∀ p < kernelEnd,
      Paging.translate m' (s.address .pml4) (VMM_KERNEL_START + p) = some p := by
    intro p hp
    have hRange : p < kernelPages kernelEnd * 2 ^ 21 := by
      unfold kernelPages
      omega
    rw [hExact]
    unfold spaceTranslate
    rw [if_pos ⟨Nat.le_add_right .., Nat.add_lt_add_left hRange _⟩, Nat.add_sub_cancel_left]
  refine ⟨hExact, hImage, fun t i hi => hImage _ ?_⟩
  have hInside := h.inside t
  unfold PGSIZE at hInside
  omega

theorem addressSpace_exact {s : ImageSymbols} {kernelEnd : Nat} {m : Nat → Nat}
    (h : s.Loaded kernelEnd m) :
    (∃ vm m', SpaceReach s kernelEnd m vm m' ∧ vm.size = 0) ∧
      ∀ vm m', SpaceReach s kernelEnd m vm m' → AddressSpace s kernelEnd vm m' := by
  constructor
  · obtain ⟨m1, st, hRun, hDirect, -, -⟩ := h.boot
    exact ⟨_, _, .intro hRun hDirect (by simp) .nil, rfl⟩
  · intro vm m' hReach
    exact hReach.addressSpace h

/-- The sample tables with `pages` behind them. -/
def sampleImage : ImageSymbols where
  toBootSymbols := sampleSymbols
  pages := 0x120000
  pages_page := by decide
  pages_low := by decide
  pages_apart t := by cases t <;> decide

theorem sampleImage_loaded : sampleImage.Loaded 0x180000 fun _ => 0 where
  small := by decide
  tables _ _ _ := rfl
  pages _ _ := rfl
  inside t := by cases t <;> decide

theorem addressSpace_sample :
    (∃ vm m', SpaceReach sampleImage 0x180000 (fun _ => 0) vm m' ∧ vm.size = 0) ∧
      ∀ vm m', SpaceReach sampleImage 0x180000 (fun _ => 0) vm m' →
        AddressSpace sampleImage 0x180000 vm m' :=
  addressSpace_exact sampleImage_loaded

/-! ## `vmm_virt2phys` and the tables -/

def InWindow (v : Nat) : Prop := windowStart ≤ v ∧ v < windowStart + VM_AREA_MAX * PGSIZE

theorem virt2phys_direct {p : Nat} (hp : p < 2 ^ 46) :
    vmmVirt2phys (VMM_RESERVED_DM_START + p) = .ok p := by
  have hInverse := vmmVirt2phys_phys2virt (a := p) (by unfold dmSize; exact hp)
  rwa [vmmPhys2virt_eq (by unfold dmSize; omega), Nat.add_comm] at hInverse

/-- No address of the window is known to `vmm_virt2phys`. -/
theorem virt2phys_window {v : Nat} (h : InWindow v) :
    vmmVirt2phys v = .error (.panic "TODO") := by
  unfold InWindow windowStart VM_AREA_MAX PGSIZE at h
  unfold vmmVirt2phys VMM_RESERVED_BOOT_START VMM_RESERVED_BOOT_END VMM_RESERVED_DM_START
    VMM_RESERVED_DM_END VMM_KERNEL_START
  rw [if_neg (by omega), if_neg (by omega)]

/-- The software translation against the processor's. -/
structure Virt2physAgrees (s : ImageSymbols) (kernelEnd : Nat) (m : Nat → Nat) : Prop where
  mapped : ∀ v p, Paging.translate m (s.address .pml4) v = some p → ¬ InWindow v →
    vmmVirt2phys v = .ok p
  window : ∀ v, InWindow v → vmmVirt2phys v = .error (.panic "TODO")
  /-- an address of the image's range is mapped up to the last page of the kernel -/
  boot : ∀ v p, vmmVirt2phys v = .ok p → v ≤ VMM_RESERVED_BOOT_END →
    (Paging.translate m (s.address .pml4) v = some p ↔ p < kernelPages kernelEnd * 2 ^ 21)
  /-- an address of the direct map's range is mapped in the first GiB -/
  direct : ∀ v p, vmmVirt2phys v = .ok p → VMM_RESERVED_DM_START ≤ v →
    (Paging.translate m (s.address .pml4) v = some p ↔ p < 2 ^ 30)
  never : ∀ v p q, vmmVirt2phys v = .ok p → Paging.translate m (s.address .pml4) v = some q →
    q = p

theorem virt2phys_ok {v p : Nat} (h : vmmVirt2phys v = .ok p) :
    VMM_KERNEL_START ≤ v ∧ v ≤ VMM_RESERVED_BOOT_END ∧ v = VMM_KERNEL_START + p ∨
      VMM_RESERVED_DM_START ≤ v ∧ v ≤ VMM_RESERVED_DM_END ∧ v = VMM_RESERVED_DM_START + p := by
  unfold vmmVirt2phys VMM_RESERVED_BOOT_START at h
  split at h
  · next hBoot =>
    have hValue := Except.ok.inj h
    unfold VMM_RESERVED_BOOT_END at hBoot
    rw [sub64_eq hBoot.1 (by unfold wordSize; omega)] at hValue
    exact .inl ⟨hBoot.1, hBoot.2, by omega⟩
  · split at h
    · next hDirect =>
      have hValue := Except.ok.inj h
      unfold VMM_RESERVED_DM_END at hDirect
      rw [sub64_eq hDirect.1 (by unfold wordSize; omega)] at hValue
      exact .inr ⟨hDirect.1, hDirect.2, by omega⟩
    · cases h

section

variable {s : ImageSymbols} {kernelEnd : Nat} {vm : VmArea} {m : Nat → Nat}

/-- Outside the window the tables only ever give what `vmm_virt2phys` computes. -/
theorem AddressSpace.mapped (h : AddressSpace s kernelEnd vm m) (hEnd : kernelEnd < 2 ^ 30)
    {v p : Nat} (hv : Paging.translate m (s.address .pml4) v = some p) (hOut : ¬ InWindow v) :
    vmmVirt2phys v = .ok p := by
  rw [h.exact] at hv
  unfold spaceTranslate at hv
  split at hv
  · next hKernel =>
    obtain rfl := Option.some.inj hv
    have hSmall : kernelPages kernelEnd ≤ 512 := by
      unfold kernelPages
      omega
    exact virt2phys_image hKernel.1 (Nat.lt_of_lt_of_le hKernel.2 (Nat.add_le_add_left (by omega) _))
  · split at hv
    · next hDirect =>
      obtain rfl := Option.some.inj hv
      have hValue := virt2phys_direct (p := v - VMM_RESERVED_DM_START) (by omega)
      rwa [Nat.add_sub_cancel' hDirect.1] at hValue
    · rw [VmArea.translate_outside hOut] at hv
      cases hv

theorem AddressSpace.boot_iff (h : AddressSpace s kernelEnd vm m) {p : Nat} (hp : p < 2 ^ 39) :
    Paging.translate m (s.address .pml4) (VMM_KERNEL_START + p) = some p ↔
      p < kernelPages kernelEnd * 2 ^ 21 := by
  have hOther : ¬ InWindow (VMM_KERNEL_START + p) := by
    unfold InWindow windowStart VMM_KERNEL_START
    omega
  rw [h.exact]
  unfold spaceTranslate
  by_cases hRange : p < kernelPages kernelEnd * 2 ^ 21
  · rw [if_pos ⟨Nat.le_add_right .., Nat.add_lt_add_left hRange _⟩, Nat.add_sub_cancel_left]
    exact iff_of_true rfl hRange
  · rw [if_neg fun hv => hRange (Nat.lt_of_add_lt_add_left hv.2),
      if_neg fun hv => by unfold VMM_KERNEL_START VMM_RESERVED_DM_START at hv; omega,
      VmArea.translate_outside hOther]
    exact iff_of_false (by simp) hRange

theorem AddressSpace.direct_iff (h : AddressSpace s kernelEnd vm m) (hEnd : kernelEnd < 2 ^ 30)
    {p : Nat} : Paging.translate m (s.address .pml4) (VMM_RESERVED_DM_START + p) = some p ↔
      p < 2 ^ 30 := by
  have hSmall : kernelPages kernelEnd ≤ 512 := by
    unfold kernelPages
    omega
  have hKernel : ¬ (VMM_KERNEL_START ≤ VMM_RESERVED_DM_START + p ∧
      VMM_RESERVED_DM_START + p < VMM_KERNEL_START + kernelPages kernelEnd * 2 ^ 21) := by
    unfold VMM_KERNEL_START VMM_RESERVED_DM_START
    omega
  have hOther : ¬ InWindow (VMM_RESERVED_DM_START + p) := by
    unfold InWindow windowStart VM_AREA_MAX PGSIZE VMM_RESERVED_DM_START
    omega
  rw [h.exact]
  unfold spaceTranslate
  rw [if_neg hKernel]
  by_cases hRange : p < 2 ^ 30
  · rw [if_pos ⟨Nat.le_add_right .., Nat.add_lt_add_left hRange _⟩, Nat.add_sub_cancel_left]
    exact iff_of_true rfl hRange
  · rw [if_neg fun hv => hRange (Nat.lt_of_add_lt_add_left hv.2), VmArea.translate_outside hOther]
    exact iff_of_false (by simp) hRange

theorem AddressSpace.agrees (h : AddressSpace s kernelEnd vm m) (hEnd : kernelEnd < 2 ^ 30) :
    Virt2physAgrees s kernelEnd m where
  mapped v p hv hOut := h.mapped hEnd hv hOut
  window v hv := virt2phys_window hv
  boot v p hValue hBoot := by
    rcases virt2phys_ok hValue with ⟨hGe, hLe, rfl⟩ | ⟨hGe, -, -⟩
    · apply h.boot_iff
      unfold VMM_RESERVED_BOOT_END VMM_KERNEL_START at hLe
      omega
    · unfold VMM_RESERVED_DM_START at hGe
      unfold VMM_RESERVED_BOOT_END at hBoot
      omega
  direct v p hValue hDirect := by
    rcases virt2phys_ok hValue with ⟨-, hLe, -⟩ | ⟨-, -, rfl⟩
    · unfold VMM_RESERVED_BOOT_END at hLe
      unfold VMM_RESERVED_DM_START at hDirect
      omega
    · exact h.direct_iff hEnd
  never v p q hValue hv := by
    by_cases hIn : InWindow v
    · rw [virt2phys_window hIn] at hValue
      cases hValue
    · exact Except.ok.inj ((h.mapped hEnd hv hIn).symm.trans hValue)

theorem virt2phys_agrees {s : ImageSymbols} {kernelEnd : Nat} {m m' : Nat → Nat} {vm : VmArea}
    (h : s.Loaded kernelEnd m) (hReach : SpaceReach s kernelEnd m vm m') :
    Virt2physAgrees s kernelEnd m' := (hReach.addressSpace h).agrees h.small

/-- The local APIC in the first entry. -/
theorem mapStep_lapic (pt : Nat → Nat) :
    MapStep ⟨vmmInit pt, []⟩ (.page 0xFEE00000 0)
      ⟨({ vmmInit pt with size := 1 } : VmArea).store 0 (entryOf 0xFEE00000 152),
        [⟨windowStart, .page 0xFEE00000 0, [0]⟩]⟩ := by
  refine .intro ?_ rfl
  change mmapPhysicalPage false (vmmInit pt) 0xFEE00000 0 = _
  have hFetch : vmmFetchMap false (vmmInit pt) 1 =
      .ok (some (⟨257, 0, 0, 0⟩, { vmmInit pt with size := 1 })) := by
    simp [vmmFetchMap, vmmInit, add64, wordSize, VM_AREA_MAX]
  have hType : memoryType 0 = .ok 152 := rfl
  have hAddress : (VmmMap.mk 257 0 0 0).vaddr (0xFEE00000 % PGSIZE) = windowStart :=
    vaddr_window 0 _
  unfold mmapPhysicalPage
  rw [hFetch, ok_bind_eq]
  dsimp only
  rw [vmmAssignMap_eq, hType, hAddress]
  rfl

theorem sampleImage_reach :
    ∃ vm m', SpaceReach sampleImage 0x180000 (fun _ => 0) vm m' ∧ vm.size = 1 := by
  obtain ⟨m1, st, hRun, hDirect, -, -⟩ := sampleImage_loaded.boot
  have hCall := Run.one (mapStep_lapic fun i => st.m (sampleImage.address .pte + 8 * i))
  refine ⟨_, _, .intro hRun hDirect ?_ hCall, rfl⟩
  simp [MapOp.Physical, MapOp.npages, MapOp.addr, PGSIZE]

theorem virt2phys_sample : ∃ vm m', SpaceReach sampleImage 0x180000 (fun _ => 0) vm m' ∧
    vm.size = 1 ∧ Virt2physAgrees sampleImage 0x180000 m' := by
  obtain ⟨vm, m', hReach, hSize⟩ := sampleImage_reach
  exact ⟨vm, m', hReach, hSize, virt2phys_agrees sampleImage_loaded hReach⟩

end

end LunarOS
