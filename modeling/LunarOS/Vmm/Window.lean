import LunarOS.Logic.Run
import LunarOS.Vmm.Map

/-!
# The early window

The entries behind slot 257 are handed out in order: call number `i` takes the entries from
`i` on. `vmm_fetch_map` advances by one entry however many pages are asked for, so the next
call overwrites what a call for several pages has mapped. `windowSafe_iff` says which
sequences of calls get by with this.
-/

namespace LunarOS

open Logic

/-! ## Calls -/

inductive MapOp
  | page (addr type : Nat)
  | area (addr npages type : Nat)
  deriving DecidableEq, Repr

namespace MapOp

def addr : MapOp → Nat
  | page addr _ => addr
  | area addr _ _ => addr

def npages : MapOp → Nat
  | page _ _ => 1
  | area _ npages _ => npages

/-- Virtual pages that the call returns; it maps one even when none is asked for. -/
def pages (op : MapOp) : Nat := max op.npages 1

def run (irqEnabled : Bool) (vm : VmArea) : MapOp → Outcome (Option Nat × VmArea)
  | page addr type => mmapPhysicalPage irqEnabled vm addr type
  | area addr npages type => mmapPhysicalArea irqEnabled vm addr npages type

end MapOp

/-- What a call has returned, and the entries it has stored to. -/
structure Mapped where
  va : Nat
  op : MapOp
  slots : List Nat

/-- The reserved area and the calls so far, the last one first. -/
structure Window where
  vm : VmArea
  calls : List Mapped

/-- A call before interrupts are enabled that does not panic. -/
inductive MapStep (w : Window) (op : MapOp) : Window → Prop
  | intro {va : Nat} {vm : VmArea} {slots : List Nat} : op.run false w.vm = .ok (some va, vm) →
      vm.stores = slots ++ w.vm.stores → MapStep w op ⟨vm, ⟨va, op, slots⟩ :: w.calls⟩

/-! ## What the hardware reads -/

/-- First address of the window: slot 257 of the top level, slot 0 of the next two. -/
def windowStart : Nat := 0xFFFF808000000000

/-- Translation of an address of the window. -/
def VmArea.translate (vm : VmArea) (va : Nat) : Option Nat :=
  if windowStart ≤ va ∧ va < windowStart + VM_AREA_MAX * PGSIZE then
    let entry := vm.pt (va / PGSIZE % 512)
    if entry % 2 = 1 then some (entry / PGSIZE % 2 ^ 40 * PGSIZE + va % PGSIZE) else none
  else none

/-- The pages of the call are mapped to what they were returned for. -/
def Mapped.Intact (vm : VmArea) (c : Mapped) : Prop :=
  ∀ n < c.op.pages, c.op.addr + PGSIZE * n < 2 ^ 52 →
    vm.translate (c.va + PGSIZE * n) = some (c.op.addr + PGSIZE * n)

structure WindowSafe (w : Window) : Prop where
  inside : ∀ c ∈ w.calls, ∀ i ∈ c.slots, i < VM_AREA_MAX
  disjoint : w.calls.Pairwise fun c d => c.slots.Disjoint d.slots
  intact : ∀ c ∈ w.calls, c.Intact w.vm

/-- The part of it that no later call can mend. -/
def Window.Apart (w : Window) : Prop :=
  (∀ c ∈ w.calls, ∀ i ∈ c.slots, i < VM_AREA_MAX) ∧
    w.calls.Pairwise fun c d => c.slots.Disjoint d.slots

/-- Each call is made when only single pages have been asked for before, and there is an entry
left for each of its pages. -/
def SinglePages (ops : List MapOp) : Prop :=
  ∀ pre op, pre ++ [op] <+: ops →
    (∀ o ∈ pre, o.npages ≤ 1) ∧ pre.length + op.pages ≤ VM_AREA_MAX

/-! ## The stores of one call -/

/-- `count` entries from `first` on, for consecutive pages. -/
def VmArea.fill (vm : VmArea) (first start bits : Nat) : Nat → VmArea
  | 0 => vm
  | count + 1 =>
    (vm.fill first start bits count).store ((first + count) % 2 ^ 16)
      (entryOf (add64 start (mul64 PGSIZE count)) bits)

section Fill

variable (vm : VmArea) (first start bits : Nat)

theorem fill_size (count : Nat) : (vm.fill first start bits count).size = vm.size := by
  induction count with
  | zero => rfl
  | succ count ih => exact ih

/-- The indices of the stores, the last one first. -/
def slotsOf (first : Nat) : Nat → List Nat
  | 0 => []
  | count + 1 => (first + count) % 2 ^ 16 :: slotsOf first count

theorem mem_slotsOf {first count i : Nat} :
    i ∈ slotsOf first count ↔ ∃ k < count, i = (first + k) % 2 ^ 16 := by
  induction count with
  | zero => simp [slotsOf]
  | succ count ih =>
    simp only [slotsOf, List.mem_cons, ih]
    constructor
    · rintro (h | ⟨k, hk, h⟩)
      · exact ⟨count, Nat.lt_succ_self count, h⟩
      · exact ⟨k, by omega, h⟩
    · rintro ⟨k, hk, h⟩
      rcases Nat.eq_or_lt_of_le (Nat.le_of_lt_succ hk) with rfl | hlt
      · exact Or.inl h
      · exact Or.inr ⟨k, hlt, h⟩

/-- As long as the index does not wrap, the entries are an interval. -/
theorem mem_slotsOf_small {first count i : Nat} (hRoom : first + count ≤ VM_AREA_MAX) :
    i ∈ slotsOf first count ↔ first ≤ i ∧ i < first + count := by
  unfold VM_AREA_MAX at hRoom
  rw [mem_slotsOf]
  constructor
  · rintro ⟨k, hk, rfl⟩
    rw [Nat.mod_eq_of_lt (by omega)]
    omega
  · rintro ⟨hGe, hLt⟩
    refine ⟨i - first, by omega, ?_⟩
    rw [Nat.mod_eq_of_lt (by omega)]
    omega

theorem fill_stores (count : Nat) :
    (vm.fill first start bits count).stores = slotsOf first count ++ vm.stores := by
  induction count with
  | zero => rfl
  | succ count ih =>
    simp only [VmArea.fill, VmArea.store, slotsOf, List.cons_append, ih]

theorem fill_pt_other {count i : Nat} (hNot : i ∉ slotsOf first count) :
    (vm.fill first start bits count).pt i = vm.pt i := by
  induction count with
  | zero => rfl
  | succ count ih =>
    simp only [slotsOf, List.mem_cons, not_or] at hNot
    simp only [VmArea.fill, VmArea.store, if_neg hNot.1]
    exact ih hNot.2

theorem fill_pt {count k : Nat} (hRoom : first + count ≤ VM_AREA_MAX) (hk : k < count) :
    (vm.fill first start bits count).pt (first + k) =
      entryOf (add64 start (mul64 PGSIZE k)) bits := by
  unfold VM_AREA_MAX at hRoom
  induction count with
  | zero => omega
  | succ count ih =>
    simp only [VmArea.fill, VmArea.store]
    rw [Nat.mod_eq_of_lt (by omega)]
    rcases Nat.eq_or_lt_of_le (Nat.le_of_lt_succ hk) with rfl | hlt
    · rw [if_pos rfl]
    · rw [if_neg (by omega)]
      exact ih (by omega) hlt

end Fill

theorem mmapAreaLoop_ok {start type bits first : Nat} {vm : VmArea}
    (hType : memoryType type = .ok bits) : ∀ (count n : Nat) {map : VmmMap} {vm' : VmArea},
    map.pte = (first + (n - 1)) % 2 ^ 16 → 0 < n →
      mmapAreaLoop start type count n map (vm.fill first start bits n) = .ok vm' →
        vm' = vm.fill first start bits (n + count) := by
  intro count
  induction count with
  | zero =>
    intro n map vm' _ _ hOk
    exact (Except.ok.inj hOk).symm
  | succ count ih =>
    intro n map vm' hPte hPos hOk
    have hNext : (map.pte + 1) % 2 ^ 16 = (first + n) % 2 ^ 16 := by
      rw [hPte]
      omega
    unfold mmapAreaLoop at hOk
    simp only [vmmAssignMap_eq, hType, Except.map, ok_bind_eq, hNext] at hOk
    rw [show n + (count + 1) = n + 1 + count by omega]
    refine ih (n + 1) ?_ (Nat.succ_pos n) hOk
    rw [Nat.add_sub_cancel]

/-- What a call has done that returned: it took the next entry, and stored `npages` of them. -/
structure Takes (vm : VmArea) (addr npages va : Nat) (vm' : VmArea) : Prop where
  room : add64 vm.size npages ≤ VM_AREA_MAX
  address : va = windowStart + vm.size % 2 ^ 16 % 512 * PGSIZE + addr % PGSIZE
  table : ∃ bits, (bits = 0 ∨ bits = 8 ∨ bits = 152) ∧
    vm' = ({ vm with size := (vm.size + 1) % 2 ^ 32 } : VmArea).fill (vm.size % 2 ^ 16) addr bits
      (max npages 1)

theorem vmmFetchMap_ok {vm : VmArea} {npages : Nat} {r : Option (VmmMap × VmArea)}
    (hOk : vmmFetchMap false vm npages = .ok r) :
    add64 vm.size npages ≤ VM_AREA_MAX ∧
      r = some (⟨257, 0, 0, vm.size % 2 ^ 16⟩, { vm with size := (vm.size + 1) % 2 ^ 32 }) := by
  have hFirst : ((vm.size + 1) % 2 ^ 32 + 2 ^ 32 - 1) % 2 ^ 32 % 2 ^ 16 = vm.size % 2 ^ 16 := by
    omega
  unfold vmmFetchMap at hOk
  rw [if_neg Bool.false_ne_true] at hOk
  split at hOk
  · cases hOk
  · next hRoom =>
    dsimp only at hOk
    rw [hFirst] at hOk
    exact ⟨Nat.le_of_not_lt hRoom, (Except.ok.inj hOk).symm⟩

/-- The address of the first page of a call. -/
theorem add64_firstPage {addr : Nat} (hAddr : addr < 2 ^ 52) :
    add64 addr (mul64 PGSIZE 0) = addr := by
  unfold mul64
  rw [Nat.mul_zero, Nat.zero_mod]
  exact add64_eq (by unfold wordSize; omega)

/-- The first store of a call. -/
theorem assign_first {vm : VmArea} {addr type : Nat} {r : Option Nat × VmArea}
    (hAddr : addr < 2 ^ 52) (hOk : vmmAssignMap { vm with size := (vm.size + 1) % 2 ^ 32 }
      ⟨257, 0, 0, vm.size % 2 ^ 16⟩ addr type = .ok r) :
    ∃ bits, memoryType type = .ok bits ∧
      r.1 = some (windowStart + vm.size % 2 ^ 16 % 512 * PGSIZE + addr % PGSIZE) ∧
      r.2 = ({ vm with size := (vm.size + 1) % 2 ^ 32 } : VmArea).fill (vm.size % 2 ^ 16) addr
        bits 1 := by
  rw [vmmAssignMap_eq] at hOk
  cases hType : memoryType type with
  | error e =>
    rw [hType] at hOk
    cases hOk
  | ok bits =>
    rw [hType] at hOk
    cases hOk
    have hStart := add64_firstPage hAddr
    have hPte : (vm.size % 2 ^ 16 + 0) % 2 ^ 16 = vm.size % 2 ^ 16 := by omega
    refine ⟨bits, rfl, ?_, ?_⟩
    · rw [vaddr_window, Nat.mod_mod]
      rfl
    · simp only [VmArea.fill, hStart, hPte]

theorem mmapPhysicalPage_ok {vm vm' : VmArea} {page type va : Nat} (hAddr : page < 2 ^ 52)
    (hOk : mmapPhysicalPage false vm page type = .ok (some va, vm')) :
    Takes vm page 1 va vm' := by
  obtain ⟨r, hFetch, hOk⟩ := bind_eq_ok.mp hOk
  obtain ⟨hRoom, rfl⟩ := vmmFetchMap_ok hFetch
  obtain ⟨bits, hType, hVa, hTable⟩ := assign_first hAddr hOk
  exact ⟨hRoom, Option.some.inj hVa, bits, memoryType_bits hType, hTable⟩

theorem mmapPhysicalArea_ok {vm vm' : VmArea} {start npages type va : Nat}
    (hAddr : start < 2 ^ 52)
    (hOk : mmapPhysicalArea false vm start npages type = .ok (some va, vm')) :
    Takes vm start npages va vm' := by
  unfold mmapPhysicalArea at hOk
  split at hOk
  · next hOne =>
    rw [hOne]
    exact mmapPhysicalPage_ok hAddr hOk
  · obtain ⟨r, hFetch, hOk⟩ := bind_eq_ok.mp hOk
    obtain ⟨hRoom, rfl⟩ := vmmFetchMap_ok hFetch
    obtain ⟨⟨ret, vm1⟩, hAssign, hOk⟩ := bind_eq_ok.mp hOk
    obtain ⟨vm2, hLoop, hOk⟩ := bind_eq_ok.mp hOk
    obtain ⟨bits, hType, hVa, hTable⟩ := assign_first hAddr hAssign
    cases hOk
    dsimp only at hVa hTable
    rw [hTable] at hLoop
    have hAll := mmapAreaLoop_ok hType (npages - 1) 1 (by dsimp only; omega) Nat.one_pos hLoop
    refine ⟨hRoom, Option.some.inj hVa, bits, memoryType_bits hType, ?_⟩
    rw [hAll, show 1 + (npages - 1) = max npages 1 by omega]

theorem MapOp.run_ok {op : MapOp} {vm vm' : VmArea} {va : Nat} (hAddr : op.addr < 2 ^ 52)
    (hOk : op.run false vm = .ok (some va, vm')) :
    Takes vm op.addr op.npages va vm' := by
  cases op with
  | page addr type => exact mmapPhysicalPage_ok hAddr hOk
  | area addr npages type => exact mmapPhysicalArea_ok hAddr hOk

/-! ## Runs -/

/-- What every run keeps that meets the condition: the calls have taken one entry each, and
only the last may have stored to more. -/
structure Ordered (ops : List MapOp) (w : Window) : Prop where
  size : w.vm.size = ops.length
  calls : ∀ c ∈ w.calls, c.op ∈ ops
  issued : ∀ op ∈ ops, ∃ c ∈ w.calls, c.op = op
  below : ∀ c ∈ w.calls, ∀ i ∈ c.slots, i < ops.length ∨ 1 < c.op.npages
  inside : ∀ c ∈ w.calls, ∀ i ∈ c.slots, i < VM_AREA_MAX
  /-- a call for several pages has stored to the next free entry -/
  past : ∀ c ∈ w.calls, 1 < c.op.npages → ops.length ∈ c.slots
  disjoint : w.calls.Pairwise fun c d => c.slots.Disjoint d.slots
  intact : ∀ c ∈ w.calls, c.Intact w.vm ∧ ∃ i, i + c.op.pages ≤ VM_AREA_MAX ∧
    c.va = windowStart + i * PGSIZE + c.op.addr % PGSIZE ∧ c.slots = slotsOf i c.op.pages

theorem singlePages_snoc {ops : List MapOp} {op : MapOp} :
    SinglePages (ops ++ [op]) ↔
      SinglePages ops ∧ (∀ o ∈ ops, o.npages ≤ 1) ∧ ops.length + op.pages ≤ VM_AREA_MAX := by
  constructor
  · intro h
    exact ⟨fun pre o hPre => h pre o (hPre.trans (List.prefix_append ops [op])),
      h ops op (List.prefix_refl _)⟩
  · rintro ⟨hInit, hLast⟩ pre o hPre
    rcases List.prefix_concat_iff.mp hPre with hEq | hPre
    · obtain ⟨rfl, hTail⟩ := List.append_inj' hEq rfl
      obtain rfl := List.singleton_inj.mp hTail
      exact hLast
    · exact hInit pre o hPre

theorem SinglePages.length_le {ops : List MapOp} (h : SinglePages ops) :
    ops.length ≤ VM_AREA_MAX := by
  induction ops using List.reverseRecOn with
  | nil => exact Nat.zero_le _
  | append_singleton ops op _ =>
    have hLast := (singlePages_snoc.mp h).2.2
    unfold MapOp.pages at hLast
    rw [List.length_append, List.length_singleton]
    omega

/-- The pages of a call are mapped as soon as it has returned. -/
theorem Takes.intact {vm vm' : VmArea} {op : MapOp} {va : Nat} (hAddr : op.addr < 2 ^ 52)
    (hRoom : vm.size + op.pages ≤ VM_AREA_MAX) (h : Takes vm op.addr op.npages va vm') :
    Mapped.Intact vm' ⟨va, op, slotsOf vm.size op.pages⟩ := by
  have hSmall : vm.size < 2 ^ 9 := by
    unfold MapOp.pages VM_AREA_MAX at hRoom
    omega
  obtain ⟨-, hVa, bits, hBits, hTable⟩ := h
  rw [show vm.size % 2 ^ 16 % 512 = vm.size by omega] at hVa
  rw [Nat.mod_eq_of_lt (by omega : vm.size < 2 ^ 16)] at hTable
  change vm' = VmArea.fill _ vm.size op.addr bits op.pages at hTable
  intro n hn hReal
  dsimp only at hn hReal ⊢
  have hEntry := fill_pt { vm with size := (vm.size + 1) % 2 ^ 32 } vm.size op.addr bits hRoom hn
  rw [← hTable] at hEntry
  have hNext : add64 op.addr (mul64 PGSIZE n) = op.addr + PGSIZE * n := by
    unfold PGSIZE at hReal ⊢
    rw [mul64_eq (by unfold wordSize; omega), add64_eq (by unfold wordSize; omega)]
  rw [hNext] at hEntry
  obtain ⟨hPresent, hBase⟩ := entryOf_present (op.addr + PGSIZE * n) hBits
  unfold VM_AREA_MAX at hRoom
  have hIndex : (va + PGSIZE * n) / PGSIZE % 512 = vm.size + n := by
    rw [hVa]
    unfold windowStart PGSIZE
    omega
  unfold VmArea.translate
  rw [hIndex, hEntry, if_pos, if_pos hPresent, hBase]
  · rw [hVa]
    unfold windowStart PGSIZE at *
    congr 1
    omega
  · rw [hVa]
    unfold windowStart VM_AREA_MAX PGSIZE
    omega

/-- Stores to other entries leave the pages of a call mapped. -/
theorem Mapped.Intact.congr {c : Mapped} {vm vm' : VmArea} {i : Nat} (h : c.Intact vm)
    (hRoom : i + c.op.pages ≤ VM_AREA_MAX)
    (hVa : c.va = windowStart + i * PGSIZE + c.op.addr % PGSIZE)
    (hSame : ∀ j, i ≤ j → j < i + c.op.pages → vm'.pt j = vm.pt j) : c.Intact vm' := by
  intro n hn hReal
  have hOld := h n hn hReal
  unfold VM_AREA_MAX at hRoom
  have hIndex : (c.va + PGSIZE * n) / PGSIZE % 512 = i + n := by
    rw [hVa]
    unfold windowStart PGSIZE
    omega
  unfold VmArea.translate at hOld ⊢
  rw [hIndex] at hOld ⊢
  rw [hSame (i + n) (by omega) (by omega)]
  exact hOld

section Step

variable {ops : List MapOp} {op : MapOp} {w w' : Window}

/-- The stores of the next call. -/
theorem MapStep.takes (hAddr : op.addr < 2 ^ 52) (hStep : MapStep w op w') :
    ∃ va vm', w' = ⟨vm', ⟨va, op, slotsOf (w.vm.size % 2 ^ 16) op.pages⟩ :: w.calls⟩ ∧
      Takes w.vm op.addr op.npages va vm' := by
  obtain ⟨hOk, hStores⟩ := hStep
  have hTakes := MapOp.run_ok hAddr hOk
  obtain ⟨-, -, bits, -, hTable⟩ := id hTakes
  refine ⟨_, _, ?_, hTakes⟩
  rw [hTable, fill_stores] at hStores
  rw [← List.append_cancel_right hStores]
  rfl

theorem Ordered.step (h : Ordered ops w) (hAddr : op.addr < 2 ^ 52)
    (hSingle : ∀ o ∈ ops, o.npages ≤ 1) (hRoom : ops.length + op.pages ≤ VM_AREA_MAX)
    (hStep : MapStep w op w') : Ordered (ops ++ [op]) w' := by
  obtain ⟨va, vm', rfl, hTakes⟩ := hStep.takes hAddr
  have hLength : ops.length < VM_AREA_MAX := by
    unfold MapOp.pages at hRoom
    omega
  have hFirst : w.vm.size % 2 ^ 16 = ops.length := by
    rw [h.size]
    exact Nat.mod_eq_of_lt (by unfold VM_AREA_MAX at hLength; omega)
  rw [hFirst]
  have hOld : ∀ c ∈ w.calls, ∀ i ∈ c.slots, i < ops.length := by
    intro c hc i hi
    have hOne := hSingle c.op (h.calls c hc)
    rcases h.below c hc i hi with hlt | hMore
    · exact hlt
    · omega
  have hNew : ∀ i, i ∈ slotsOf ops.length op.pages ↔ ops.length ≤ i ∧ i < ops.length + op.pages :=
    fun i => mem_slotsOf_small hRoom
  rw [← h.size] at hRoom
  have hIntact := hTakes.intact hAddr hRoom
  rw [h.size] at hRoom hIntact
  obtain ⟨-, hVa, bits, -, hTable⟩ := hTakes
  rw [hFirst] at hVa hTable
  have hSize : vm'.size = ops.length + 1 := by
    rw [hTable, fill_size, h.size]
    exact Nat.mod_eq_of_lt (by unfold VM_AREA_MAX at hLength; omega)
  have hTail : (ops ++ [op]).length = ops.length + 1 := by simp
  refine ⟨hTail ▸ hSize, ?_, ?_, ?_, ?_, ?_, ?_, ?_⟩
  · intro c hc
    rcases List.mem_cons.mp hc with rfl | hc
    · simp
    · exact List.mem_append_left _ (h.calls c hc)
  · intro o ho
    rcases List.mem_append.mp ho with ho | ho
    · obtain ⟨c, hc, hEq⟩ := h.issued o ho
      exact ⟨c, List.mem_cons_of_mem _ hc, hEq⟩
    · exact ⟨_, List.mem_cons_self, (List.mem_singleton.mp ho).symm⟩
  · intro c hc i hi
    rw [hTail]
    rcases List.mem_cons.mp hc with rfl | hc
    · have := (hNew i).mp hi
      unfold MapOp.pages at this
      dsimp only
      omega
    · have := hOld c hc i hi
      omega
  · intro c hc i hi
    rcases List.mem_cons.mp hc with rfl | hc
    · have := (hNew i).mp hi
      omega
    · exact h.inside c hc i hi
  · intro c hc hMore
    rw [hTail]
    rcases List.mem_cons.mp hc with rfl | hc
    · apply (hNew _).mpr
      dsimp only at hMore
      unfold MapOp.pages
      omega
    · have := hSingle c.op (h.calls c hc)
      omega
  · refine List.pairwise_cons.mpr ⟨?_, h.disjoint⟩
    intro c hc i hi hi'
    have := (hNew i).mp hi
    have := hOld c hc i hi'
    omega
  · intro c hc
    rcases List.mem_cons.mp hc with rfl | hc
    · refine ⟨hIntact, ops.length, hRoom, ?_, rfl⟩
      rw [hVa, Nat.mod_eq_of_lt (by unfold VM_AREA_MAX at hLength; omega)]
    · obtain ⟨hKeep, i, hFits, hAt, hSlots⟩ := h.intact c hc
      refine ⟨hKeep.congr hFits hAt ?_, i, hFits, hAt, hSlots⟩
      intro j hGe hLt
      have hMem : j ∈ c.slots := by
        rw [hSlots]
        exact (mem_slotsOf_small hFits).mpr ⟨hGe, hLt⟩
      have hFree : j ∉ slotsOf ops.length op.pages := by
        rw [hNew]
        have := hOld c hc j hMem
        omega
      rw [hTable]
      exact fill_pt_other _ _ _ _ hFree

/-- A call against the condition stores past the table or to a taken entry. -/
theorem Ordered.breaks (h : Ordered ops w) (hAddr : op.addr < 2 ^ 52)
    (hLength : ops.length ≤ VM_AREA_MAX)
    (hNot : ¬ ((∀ o ∈ ops, o.npages ≤ 1) ∧ ops.length + op.pages ≤ VM_AREA_MAX))
    (hStep : MapStep w op w') : ¬ w'.Apart := by
  obtain ⟨va, vm', rfl, hTakes⟩ := hStep.takes hAddr
  have hFirst : w.vm.size % 2 ^ 16 = ops.length := by
    rw [h.size]
    exact Nat.mod_eq_of_lt (by unfold VM_AREA_MAX at hLength; omega)
  rw [hFirst]
  rintro ⟨hInside, hDisjoint⟩
  by_cases hSingle : ∀ o ∈ ops, o.npages ≤ 1
  · have hOver : VM_AREA_MAX < ops.length + op.pages := by
      by_contra hFits
      exact hNot ⟨hSingle, Nat.le_of_not_lt hFits⟩
    have hPast : VM_AREA_MAX ∈ slotsOf ops.length op.pages := by
      refine mem_slotsOf.mpr ⟨VM_AREA_MAX - ops.length, by omega, ?_⟩
      rw [Nat.add_sub_cancel' hLength]
      rfl
    exact Nat.lt_irrefl _ (hInside _ List.mem_cons_self _ hPast)
  · simp only [not_forall, Nat.not_le] at hSingle
    obtain ⟨o, ho, hMore⟩ := hSingle
    obtain ⟨c, hc, rfl⟩ := h.issued o ho
    have hPast := h.past c hc hMore
    have hTaken : ops.length ∈ slotsOf ops.length op.pages := by
      refine mem_slotsOf.mpr ⟨0, ?_, ?_⟩
      · unfold MapOp.pages
        omega
      · unfold VM_AREA_MAX at hLength
        omega
    exact (List.pairwise_cons.mp hDisjoint).1 c hc hTaken hPast

end Step

theorem Window.Apart.before {w w' : Window} {op : MapOp} (hStep : MapStep w op w')
    (h : w'.Apart) : w.Apart := by
  obtain ⟨-, -⟩ := hStep
  exact ⟨fun c hc => h.1 c (List.mem_cons_of_mem _ hc), (List.pairwise_cons.mp h.2).2⟩

/-- Every run is ordered or has gone wrong for good. -/
theorem run_ordered {pt : Nat → Nat} {ops : List MapOp} {w : Window}
    (hAddr : ∀ op ∈ ops, op.addr < 2 ^ 52) (hRun : Run MapStep ⟨vmmInit pt, []⟩ ops w) :
    (SinglePages ops → Ordered ops w) ∧ (w.Apart → SinglePages ops) := by
  induction hRun with
  | nil =>
    refine ⟨fun _ => ?_, fun _ pre op hPre => ?_⟩
    · constructor <;> simp [vmmInit]
    · simp at hPre
  | @snoc ops w op w' hRun hStep ih =>
    obtain ⟨hOrdered, hApart⟩ := ih fun o ho => hAddr o (List.mem_append_left _ ho)
    have hOp : op.addr < 2 ^ 52 := hAddr op (by simp)
    rw [singlePages_snoc]
    constructor
    · rintro ⟨hInit, hSingle, hRoom⟩
      exact (hOrdered hInit).step hOp hSingle hRoom hStep
    · intro h
      have hInit := hApart (h.before hStep)
      refine ⟨hInit, ?_⟩
      by_contra hNot
      exact (hOrdered hInit).breaks hOp hInit.length_le hNot hStep h

theorem windowSafe_iff {pt : Nat → Nat} {ops : List MapOp} {w : Window}
    (hAddr : ∀ op ∈ ops, op.addr < 2 ^ 52) (hRun : Run MapStep ⟨vmmInit pt, []⟩ ops w) :
    WindowSafe w ↔ SinglePages ops := by
  obtain ⟨hOrdered, hApart⟩ := run_ordered hAddr hRun
  constructor
  · intro h
    exact hApart ⟨h.inside, h.disjoint⟩
  · intro h
    have hw := hOrdered h
    exact ⟨hw.inside, hw.disjoint, fun c hc => (hw.intact c hc).1⟩

/-! ## Concrete calls -/

/-- Calls one after the other, as long as none panics. -/
def Window.perform (w : Window) : List MapOp → Option Window
  | [] => some w
  | op :: ops =>
    match op.run false w.vm with
    | .ok (some va, vm) =>
      Window.perform
        ⟨vm, ⟨va, op, vm.stores.take (vm.stores.length - w.vm.stores.length)⟩ :: w.calls⟩ ops
    | _ => none

theorem Window.perform_run {w w' : Window} {ops : List MapOp} (hAddr : ∀ op ∈ ops, op.addr < 2 ^ 52)
    (h : w.perform ops = some w') : Run MapStep w ops w' := by
  induction ops generalizing w with
  | nil =>
    cases h
    exact .nil
  | cons op ops ih =>
    unfold Window.perform at h
    split at h
    · next va vm hOk =>
      obtain ⟨-, -, bits, -, hTable⟩ := MapOp.run_ok (hAddr op (by simp)) hOk
      have hStores : vm.stores =
          vm.stores.take (vm.stores.length - w.vm.stores.length) ++ w.vm.stores := by
        rw [hTable, fill_stores]
        simp
      exact (Run.one (.intro hOk hStores)).trans
        (ih (fun o ho => hAddr o (List.mem_cons_of_mem _ ho)) h)
    · cases h

/-- The local APIC and a framebuffer of four pages. -/
def goodCalls : List MapOp := [.page 0xFEE00000 0, .area 0xFD000000 4 0]

/-- The framebuffer first. -/
def badCalls : List MapOp := [.area 0xFD000000 4 0, .page 0xFEE00000 0]

theorem windowSafe_sample : ∃ w, Run MapStep ⟨vmmInit fun _ => 0, []⟩ goodCalls w ∧
    w.calls.length = 2 ∧ WindowSafe w := by
  cases h : Window.perform ⟨vmmInit fun _ => 0, []⟩ goodCalls with
  | none => exact absurd (congrArg Option.isSome h) (by decide +kernel)
  | some w =>
    have hAddr : ∀ op ∈ goodCalls, op.addr < 2 ^ 52 := by decide
    have hRun := Window.perform_run hAddr h
    have hSingle : SinglePages goodCalls := by
      change SinglePages ([] ++ [_] ++ [_])
      apply singlePages_snoc.mpr
      refine ⟨singlePages_snoc.mpr ⟨?_, by simp, by decide⟩, by decide, by decide⟩
      intro pre op hPre
      simp at hPre
    refine ⟨w, hRun, ?_, (windowSafe_iff hAddr hRun).mpr hSingle⟩
    have hLength :
        (Window.perform ⟨vmmInit fun _ => 0, []⟩ goodCalls).map (·.calls.length) = some 2 := by
      decide +kernel
    rw [h] at hLength
    exact Option.some.inj hLength

/-- The second call overwrites the second page of the area. -/
theorem area_is_overwritten : ∃ w, Run MapStep ⟨vmmInit fun _ => 0, []⟩ badCalls w ∧
    w.calls.map Mapped.slots = [[1], [3, 2, 1, 0]] ∧ ¬ WindowSafe w := by
  cases hPerform : Window.perform ⟨vmmInit fun _ => 0, []⟩ badCalls with
  | none => exact absurd (congrArg Option.isSome hPerform) (by decide +kernel)
  | some w =>
    have hAddr : ∀ op ∈ badCalls, op.addr < 2 ^ 52 := by decide
    have hSlots : (Window.perform ⟨vmmInit fun _ => 0, []⟩ badCalls).map
        (·.calls.map Mapped.slots) = some [[1], [3, 2, 1, 0]] := by decide +kernel
    rw [hPerform] at hSlots
    have hAre : w.calls.map Mapped.slots = [[1], [3, 2, 1, 0]] := Option.some.inj hSlots
    refine ⟨w, Window.perform_run hAddr hPerform, hAre, fun hSafe => ?_⟩
    have hDisjoint : (w.calls.map Mapped.slots).Pairwise List.Disjoint :=
      List.pairwise_map.mpr hSafe.disjoint
    rw [hAre] at hDisjoint
    simp [List.Disjoint] at hDisjoint

end LunarOS
