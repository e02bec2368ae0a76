import LunarOS.Boot.Stores
import LunarOS.Logic.Tlb
import LunarOS.Vmm.Space

/-!
# The TLB

The processor may look an address up and keep the result at any moment, also between two stores
of a call. `MapOp.effects` is a call with its stores and its `invlpg`s in program order, and
`bootCommands` the stores from `_start64` to `direct_map_everything` with the reloads of `%cr3`.
`tlb_coherent` says that whatever the processor keeps, and whatever it kept before, no call
leaves a wrong result behind, and that inside a call only one page is ever open: the one whose
`invlpg` comes next.
-/

namespace LunarOS

open Logic

/-! ## Calls with their effects -/

inductive Effect
  | store (index entry : Nat)
  | invlpg (va : Nat)

/-- `vmm_assign_map` stores the entry, and invalidates the page of the address it returns. -/
def assigned (map : VmmMap) : Option Nat × VmArea → List Effect × VmArea
  | (none, vm) => ([], vm)
  | (some va, vm) => ([.store map.pte (vm.pt map.pte), .invlpg va], vm)

def assignEffects (vm : VmArea) (map : VmmMap) (addr type : Nat) :
    Outcome (List Effect × VmArea) := (vmmAssignMap vm map addr type).map (assigned map)

def mmapPageEffects (irqEnabled : Bool) (vm : VmArea) (page type : Nat) :
    Outcome (List Effect × VmArea) := do
  match ← vmmFetchMap irqEnabled vm 1 with
  | none => pure ([], vm)
  | some (map, vm) => assignEffects vm map page type

def mmapAreaLoopEffects (start type : Nat) :
    Nat → Nat → VmmMap → VmArea → Outcome (List Effect × VmArea)
  | 0, _, _, vm => .ok ([], vm)
  | count + 1, n, map, vm => do
    let next := add64 start (mul64 PGSIZE n)
    let map := { map with pte := (map.pte + 1) % 2 ^ 16 }
    let (es, vm) ← assignEffects vm map next type
    let (rest, vm) ← mmapAreaLoopEffects start type count (n + 1) map vm
    pure (es ++ rest, vm)

def mmapAreaEffects (irqEnabled : Bool) (vm : VmArea) (start npages type : Nat) :
    Outcome (List Effect × VmArea) :=
  if npages = 1 then mmapPageEffects irqEnabled vm start type
  else do
    match ← vmmFetchMap irqEnabled vm npages with
    | none => pure ([], vm)
    | some (map, vm) =>
      let (es, vm) ← assignEffects vm map start type
      let (rest, vm) ← mmapAreaLoopEffects start type (npages - 1) 1 map vm
      pure (es ++ rest, vm)

def MapOp.effects (irqEnabled : Bool) (vm : VmArea) : MapOp → Outcome (List Effect × VmArea)
  | page addr type => mmapPageEffects irqEnabled vm addr type
  | area addr npages type => mmapAreaEffects irqEnabled vm addr npages type

/-! ### The effects are those of the call -/

/-- Ends and states, without what is returned. -/
def endOf {α : Type} (x : Outcome (α × VmArea)) : Outcome VmArea := x.map Prod.snd

section

variable (vm : VmArea)

theorem assigned_snd (map : VmmMap) (r : Option Nat × VmArea) : (assigned map r).2 = r.2 := by
  obtain ⟨va, vm⟩ := r
  cases va with
  | none => rfl
  | some va => rfl

theorem assignEffects_end (map : VmmMap) (addr type : Nat) :
    endOf (assignEffects vm map addr type) = endOf (vmmAssignMap vm map addr type) := by
  unfold assignEffects endOf
  cases vmmAssignMap vm map addr type with
  | error e => rfl
  | ok r => exact congrArg Except.ok (assigned_snd map r)

theorem mmapPageEffects_end (irqEnabled : Bool) (page type : Nat) :
    endOf (mmapPageEffects irqEnabled vm page type) =
      endOf (mmapPhysicalPage irqEnabled vm page type) := by
  unfold mmapPageEffects mmapPhysicalPage
  cases vmmFetchMap irqEnabled vm 1 with
  | error e => rfl
  | ok r =>
    cases r with
    | none => rfl
    | some r => exact assignEffects_end r.2 r.1 page type

theorem mmapAreaLoopEffects_end (start type count n : Nat) (map : VmmMap) :
    endOf (mmapAreaLoopEffects start type count n map vm) =
      mmapAreaLoop start type count n map vm := by
  induction count generalizing n map vm with
  | zero => rfl
  | succ count ih =>
    unfold mmapAreaLoopEffects mmapAreaLoop assignEffects
    dsimp only
    cases vmmAssignMap vm { map with pte := (map.pte + 1) % 2 ^ 16 }
      (add64 start (mul64 PGSIZE n)) type with
    | error e => rfl
    | ok r =>
      have hRest := ih r.2 (n + 1) { map with pte := (map.pte + 1) % 2 ^ 16 }
      rw [ok_bind_eq, ← hRest, Except.map, ok_bind_eq, assigned_snd]
      cases mmapAreaLoopEffects start type count (n + 1) _ r.2 with
      | error e => rfl
      | ok rest => rfl

theorem mmapAreaEffects_end (irqEnabled : Bool) (start npages type : Nat) :
    endOf (mmapAreaEffects irqEnabled vm start npages type) =
      endOf (mmapPhysicalArea irqEnabled vm start npages type) := by
  unfold mmapAreaEffects mmapPhysicalArea
  by_cases hOne : npages = 1
  · rw [if_pos hOne, if_pos hOne]
    exact mmapPageEffects_end vm irqEnabled start type
  · rw [if_neg hOne, if_neg hOne]
    cases vmmFetchMap irqEnabled vm npages with
    | error e => rfl
    | ok r =>
      cases r with
      | none => rfl
      | some r =>
        obtain ⟨map, vm⟩ := r
        rw [ok_bind_eq, ok_bind_eq]
        dsimp only [assignEffects]
        cases vmmAssignMap vm map start type with
        | error e => rfl
        | ok r =>
          have hRest := mmapAreaLoopEffects_end r.2 start type (npages - 1) 1 map
          rw [ok_bind_eq, ← hRest, Except.map, ok_bind_eq, assigned_snd]
          cases mmapAreaLoopEffects start type (npages - 1) 1 map r.2 with
          | error e => rfl
          | ok rest => rfl

/-- Every call ends as its effects say, with the same state. -/
theorem MapOp.effects_end (irqEnabled : Bool) (op : MapOp) :
    endOf (op.effects irqEnabled vm) = endOf (op.run irqEnabled vm) := by
  cases op with
  | page addr type => exact mmapPageEffects_end vm irqEnabled addr type
  | area addr npages type => exact mmapAreaEffects_end vm irqEnabled addr npages type

end

/-! ### The effects of a call that returns -/

/-- What a call does for its page `k`. -/
def pageEffects (first start bits k : Nat) : List Effect :=
  [.store ((first + k) % 2 ^ 16) (entryOf (add64 start (mul64 PGSIZE k)) bits),
    .invlpg ((VmmMap.mk 257 0 0 ((first + k) % 2 ^ 16)).vaddr
      (add64 start (mul64 PGSIZE k) % PGSIZE))]

theorem assignEffects_eq (vm : VmArea) (map : VmmMap) (addr type : Nat) :
    assignEffects vm map addr type = (memoryType type).map fun bits =>
      ([.store map.pte (entryOf addr bits), .invlpg (map.vaddr (addr % PGSIZE))],
        vm.store map.pte (entryOf addr bits)) := by
  unfold assignEffects
  rw [vmmAssignMap_eq]
  cases memoryType type with
  | error e => rfl
  | ok bits =>
    dsimp only [Except.map, assigned, VmArea.store]
    rw [if_pos rfl]

section

variable {vm vm' : VmArea} {start type bits first : Nat} {es : List Effect}

theorem mmapAreaLoopEffects_ok (hType : memoryType type = .ok bits) :
    ∀ (count n : Nat) {es : List Effect} {vm' : VmArea}, 0 < n →
      mmapAreaLoopEffects start type count n ⟨257, 0, 0, (first + (n - 1)) % 2 ^ 16⟩
        (vm.fill first start bits n) = .ok (es, vm') →
      es = (List.range' n count).flatMap (pageEffects first start bits) ∧
        vm' = vm.fill first start bits (n + count) := by
  intro count
  induction count with
  | zero =>
    intro n es vm' _ hOk
    obtain ⟨rfl, rfl⟩ := Prod.mk.inj (Except.ok.inj hOk)
    exact ⟨rfl, rfl⟩
  | succ count ih =>
    intro n es vm' hPos hOk
    have hNext : ((first + (n - 1)) % 2 ^ 16 + 1) % 2 ^ 16 = (first + n) % 2 ^ 16 := by omega
    unfold mmapAreaLoopEffects at hOk
    dsimp only at hOk
    rw [hNext, assignEffects_eq, hType] at hOk
    dsimp only [Except.map] at hOk
    rw [ok_bind_eq] at hOk
    obtain ⟨⟨rest, last⟩, hRest, hOk⟩ := bind_eq_ok.mp hOk
    obtain ⟨rfl, rfl⟩ := Prod.mk.inj (Except.ok.inj hOk)
    have hTail := ih (n + 1) (Nat.succ_pos n) (by rwa [Nat.add_sub_cancel])
    rw [show n + (count + 1) = n + 1 + count by omega, List.range'_succ, List.flatMap_cons]
    exact ⟨congrArg (pageEffects first start bits n ++ ·) hTail.1, hTail.2⟩

/-- The first page, from the entry that `vmm_fetch_map` has taken. -/
theorem assignEffects_first {addr : Nat} (hAddr : addr < 2 ^ 52)
    {r : List Effect × VmArea} (hOk : assignEffects vm ⟨257, 0, 0, first % 2 ^ 16⟩ addr type = .ok r) :
    ∃ bits, memoryType type = .ok bits ∧ r.1 = pageEffects first addr bits 0 ∧
      r.2 = vm.fill first addr bits 1 := by
  rw [assignEffects_eq] at hOk
  cases hType : memoryType type with
  | error e =>
    rw [hType] at hOk
    cases hOk
  | ok bits =>
    rw [hType] at hOk
    have hStart := add64_firstPage hAddr
    refine ⟨bits, rfl, ?_, ?_⟩
    · rw [← Except.ok.inj hOk]
      unfold pageEffects
      rw [hStart, Nat.add_zero]
    · rw [← Except.ok.inj hOk]
      unfold VmArea.fill
      rw [hStart, Nat.add_zero]
      rfl

/-- What is fetched when some entries are left. -/
theorem vmmFetchMap_fits {npages : Nat} {r : Option (VmmMap × VmArea)}
    (hSize : vm.size ≤ VM_AREA_MAX) (hPages : npages ≤ 2 ^ 40)
    (hOk : vmmFetchMap false vm npages = .ok r) :
    vm.size + npages ≤ VM_AREA_MAX ∧
      r = some (⟨257, 0, 0, vm.size % 2 ^ 16⟩, { vm with size := (vm.size + 1) % 2 ^ 32 }) := by
  obtain ⟨hRoom, hFetched⟩ := vmmFetchMap_ok hOk
  unfold VM_AREA_MAX at hSize
  rw [add64_eq (by unfold wordSize; omega)] at hRoom
  exact ⟨hRoom, hFetched⟩

/-- A call takes one entry and stores to one for each page. -/
structure TakesEffects (vm : VmArea) (op : MapOp) (es : List Effect) (vm' : VmArea) : Prop where
  room : vm.size + op.npages ≤ VM_AREA_MAX
  effects : ∃ bits, (bits = 0 ∨ bits = 8 ∨ bits = 152) ∧
    es = (List.range' 0 op.npages).flatMap (pageEffects vm.size op.addr bits) ∧
      vm' = ({ vm with size := (vm.size + 1) % 2 ^ 32 } : VmArea).fill vm.size op.addr bits op.npages

theorem mmapPageEffects_ok {page : Nat} (hAddr : page < 2 ^ 52) (hSize : vm.size ≤ VM_AREA_MAX)
    (hOk : mmapPageEffects false vm page type = .ok (es, vm')) :
    TakesEffects vm (.page page type) es vm' := by
  obtain ⟨r, hFetch, hOk⟩ := bind_eq_ok.mp hOk
  obtain ⟨hRoom, rfl⟩ := vmmFetchMap_fits hSize (by decide) hFetch
  obtain ⟨bits, hType, hEffects, hTable⟩ := assignEffects_first hAddr hOk
  refine ⟨hRoom, bits, memoryType_bits hType, ?_, hTable⟩
  exact hEffects.trans (List.append_nil _).symm

theorem mmapAreaEffects_ok {npages : Nat} (hPhysical : (MapOp.area start npages type).Physical)
    (hSize : vm.size ≤ VM_AREA_MAX)
    (hOk : mmapAreaEffects false vm start npages type = .ok (es, vm')) :
    TakesEffects vm (.area start npages type) es vm' := by
  have hAddr := hPhysical.addr_lt
  obtain ⟨hPos, hReal⟩ := hPhysical
  dsimp only [MapOp.npages, MapOp.addr] at hPos hReal hAddr
  unfold PGSIZE at hReal
  unfold mmapAreaEffects at hOk
  split at hOk
  · next hOne =>
    subst hOne
    obtain ⟨hRoom, hEffects⟩ := mmapPageEffects_ok hAddr hSize hOk
    exact ⟨hRoom, hEffects⟩
  · obtain ⟨r, hFetch, hOk⟩ := bind_eq_ok.mp hOk
    obtain ⟨hRoom, rfl⟩ := vmmFetchMap_fits hSize (by omega) hFetch
    obtain ⟨⟨firstEffects, vm1⟩, hAssign, hOk⟩ := bind_eq_ok.mp hOk
    obtain ⟨⟨rest, vm2⟩, hLoop, hOk⟩ := bind_eq_ok.mp hOk
    obtain ⟨bits, hType, hEffects, hTable⟩ := assignEffects_first hAddr hAssign
    dsimp only at hEffects hTable hOk
    obtain ⟨rfl, rfl⟩ := Prod.mk.inj (Except.ok.inj hOk)
    rw [hTable] at hLoop
    have hAll := mmapAreaLoopEffects_ok hType (npages - 1) 1 Nat.one_pos hLoop
    have hCount : npages = npages - 1 + 1 := by omega
    refine ⟨hRoom, bits, memoryType_bits hType, ?_, ?_⟩
    · dsimp only [MapOp.npages, MapOp.addr]
      rw [hCount, List.range'_succ, List.flatMap_cons, hEffects, hAll.1]
    · dsimp only [MapOp.npages, MapOp.addr]
      rw [hAll.2, Nat.add_comm 1, ← hCount]

theorem MapOp.effects_ok {op : MapOp} (hPhysical : op.Physical) (hSize : vm.size ≤ VM_AREA_MAX)
    (hOk : op.effects false vm = .ok (es, vm')) : TakesEffects vm op es vm' := by
  cases op with
  | page addr type => exact mmapPageEffects_ok hPhysical.addr_lt hSize hOk
  | area addr npages type => exact mmapAreaEffects_ok hPhysical hSize hOk

end

/-! ## What the processor may keep -/

abbrev TlbCommand := Tlb.Command (Nat → Nat) Nat

def samePage (va : Nat) : Set Nat := {v | v / PGSIZE = va / PGSIZE}

def Effect.command (table : Nat) : Effect → TlbCommand
  | store index entry => .store fun m => movq m (table + 8 * index) entry
  | invlpg va => .invalidate (samePage va)

/-- No entry is global, so a reload of `%cr3` leaves nothing. -/
def reloadCr3 : TlbCommand := .invalidate Set.univ

def storeCommand (store : Nat × Nat) : TlbCommand := .store fun m => movq m store.1 store.2

/-- `_start64`, then `direct_map_everything`. -/
def bootCommands (s : ImageSymbols) : List TlbCommand :=
  (start64Stores s.toBootSymbols).map storeCommand ++ [reloadCr3] ++
    ([(s.pages, 131), (s.address .pml4 + 8 * 273, s.pages + 3)].map storeCommand ++ [reloadCr3])

theorem tablesAfter_stores (m : Nat → Nat) (stores : List (Nat × Nat)) :
    Tlb.tablesAfter m (stores.map storeCommand) = storeAll m stores := by
  induction stores generalizing m with
  | nil => rfl
  | cons store rest ih => exact ih _

section

variable {s : ImageSymbols} {kernelEnd : Nat} {m : Nat → Nat}

/-- The commands are what the code does to memory. -/
theorem bootCommands_memory (h : s.Loaded kernelEnd m) {fuel : Nat} {m1 : Nat → Nat}
    (hMap : bootMmapKernel s.toBootSymbols kernelEnd (bootPageInit s.toBootSymbols m) fuel = some m1) :
    ∃ m2 st, bootTables s.toBootSymbols kernelEnd m 512 = some m2 ∧
      directMapEverything (s.address .pml4) (VMM_KERNEL_START + s.pages) { m := m2 } = .ok st ∧
      SpaceHolds s (kernelPages kernelEnd) (fun i => st.m (s.address .pte + 8 * i)) st.m ∧
      Tlb.tablesAfter m1 (bootCommands s) = st.m := by
  obtain ⟨m2, st, hRun, hDirect, hHolds, -⟩ := h.boot
  obtain ⟨m1', hMap', hStart⟩ := Option.bind_eq_some_iff.mp hRun
  obtain rfl := Loop.Returns.unique ⟨_, hMap⟩ ⟨_, hMap'⟩
  have hStores : start64 s.toBootSymbols m1 510 = _ := start64_eq m1
  unfold start64 at hStart hStores
  have hSame := Loop.Returns.unique (Exists.intro _ hStart) (Exists.intro _ hStores)
  refine ⟨m2, st, hRun, hDirect, hHolds, ?_⟩
  rw [directMapEverything_eq (h.ready hRun), Nat.add_sub_cancel_left] at hDirect
  rw [← Except.ok.inj hDirect]
  unfold bootCommands
  rw [Tlb.tablesAfter_append, Tlb.tablesAfter_append, tablesAfter_stores, Tlb.tablesAfter_append,
    tablesAfter_stores, ← hSame]
  rfl

/-! ### One store to the window -/

variable {n : Nat} {vm : VmArea}

theorem SpaceHolds.store (h : SpaceHolds s n vm.pt m) {index : Nat} (hIndex : index < VM_AREA_MAX)
    (entry : Nat) :
    SpaceHolds s n (vm.store index entry).pt (movq m (s.address .pte + 8 * index) entry) := by
  have hTable : VmArea.InTable vm.pt ⟨0, (vm.store index entry).pt, [index]⟩ := by
    constructor
    · exact Nat.zero_le _
    · intro i hi
      rwa [List.mem_singleton.mp hi]
    · intro i hi
      exact if_neg fun hEq => hi (List.mem_singleton.mpr hEq)
  have hStored := h.memory hTable
  unfold VmArea.memory at hStored
  have hEntry : (vm.store index entry).pt index = entry := if_pos rfl
  dsimp only [List.foldr_cons, List.foldr_nil] at hStored
  rwa [hEntry] at hStored

/-- A store to the window's table changes what one page of addresses means. -/
theorem spaceTranslate_store {index entry v : Nat} (hIndex : index < VM_AREA_MAX)
    (hOther : v ∉ samePage (windowStart + index * PGSIZE)) :
    spaceTranslate n (vm.store index entry) v = spaceTranslate n vm v := by
  unfold spaceTranslate
  by_cases hIn : windowStart ≤ v ∧ v < windowStart + VM_AREA_MAX * PGSIZE
  · have hSlot : v / PGSIZE % 512 ≠ index := by
      intro hEq
      apply hOther
      change v / PGSIZE = (windowStart + index * PGSIZE) / PGSIZE
      unfold windowStart VM_AREA_MAX PGSIZE at *
      omega
    have hSame : (vm.store index entry).translate v = vm.translate v := by
      unfold VmArea.translate VmArea.store
      dsimp only
      rw [if_neg hSlot]
    rw [hSame]
  · rw [VmArea.translate_outside hIn, VmArea.translate_outside hIn]

/-- What the processor looks up. -/
def spaceLookup (s : ImageSymbols) (m : Nat → Nat) (v : Nat) : Option Nat :=
  Paging.translate m (s.address .pml4) v

theorem SpaceHolds.mem_current (hn : n ≤ 512) (h : SpaceHolds s n vm.pt m) (e : Nat × Nat) :
    e ∈ Tlb.current (spaceLookup s) m ↔ spaceTranslate n vm e.1 = some e.2 := by
  rw [← h.translate_eq hn]
  exact Iff.rfl

/-! ### The commands of a call -/

/-- Every store of a call is followed by the `invlpg` of its page. -/
theorem pageEffects_paired (hn : n ≤ 512) {first start bits : Nat} (count k : Nat)
    (hRoom : first + k + count ≤ VM_AREA_MAX)
    (h : SpaceHolds s n (vm.fill first start bits k).pt m) :
    Tlb.Paired (spaceLookup s) m
        (((List.range' k count).flatMap (pageEffects first start bits)).map
          (Effect.command (s.address .pte))) ∧
      SpaceHolds s n (vm.fill first start bits (k + count)).pt
        (Tlb.tablesAfter m (((List.range' k count).flatMap (pageEffects first start bits)).map
          (Effect.command (s.address .pte)))) := by
  induction count generalizing k m with
  | zero => exact ⟨.nil m, h⟩
  | succ count ih =>
    have hIndex : (first + k) % 2 ^ 16 = first + k := by
      unfold VM_AREA_MAX at hRoom
      omega
    have hLess : first + k < VM_AREA_MAX := by omega
    have hStored := h.store hLess (entryOf (add64 start (mul64 PGSIZE k)) bits)
    have hFilled : (vm.fill first start bits k).store (first + k)
        (entryOf (add64 start (mul64 PGSIZE k)) bits) = vm.fill first start bits (k + 1) := by
      rw [VmArea.fill, hIndex]
    obtain ⟨hPaired, hHolds⟩ := ih (k + 1) (by omega) (hFilled ▸ hStored)
    rw [List.range'_succ, List.flatMap_cons, List.map_append,
      show k + (count + 1) = k + 1 + count by omega]
    unfold pageEffects
    rw [hIndex]
    refine ⟨.cons ?_ hPaired, hHolds⟩
    -- only addresses of the page that is invalidated next change their meaning
    intro e hOld hOther
    rw [h.mem_current hn] at hOld
    rw [hStored.mem_current hn, spaceTranslate_store hLess, hOld]
    intro hSame
    apply hOther
    have hAddress : (VmmMap.mk 257 0 0 (first + k)).vaddr
        (add64 start (mul64 PGSIZE k) % PGSIZE) / PGSIZE =
          (windowStart + (first + k) * PGSIZE) / PGSIZE := by
      rw [vaddr_window]
      unfold windowStart
      unfold VM_AREA_MAX at hLess
      unfold PGSIZE
      omega
    exact Eq.trans hSame hAddress.symm

theorem TakesEffects.paired (hn : n ≤ 512) {op : MapOp} {es : List Effect} {vm' : VmArea}
    (h : TakesEffects vm op es vm') (hHolds : SpaceHolds s n vm.pt m) :
    Tlb.Paired (spaceLookup s) m (es.map (Effect.command (s.address .pte))) ∧
      SpaceHolds s n vm'.pt
        (Tlb.tablesAfter m (es.map (Effect.command (s.address .pte)))) := by
  obtain ⟨hRoom, bits, -, rfl, rfl⟩ := h
  have hFill : SpaceHolds s n (({ vm with size := (vm.size + 1) % 2 ^ 32 } : VmArea).fill vm.size
      op.addr bits 0).pt m := hHolds
  have hAll := pageEffects_paired hn op.npages 0 hRoom hFill
  rwa [Nat.zero_add] at hAll

/-! ### Any number of calls -/

/-- Calls that return, with all their effects. -/
inductive Calls : VmArea → List MapOp → List Effect → VmArea → Prop
  | nil (vm : VmArea) : Calls vm [] [] vm
  | cons {vm vm1 vm2 : VmArea} {op : MapOp} {ops : List MapOp} {es rest : List Effect} :
      op.effects false vm = .ok (es, vm1) → Calls vm1 ops rest vm2 →
      Calls vm (op :: ops) (es ++ rest) vm2

theorem TakesEffects.size_le {op : MapOp} {es : List Effect} {vm' : VmArea}
    (hPhysical : op.Physical) (h : TakesEffects vm op es vm') : vm'.size ≤ VM_AREA_MAX := by
  obtain ⟨hRoom, bits, -, -, rfl⟩ := h
  have hPos := hPhysical.1
  rw [fill_size]
  unfold VM_AREA_MAX at hRoom ⊢
  dsimp only
  omega

theorem Calls.paired (hn : n ≤ 512) {ops : List MapOp} {es : List Effect} {vm' : VmArea}
    (hCalls : Calls vm ops es vm') (hPhysical : ∀ op ∈ ops, op.Physical)
    (hSize : vm.size ≤ VM_AREA_MAX) (h : SpaceHolds s n vm.pt m) :
    Tlb.Paired (spaceLookup s) m (es.map (Effect.command (s.address .pte))) ∧
      SpaceHolds s n vm'.pt
        (Tlb.tablesAfter m (es.map (Effect.command (s.address .pte)))) := by
  induction hCalls generalizing m with
  | nil vm => exact ⟨.nil m, h⟩
  | @cons vm vm1 vm2 op ops es rest hCall _ ih =>
    have hOp := hPhysical op List.mem_cons_self
    have hTakes := MapOp.effects_ok hOp hSize hCall
    obtain ⟨hPaired, hHolds⟩ := hTakes.paired hn h
    obtain ⟨hRest, hLast⟩ := ih (fun o ho => hPhysical o (List.mem_cons_of_mem _ ho))
      (hTakes.size_le hOp) hHolds
    rw [List.map_append, Tlb.tablesAfter_append]
    exact ⟨hPaired.append hRest, hLast⟩

end

/-- After the calls everything the processor keeps is what the tables say. On the way, with the
effects `done` behind it and `todo` still to come, at most one page may be kept wrongly: that of
an `invlpg` that is the next effect. -/
structure TlbCoherent (s : ImageSymbols) (n : Nat) (start : Tlb.State (Nat → Nat) Nat Nat)
    (es : List Effect) (vm : VmArea) : Prop where
  rest : ∀ t, Tlb.Runs (spaceLookup s) start
    (bootCommands s ++ es.map (Effect.command (s.address .pte))) t →
      ∀ v p, (v, p) ∈ t.cached → spaceTranslate n vm v = some p
  moment : ∀ done todo t, es = done ++ todo →
    Tlb.Runs (spaceLookup s) start
      (bootCommands s ++ done.map (Effect.command (s.address .pte))) t →
      ∃ gone, (gone = ∅ ∨ ∃ va rest, todo = .invlpg va :: rest ∧ gone = samePage va) ∧
        ∀ v p, (v, p) ∈ t.cached → v ∉ gone →
          Paging.translate t.tables (s.address .pml4) v = some p

/-- Only an `invlpg` invalidates. -/
theorem invalidate_next {table : Nat} {todo : List Effect} {gone : Set Nat}
    {rest : List TlbCommand}
    (h : todo.map (Effect.command table) = .invalidate gone :: rest) :
    ∃ va rest, todo = .invlpg va :: rest ∧ gone = samePage va := by
  cases todo with
  | nil => cases h
  | cons e todo =>
    have hFirst := (List.cons.inj h).1
    cases e with
    | store index entry => cases hFirst
    | invlpg va => exact ⟨va, todo, rfl, (Tlb.Command.invalidate.inj hFirst).symm⟩

theorem tlb_coherent {s : ImageSymbols} {kernelEnd fuel : Nat} {m m1 : Nat → Nat}
    (h : s.Loaded kernelEnd m)
    (hMap : bootMmapKernel s.toBootSymbols kernelEnd (bootPageInit s.toBootSymbols m) fuel = some m1)
    {ops : List MapOp} {es : List Effect} {vm : VmArea} (hPhysical : ∀ op ∈ ops, op.Physical)
    (hCalls : Calls (vmmInit fun i =>
      Tlb.tablesAfter m1 (bootCommands s) (s.address .pte + 8 * i)) ops es vm)
    (kept : Set (Nat × Nat)) :
    TlbCoherent s (kernelPages kernelEnd) ⟨m1, kept⟩ es vm := by
  obtain ⟨m2, st, -, -, hHolds, hMemory⟩ := bootCommands_memory h hMap
  have hSmall : kernelPages kernelEnd ≤ 512 := by
    have := h.small
    unfold kernelPages
    omega
  rw [hMemory] at hCalls
  obtain ⟨hPaired, hLast⟩ := hCalls.paired hSmall hPhysical (Nat.zero_le _) hHolds
  -- whatever was kept before, the last reload leaves nothing wrong
  have hBoot : ∀ t, Tlb.Runs (spaceLookup s) ⟨m1, kept⟩ (bootCommands s) t →
      Tlb.Coherent (spaceLookup s) t ∧ t.tables = st.m := by
    intro t hRuns
    refine ⟨?_, hRuns.tables_eq.trans hMemory⟩
    unfold bootCommands at hRuns
    rw [← List.append_assoc] at hRuns
    exact hRuns.coherent_of_flush
  constructor
  · intro t hRuns v p hMem
    obtain ⟨t', hFirst, hSecond⟩ := hRuns.split
    obtain ⟨hCoherent, hTables⟩ := hBoot t' hFirst
    have hCurrent := hPaired.safe t' t hTables hCoherent hSecond hMem
    rw [hSecond.tables_eq, hTables, hLast.mem_current hSmall] at hCurrent
    exact hCurrent
  · rintro done todo t rfl hRuns
    obtain ⟨t', hFirst, hSecond⟩ := hRuns.split
    obtain ⟨hCoherent, hTables⟩ := hBoot t' hFirst
    rw [List.map_append] at hPaired
    obtain ⟨gone, hGone, hOff⟩ := hPaired.on_the_way hTables hCoherent hSecond
    exact ⟨gone, hGone.imp_right fun ⟨_, hNext⟩ => invalidate_next hNext,
      fun v p hMem hOut => hOff (v, p) hMem hOut⟩

theorem tlb_sample : ∃ m1 es vm, bootMmapKernel sampleSymbols 0x180000
    (bootPageInit sampleSymbols fun _ => 0) 512 = some m1 ∧
      Calls (vmmInit fun i => Tlb.tablesAfter m1 (bootCommands sampleImage)
        (sampleImage.address .pte + 8 * i)) [.page 0xFEE00000 0] es vm ∧
      ∀ kept, TlbCoherent sampleImage (kernelPages 0x180000) ⟨m1, kept⟩ es vm := by
  have hPhysical : ∀ op ∈ [MapOp.page 0xFEE00000 0], op.Physical := by
    simp [MapOp.Physical, MapOp.npages, MapOp.addr, PGSIZE]
  obtain ⟨m1, hMap, -⟩ := bootMmapKernel_holds (by decide : 0x180000 < 2 ^ 30)
    sampleImage_loaded.tables
  obtain ⟨pt, hPt⟩ : ∃ pt, (fun i => Tlb.tablesAfter m1 (bootCommands sampleImage)
    (sampleImage.address .pte + 8 * i)) = pt := ⟨_, rfl⟩
  obtain ⟨hOk, -⟩ := mapStep_lapic pt
  have hEnd := MapOp.effects_end (vmmInit pt) false (.page 0xFEE00000 0)
  rw [hOk] at hEnd
  cases hEffects : MapOp.effects false (vmmInit pt) (.page 0xFEE00000 0) with
  | error e =>
    rw [hEffects] at hEnd
    cases hEnd
  | ok r =>
    have hCalls := Calls.cons hEffects (.nil r.2)
    rw [← hPt] at hCalls
    exact ⟨m1, _, _, hMap, hCalls, tlb_coherent sampleImage_loaded hMap hPhysical hCalls⟩

end LunarOS
