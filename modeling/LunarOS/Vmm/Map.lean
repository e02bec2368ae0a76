import LunarOS.Machine.Vmm

/-!
# Mapping physical pages (`vmm.c`, `mmap.c`)

Before interrupts are enabled pages are mapped through one last-level table, the one behind
slot 257 of the top level. `VmArea` is `reserved`: how many entries are taken and the table
itself, with the indices of all stores so far as a ghost. The table is a function on every
index, so a store past its 512 entries is recorded and not lost.
-/

namespace LunarOS

def VM_AREA_MAX : Nat := 512

/-- `struct vm_area` -/
structure VmArea where
  size : Nat
  pt : Nat → Nat
  stores : List Nat := []

/-- `vmm_map_t` -/
structure VmmMap where
  pml4e : Nat
  pdpte : Nat
  pde : Nat
  pte : Nat
  deriving DecidableEq, Repr

/-- `ppt_t` -/
inductive Ppt
  | uc | wc | wt | wb | wp
  deriving DecidableEq, Repr

def Ppt.ofNat? : Nat → Option Ppt
  | 0 => some .uc
  | 1 => some .wc
  | 2 => some .wt
  | 3 => some .wb
  | 4 => some .wp
  | _ => none

/-- The bits that the `switch` of `vmm_assign_map` sets: `pwt` is bit 3, `pcd` bit 4 and `pat`
bit 7 of an entry. -/
def memoryType (type : Nat) : Outcome Nat :=
  match Ppt.ofNat? type with
  | some .uc => .ok (2 ^ 3 ||| 2 ^ 4 ||| 2 ^ 7)
  | some .wt => .ok (2 ^ 3)
  | some .wc => .ok 0
  | some .wp => .ok 0
  | some .wb => .ok 0
  | none => .error (.panic "memory type undefined")

def vmmInit (pt : Nat → Nat) : VmArea := { size := 0, pt }

/-- `none` is the return value 1. -/
def vmmFetchMap (irqEnabled : Bool) (vm : VmArea) (npages : Nat) :
    Outcome (Option (VmmMap × VmArea)) :=
  if irqEnabled then .ok none
  else if VM_AREA_MAX < add64 vm.size npages then
    .error (.panic "No virtual memory mappings available, can't fallback!")
  else
    let size := (vm.size + 1) % 2 ^ 32
    .ok (some (⟨257, 0, 0, (size + 2 ^ 32 - 1) % 2 ^ 32 % 2 ^ 16⟩, { vm with size }))

/-- The address that `vmm_assign_map` puts together; only the shift of `pml4e` is on 64 bits. -/
def VmmMap.vaddr (map : VmmMap) (offset : Nat) : Nat :=
  (0xFFFF * 2 ^ 48) ||| ((map.pml4e &&& 0x1FF) * 2 ^ 39) |||
    sext32 ((map.pdpte &&& 0x1FF) * 2 ^ 30) ||| sext32 ((map.pde &&& 0x1FF) * 2 ^ 21) |||
    sext32 ((map.pte &&& 0x1FF) * 2 ^ 12) ||| (offset &&& 0xFFF)

/-- `reserved.pt[index] = entry` -/
def VmArea.store (vm : VmArea) (index entry : Nat) : VmArea :=
  { vm with
    pt := fun i => if i = index then entry else vm.pt i
    stores := index :: vm.stores }

/-- `present` is bit 0 of an entry and `rw` bit 1. -/
def vmmAssignMap (vm : VmArea) (map : VmmMap) (addr type : Nat) : Outcome (Option Nat × VmArea) :=
  let pgnum := pgrounddown addr
  let offset := (addr - pgnum) % 2 ^ 16
  let base := pgnum &&& (0xFFFFFFFFFF * 2 ^ 12)
  if base % 2 = 1 then .ok (none, vm)
  else do
    let bits ← memoryType type
    pure (some (map.vaddr offset), vm.store map.pte (base ||| 1 ||| 2 ||| bits))

def mmapPhysicalPage (irqEnabled : Bool) (vm : VmArea) (page type : Nat) :
    Outcome (Option Nat × VmArea) := do
  match ← vmmFetchMap irqEnabled vm 1 with
  | none => pure (none, vm)
  | some (map, vm) => vmmAssignMap vm map page type

/-- The loop of `mmap_physical_area`, from page `n` on. -/
def mmapAreaLoop (start type : Nat) : Nat → Nat → VmmMap → VmArea → Outcome VmArea
  | 0, _, _, vm => .ok vm
  | count + 1, n, map, vm => do
    let next := add64 start (mul64 PGSIZE n)
    let map := { map with pte := (map.pte + 1) % 2 ^ 16 }
    let (_, vm) ← vmmAssignMap vm map next type
    mmapAreaLoop start type count (n + 1) map vm

def mmapPhysicalArea (irqEnabled : Bool) (vm : VmArea) (start npages type : Nat) :
    Outcome (Option Nat × VmArea) :=
  if npages = 1 then mmapPhysicalPage irqEnabled vm start type
  else do
    match ← vmmFetchMap irqEnabled vm npages with
    | none => pure (none, vm)
    | some (map, vm) =>
      let (ret, vm) ← vmmAssignMap vm map start type
      let vm ← mmapAreaLoop start type (npages - 1) 1 map vm
      pure (ret, vm)

/-! ## Entries and addresses -/

/-- The entry for the page of `addr`. -/
def entryOf (addr bits : Nat) : Nat := addr / PGSIZE % 2 ^ 40 * PGSIZE + (3 ||| bits)

theorem pgrounddown_eq (addr : Nat) : pgrounddown addr = addr / PGSIZE * PGSIZE := by
  unfold pgrounddown PGSIZE
  omega

theorem entry_base_eq (addr : Nat) :
    pgrounddown addr &&& (0xFFFFFFFFFF * 2 ^ 12) = addr / PGSIZE % 2 ^ 40 * PGSIZE := by
  have hMask : (0xFFFFFFFFFF : Nat) = 2 ^ 40 - 1 := rfl
  have hPage : PGSIZE = 2 ^ 12 := rfl
  rw [pgrounddown_eq, hMask, hPage, ← Nat.shiftLeft_eq, ← Nat.shiftLeft_eq,
    ← Nat.shiftLeft_and_distrib, Nat.and_two_pow_sub_one_eq_mod, Nat.shiftLeft_eq]

theorem memoryType_bits {type bits : Nat} (hOk : memoryType type = .ok bits) :
    bits = 0 ∨ bits = 8 ∨ bits = 152 := by
  unfold memoryType at hOk
  split at hOk <;> cases hOk <;> decide

theorem entryOf_present (addr : Nat) {bits : Nat} (hBits : bits = 0 ∨ bits = 8 ∨ bits = 152) :
    entryOf addr bits % 2 = 1 ∧ entryOf addr bits / PGSIZE % 2 ^ 40 = addr / PGSIZE % 2 ^ 40 := by
  have hFlags : (3 ||| bits) % 2 = 1 ∧ 3 ||| bits < 4096 := by
    rcases hBits with rfl | rfl | rfl <;> decide
  unfold entryOf PGSIZE
  omega

/-- What `vmm_assign_map` does: it always stores. -/
theorem vmmAssignMap_eq (vm : VmArea) (map : VmmMap) (addr type : Nat) :
    vmmAssignMap vm map addr type = (memoryType type).map fun bits =>
      (some (map.vaddr (addr % PGSIZE)), vm.store map.pte (entryOf addr bits)) := by
  have hOffset : (addr - pgrounddown addr) % 2 ^ 16 = addr % PGSIZE := by
    unfold pgrounddown PGSIZE
    omega
  have hEven : (addr / PGSIZE % 2 ^ 40 * PGSIZE) % 2 ≠ 1 := by
    unfold PGSIZE
    omega
  unfold vmmAssignMap
  dsimp only
  rw [entry_base_eq, if_neg hEven, hOffset]
  cases hType : memoryType type with
  | error e => rfl
  | ok bits =>
    have hFlags : 3 ||| bits < 2 ^ 12 := by
      rcases memoryType_bits hType with rfl | rfl | rfl <;> decide
    have hEntry : addr / PGSIZE % 2 ^ 40 * PGSIZE ||| 1 ||| 2 ||| bits = entryOf addr bits := by
      rw [Nat.or_assoc, Nat.or_assoc, ← Nat.or_assoc 1 2 bits]
      exact or_eq_add hFlags
    rw [ok_bind_eq, hEntry]
    rfl

/-- In the window an address is made of the entry's index and the offset. -/
theorem vaddr_window (pte offset : Nat) :
    (VmmMap.mk 257 0 0 pte).vaddr offset =
      0xFFFF808000000000 + pte % 512 * PGSIZE + offset % PGSIZE := by
  have hIndex : pte &&& 0x1FF = pte % 512 := Nat.and_two_pow_sub_one_eq_mod pte 9
  have hLow : offset &&& 0xFFF = offset % PGSIZE := Nat.and_two_pow_sub_one_eq_mod offset 12
  have hPage : offset % PGSIZE < 2 ^ 12 := Nat.mod_lt _ (by decide)
  have hShift : sext32 (pte % 512 * 2 ^ 12) = pte % 512 * 2 ^ 12 := sext32_eq (by omega)
  have hSlot : pte % 512 * 2 ^ 12 < 2 ^ 21 := by omega
  unfold VmmMap.vaddr
  dsimp only
  rw [hIndex, hLow, hShift]
  have hTop : 0xFFFF * 2 ^ 48 ||| (257 &&& 0x1FF) * 2 ^ 39 ||| sext32 ((0 &&& 0x1FF) * 2 ^ 30) |||
      sext32 ((0 &&& 0x1FF) * 2 ^ 21) = 0x7FFFC040000 * 2 ^ 21 := by decide
  have hSum : 0x7FFFC040000 * 2 ^ 21 + pte % 512 * 2 ^ 12 =
      (0x7FFFC040000 * 2 ^ 9 + pte % 512) * 2 ^ 12 := by ring
  rw [hTop, or_eq_add hSlot, hSum, or_eq_add hPage]
  unfold PGSIZE
  ring

end LunarOS
