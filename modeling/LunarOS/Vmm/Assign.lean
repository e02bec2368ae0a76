import LunarOS.Logic.Paging
import Mathlib.Tactic.IntervalCases
import LunarOS.Vmm.Map

/-!
# Addresses and entries of `vmm_assign_map`

The address is put together from the four indices of the map and the page offset. Only the index
of the top level is shifted in 64 bits; `pdpte << 30` is an `int`, which keeps two of the nine
bits and spreads the sign over the index above. `vaddr_eq` gives the address for every map, and
`assigned_iff` says for which maps it leads back to them.
-/

namespace LunarOS

open Logic

/-- The entry links the next table. -/
def LinksTable (m : Nat → Nat) (table index next : Nat) : Prop :=
  Paging.Present (m (table + 8 * index)) ∧ ¬ Paging.Large (m (table + 8 * index)) ∧
    Paging.frame 12 (m (table + 8 * index)) = next

/-- The address `v` selects the indices of the map, and the stored entry gives `addr` back. -/
structure LeadsBack (map : VmmMap) (addr v entry : Nat) : Prop where
  canonical : Paging.Canonical v
  pml4e : Paging.slot 3 v = map.pml4e
  pdpte : Paging.slot 2 v = map.pdpte
  pde : Paging.slot 1 v = map.pde
  pte : Paging.slot 0 v = map.pte
  offset : v % 2 ^ 12 = addr % PGSIZE
  present : Paging.Present entry
  writable : entry / 2 % 2 = 1
  base : entry / 2 ^ 12 % 2 ^ 40 = addr / 2 ^ 12
  walk : ∀ m cr3 pdpt pd pt, LinksTable m cr3 map.pml4e pdpt → LinksTable m pdpt map.pdpte pd →
    LinksTable m pd map.pde pt → m (pt + 8 * map.pte) = entry →
      Paging.translate m cr3 v = some addr

/-- What `vmm_assign_map` owes its callers. -/
def Assigned (vm : VmArea) (map : VmmMap) (addr type : Nat) : Prop :=
  ∃ v vm', vmmAssignMap vm map addr type = .ok (some v, vm') ∧
    LeadsBack map addr v (vm'.pt map.pte)

/-- `vmm_map_t` for the upper half: every index fits its field. -/
structure VmmMap.Valid (map : VmmMap) : Prop where
  pml4e_ge : 256 ≤ map.pml4e
  pml4e_lt : map.pml4e < 512
  pdpte_lt : map.pdpte < 512
  pde_lt : map.pde < 512
  pte_lt : map.pte < 512

/-! ## The address -/

/-- Bits 30 to 63 of the address. -/
def VmmMap.high (map : VmmMap) : Nat :=
  if map.pdpte % 4 < 2 then (0xFFFF * 2 ^ 9 + map.pml4e) * 2 ^ 9 + map.pdpte % 4
  else 2 ^ 34 - 4 + map.pdpte % 4

theorem or_ones {a k l : Nat} (h : a < 2 ^ k) :
    a * 2 ^ l ||| (2 ^ k - 1) * 2 ^ l = (2 ^ k - 1) * 2 ^ l := by
  apply Nat.eq_of_testBit_eq
  intro i
  simp only [Nat.testBit_or, Nat.testBit_mul_two_pow, Nat.testBit_two_pow_sub_one]
  by_cases hi : i - l < k
  · by_cases hl : l ≤ i <;> simp [hi, hl]
  · have hClear : a.testBit (i - l) = false :=
      Nat.testBit_lt_two_pow (h.trans_le (Nat.pow_le_pow_right (by omega) (by omega)))
    simp [hClear]

/-- The shift of `pdpte` as an `int`. -/
theorem sext32_pdpte (pdpte : Nat) : sext32 (pdpte * 2 ^ 30) =
    if pdpte % 4 < 2 then pdpte % 4 * 2 ^ 30 else (2 ^ 34 - 4 + pdpte % 4) * 2 ^ 30 := by
  have hLow : pdpte * 2 ^ 30 % 2 ^ 32 = pdpte % 4 * 2 ^ 30 := by omega
  unfold sext32 wordSize
  rw [hLow]
  split <;> split <;> omega

/-- Where the sign is set, it covers the index of the top level. -/
theorem high_or {pml4e : Nat} (hTop : pml4e < 512) (pdpte : Nat) :
    (0xFFFF * 2 ^ 48 ||| pml4e * 2 ^ 39) ||| sext32 (pdpte * 2 ^ 30) =
      (VmmMap.mk pml4e pdpte 0 0).high * 2 ^ 30 := by
  have hUpper : 0xFFFF * 2 ^ 48 ||| pml4e * 2 ^ 39 = (0xFFFF * 2 ^ 9 + pml4e) * 2 ^ 39 := by
    rw [or_eq_add (k := 48) (by omega)]
    ring
  rw [hUpper, sext32_pdpte]
  unfold VmmMap.high
  dsimp only
  split
  · next hSmall =>
    rw [or_eq_add (by omega)]
    ring
  · next hSign =>
    -- the sign fills bits 32 to 63
    have hFill : (2 ^ 34 - 4 + pdpte % 4) * 2 ^ 30 =
        (2 ^ 25 - 1) * 2 ^ 39 + (2 ^ 9 - 4 + pdpte % 4) * 2 ^ 30 := by omega
    rw [hFill, ← or_eq_add (k := 39) (by omega), ← Nat.or_assoc]
    rw [or_ones (by omega)]

theorem vaddr_eq {map : VmmMap} (h : map.Valid) {offset : Nat} (hOffset : offset < 2 ^ 12) :
    map.vaddr offset =
      map.high * 2 ^ 30 + map.pde * 2 ^ 21 + map.pte * 2 ^ 12 + offset := by
  have hMask : ∀ i < 512, i &&& 0x1FF = i := fun i hi =>
    (Nat.and_two_pow_sub_one_eq_mod i 9).trans (Nat.mod_eq_of_lt hi)
  have hLow : offset &&& 0xFFF = offset :=
    (Nat.and_two_pow_sub_one_eq_mod offset 12).trans (Nat.mod_eq_of_lt hOffset)
  have hPde := h.pde_lt
  have hPte := h.pte_lt
  have hDir : map.high * 2 ^ 30 + map.pde * 2 ^ 21 = (map.high * 2 ^ 9 + map.pde) * 2 ^ 21 := by
    ring
  have hTable : (map.high * 2 ^ 9 + map.pde) * 2 ^ 21 + map.pte * 2 ^ 12 =
      ((map.high * 2 ^ 9 + map.pde) * 2 ^ 9 + map.pte) * 2 ^ 12 := by ring
  unfold VmmMap.vaddr
  rw [hMask _ h.pml4e_lt, hMask _ h.pdpte_lt, hMask _ h.pde_lt, hMask _ h.pte_lt, hLow,
    high_or h.pml4e_lt, sext32_eq (n := map.pde * 2 ^ 21) (by omega),
    sext32_eq (n := map.pte * 2 ^ 12) (by omega)]
  change map.high * 2 ^ 30 ||| map.pde * 2 ^ 21 ||| map.pte * 2 ^ 12 ||| offset = _
  rw [or_eq_add (by omega), hDir, or_eq_add (by omega), hTable, or_eq_add hOffset]

/-- The two upper indices that the address selects. -/
theorem slots_vaddr {map : VmmMap} (h : map.Valid) {offset : Nat} (hOffset : offset < 2 ^ 12) :
    Paging.slot 3 (map.vaddr offset) = map.high / 2 ^ 9 % 512 ∧
      Paging.slot 2 (map.vaddr offset) = map.high % 512 ∧
      Paging.slot 1 (map.vaddr offset) = map.pde ∧ Paging.slot 0 (map.vaddr offset) = map.pte ∧
      map.vaddr offset % 2 ^ 12 = offset := by
  have hPde := h.pde_lt
  have hPte := h.pte_lt
  rw [vaddr_eq h hOffset]
  unfold Paging.slot Paging.width
  omega

/-- Addresses of the upper half are canonical. -/
theorem vaddr_canonical {map : VmmMap} (h : map.Valid) {offset : Nat} (hOffset : offset < 2 ^ 12) :
    Paging.Canonical (map.vaddr offset) := by
  have hGe := h.pml4e_ge
  have hLt := h.pml4e_lt
  have hPde := h.pde_lt
  have hPte := h.pte_lt
  have hHigh : 2 ^ 34 - 2 ^ 17 ≤ map.high ∧ map.high < 2 ^ 34 := by
    unfold VmmMap.high
    split <;> omega
  rw [vaddr_eq h hOffset]
  exact Or.inr (by omega)

/-- When the address selects the two upper indices of the map. -/
theorem high_eq_iff {map : VmmMap} (h : map.Valid) :
    map.high / 2 ^ 9 % 512 = map.pml4e ∧ map.high % 512 = map.pdpte ↔
      map.pdpte < 2 ∨ map.pml4e = 511 ∧ 510 ≤ map.pdpte := by
  have hLt := h.pml4e_lt
  have hPdpte := h.pdpte_lt
  unfold VmmMap.high
  split <;> omega

/-! ## The entry -/

/-- `ppt_t` has five values, and each has its bits. -/
theorem memoryType_ok {type : Nat} (hType : type < 5) :
    ∃ bits, memoryType type = .ok bits ∧ (bits = 0 ∨ bits = 8 ∨ bits = 152) := by
  have hSome : ∃ bits, memoryType type = .ok bits := by
    interval_cases type <;> exact ⟨_, rfl⟩
  obtain ⟨bits, hOk⟩ := hSome
  exact ⟨bits, hOk, memoryType_bits hOk⟩

theorem entryOf_fields {addr bits : Nat} (hAddr : addr < 2 ^ 52)
    (hBits : bits = 0 ∨ bits = 8 ∨ bits = 152) :
    Paging.Present (entryOf addr bits) ∧ entryOf addr bits / 2 % 2 = 1 ∧
      entryOf addr bits / 2 ^ 12 % 2 ^ 40 = addr / 2 ^ 12 ∧
      Paging.frame 12 (entryOf addr bits) = addr / 2 ^ 12 * 2 ^ 12 := by
  have hFlags : (3 ||| bits) % 4 = 3 ∧ 3 ||| bits < 2 ^ 12 := by
    rcases hBits with rfl | rfl | rfl <;> decide
  have hPage : addr / PGSIZE % 2 ^ 40 = addr / 2 ^ 12 := by
    unfold PGSIZE
    omega
  have hEntry : entryOf addr bits = addr / 2 ^ 12 * 2 ^ 12 + (3 ||| bits) := by
    unfold entryOf
    rw [hPage]
    rfl
  have hFrame := Paging.frame_add (k := 12) (f := addr / 2 ^ 12) (by omega) hFlags.2
  rw [hEntry]
  refine ⟨?_, by omega, by omega, hFrame⟩
  unfold Paging.Present
  omega

theorem walk_links {m : Nat → Nat} {level table v index next : Nat}
    (hSlot : Paging.slot (level + 1) v = index) (h : LinksTable m table index next) :
    Paging.walk m (level + 1) table v = Paging.walk m level next v := by
  obtain ⟨hPresent, hSmall, hNext⟩ := h
  rw [← hSlot] at hPresent hSmall hNext
  rw [Paging.walk_next hPresent hSmall, hNext]

/-! ## When the two lead back -/

theorem leadsBack_iff {map : VmmMap} (h : map.Valid) {addr bits : Nat} (hAddr : addr < 2 ^ 52)
    (hBits : bits = 0 ∨ bits = 8 ∨ bits = 152) :
    LeadsBack map addr (map.vaddr (addr % PGSIZE)) (entryOf addr bits) ↔
      map.pdpte < 2 ∨ map.pml4e = 511 ∧ 510 ≤ map.pdpte := by
  have hOffset : addr % PGSIZE < 2 ^ 12 := Nat.mod_lt _ (by decide)
  obtain ⟨hThree, hTwo, hOne, hZero, hLow⟩ := slots_vaddr h hOffset
  obtain ⟨hPresent, hWrite, hBase, hFrame⟩ := entryOf_fields hAddr hBits
  rw [← high_eq_iff h]
  constructor
  · intro hLeads
    exact ⟨hThree.symm.trans hLeads.pml4e, hTwo.symm.trans hLeads.pdpte⟩
  · rintro ⟨hTop, hDir⟩
    rw [hTop] at hThree
    rw [hDir] at hTwo
    have hCanonical := vaddr_canonical h hOffset
    refine ⟨hCanonical, hThree, hTwo, hOne, hZero, hLow, hPresent, hWrite, hBase, ?_⟩
    intro m cr3 pdpt pd pt hTopLink hDirLink hTableLink hStored
    have hEntry : m (pt + 8 * Paging.slot 0 (map.vaddr (addr % PGSIZE))) = entryOf addr bits := by
      rw [hZero, hStored]
    unfold Paging.translate
    rw [if_pos hCanonical, walk_links hThree hTopLink, walk_links hTwo hDirLink,
      walk_links hOne hTableLink, Paging.walk, hEntry, if_pos hPresent, hFrame, hLow]
    refine congrArg some ?_
    unfold PGSIZE
    omega

/-- Address and entry lead back to the map and the physical address exactly when `pdpte` is 0
or 1, or the two upper indices are those that its sign produces. -/
theorem assigned_iff {map : VmmMap} (h : map.Valid) {addr type : Nat} (hAddr : addr < 2 ^ 52)
    (hType : type < 5) (vm : VmArea) :
    Assigned vm map addr type ↔ map.pdpte < 2 ∨ map.pml4e = 511 ∧ 510 ≤ map.pdpte := by
  obtain ⟨bits, hMemory, hBits⟩ := memoryType_ok hType
  have hCall : vmmAssignMap vm map addr type =
      .ok (some (map.vaddr (addr % PGSIZE)), vm.store map.pte (entryOf addr bits)) := by
    rw [vmmAssignMap_eq, hMemory]
    rfl
  have hStored : (vm.store map.pte (entryOf addr bits)).pt map.pte = entryOf addr bits := if_pos rfl
  rw [← leadsBack_iff h hAddr hBits]
  constructor
  · rintro ⟨v, vm', hOk, hLeads⟩
    rw [hCall] at hOk
    cases hOk
    rwa [hStored] at hLeads
  · intro hLeads
    exact ⟨_, _, hCall, hStored.symm ▸ hLeads⟩

/-- The second page of the second gigabyte, mapped write-through. -/
theorem assigned_sample :
    Assigned (vmmInit fun _ => 0) ⟨257, 1, 0, 5⟩ 0x1234567 2 :=
  (assigned_iff ⟨by decide, by decide, by decide, by decide, by decide⟩ (by decide) (by decide)
    _).mpr (Or.inl (by decide))

/-- With `pdpte = 2` the index of the top level comes out as 511. -/
theorem pdpte_spills : (VmmMap.mk 257 2 0 0).Valid ∧
    (∃ vm', vmmAssignMap (vmmInit fun _ => 0) ⟨257, 2, 0, 0⟩ 0x1000 3 =
      .ok (some 0xFFFFFFFF80000000, vm')) ∧ Paging.slot 3 0xFFFFFFFF80000000 = 511 ∧
    ¬ Assigned (vmmInit fun _ => 0) ⟨257, 2, 0, 0⟩ 0x1000 3 := by
  have hValid : (VmmMap.mk 257 2 0 0).Valid := by constructor <;> decide
  refine ⟨hValid, ⟨_, rfl⟩, by decide, fun hAssigned => ?_⟩
  rw [assigned_iff hValid (by decide) (by decide)] at hAssigned
  revert hAssigned
  decide

end LunarOS
