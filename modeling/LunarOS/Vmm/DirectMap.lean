import LunarOS.Boot.Tables
import LunarOS.Page.Layout

/-!
# The direct map (`mm.c`)

`direct_map_everything` installs one PML4 entry for the direct map and fills the table behind
it with pages of 1 GiB. Its objects lie in the kernel image, which the boot tables map as
`vmm_virt2phys` computes (`HigherHalf.software`), so a store through one of their addresses is
a store at the physical address that `vmm_virt2phys` gives. Only the first page is entered:
`directMap_iff` says for which areas that is enough.
-/

namespace LunarOS

open Logic

/-- The fields of `huge_pdpte_t` that are set. -/
structure HugePdpte where
  present : Bool := false
  rw : Bool := false
  ps : Bool := false
  base : Nat := 0

/-- Bits 0, 1 and 7, and the 22 bits of `base` from bit 30 on. -/
def HugePdpte.word (e : HugePdpte) : Nat :=
  e.present.toNat + 2 * e.rw.toNat + 2 ^ 7 * e.ps.toNat + 2 ^ 30 * (e.base % 2 ^ 22)

/-- The physical memory and the static counter of `vmm_direct_map`. -/
structure DmState where
  m : Nat → Nat
  next : Nat := 273

/-- A store to a kernel object. -/
def DmState.store (st : DmState) (address word : Nat) : Outcome DmState := do
  pure { st with m := movq st.m (← vmmVirt2phys address) word }

/-- The table is at `cr3 + VMM_KERNEL_START`. -/
def vmmDirectMap (cr3 : Nat) (st : DmState) (entry : Nat) : Outcome DmState := do
  let st ← st.store (add64 (add64 cr3 VMM_KERNEL_START) (8 * st.next)) entry
  pure { st with next := (st.next + 1) % 2 ^ 32 }

/-- The body of the inner loop, with the entry as the iteration before has left it. -/
def directMapEntry (pages i : Nat) (s : DmState × HugePdpte) (j : Nat) :
    Outcome (DmState × HugePdpte) := do
  let entry := { s.2 with present := true, rw := true, ps := true, base := j + 512 * i }
  pure (← s.1.store (add64 pages (8 * (j + 512 * i))) entry.word, entry)

/-- The body of the outer loop. -/
def directMapTable (cr3 pages : Nat) (s : DmState × HugePdpte) (i : Nat) :
    Outcome (DmState × HugePdpte) := do
  let (st, entry) ← (List.range 1).foldlM (directMapEntry pages i) s
  let addr ← vmmVirt2phys pages
  pure (← vmmDirectMap cr3 st (addr ||| 1 ||| 2), entry)

def directMapEverything (cr3 pages : Nat) (st : DmState) : Outcome DmState := do
  let (st, _) ← (List.range 1).foldlM (directMapTable cr3 pages) (st, {})
  pure st

/-- The table in `%cr3` and the array `pages` are pages of the kernel image; the array is
static and has not been written. -/
structure DirectMapReady (cr3 pages : Nat) (st : DmState) : Prop where
  first : st.next = 273
  cr3_page : PGSIZE ∣ cr3
  cr3_low : cr3 < 2 ^ 30
  pages_page : PGSIZE ∣ pages
  pages_ge : VMM_KERNEL_START ≤ pages
  pages_lt : pages < VMM_KERNEL_START + 2 ^ 30
  apart : pages ≠ VMM_KERNEL_START + cr3
  empty : ∀ k < 512, st.m (pages - VMM_KERNEL_START + 8 * k) = 0

section

variable {cr3 pages : Nat} {st : DmState}

theorem virt2phys_image {address : Nat} (hGe : VMM_KERNEL_START ≤ address)
    (hLt : address < VMM_KERNEL_START + 2 ^ 31) :
    vmmVirt2phys address = .ok (address - VMM_KERNEL_START) := by
  unfold vmmVirt2phys VMM_RESERVED_BOOT_START VMM_RESERVED_BOOT_END
  unfold VMM_KERNEL_START at *
  rw [if_pos (by omega), sub64_eq (by omega) (by unfold wordSize; omega)]

theorem DmState.store_eq (st : DmState) {address : Nat} (hGe : VMM_KERNEL_START ≤ address)
    (hLt : address < VMM_KERNEL_START + 2 ^ 31) (word : Nat) :
    st.store address word = .ok { st with m := movq st.m (address - VMM_KERNEL_START) word } := by
  rw [store, virt2phys_image hGe hLt]
  rfl

theorem vmmDirectMap_eq (hLow : cr3 < 2 ^ 30) (hNext : st.next < 512) (entry : Nat) :
    vmmDirectMap cr3 st entry =
      .ok { m := movq st.m (cr3 + 8 * st.next) entry, next := st.next + 1 } := by
  have hTable : add64 cr3 VMM_KERNEL_START = cr3 + VMM_KERNEL_START := by
    unfold VMM_KERNEL_START
    exact add64_eq (by unfold wordSize; omega)
  have hSlot : add64 (cr3 + VMM_KERNEL_START) (8 * st.next) =
      VMM_KERNEL_START + (cr3 + 8 * st.next) := by
    unfold VMM_KERNEL_START
    rw [add64_eq (by unfold wordSize; omega)]
    omega
  have hStore := st.store_eq (Nat.le_add_right VMM_KERNEL_START (cr3 + 8 * st.next))
    (Nat.add_lt_add_left (by omega : cr3 + 8 * st.next < 2 ^ 31) _) entry
  rw [Nat.add_sub_cancel_left] at hStore
  rw [vmmDirectMap, hTable, hSlot, hStore, ok_bind_eq]
  dsimp only
  rw [Nat.mod_eq_of_lt (by omega)]
  rfl

/-- The entry for the first GiB. -/
theorem directMapEntry_eq (st : DmState) (hGe : VMM_KERNEL_START ≤ pages)
    (hLt : pages < VMM_KERNEL_START + 2 ^ 31) :
    ∃ entry, directMapEntry pages 0 (st, {}) 0 =
      .ok ({ st with m := movq st.m (pages - VMM_KERNEL_START) 131 }, entry) := by
  have hFirst : add64 pages (8 * (0 + 512 * 0)) = pages := by
    unfold VMM_KERNEL_START at hLt
    exact add64_eq (by unfold wordSize; omega)
  rw [directMapEntry, hFirst, st.store_eq hGe hLt]
  exact ⟨_, rfl⟩

/-- The two entries that are written. -/
theorem directMapEverything_eq (h : DirectMapReady cr3 pages st) :
    directMapEverything cr3 pages st = .ok {
      m := movq (movq st.m (pages - VMM_KERNEL_START) 131) (cr3 + 8 * 273)
        (pages - VMM_KERNEL_START + 3)
      next := 274 } := by
  obtain ⟨hNext, -, hLow, ⟨f, hf⟩, hGe, hLt, -, -⟩ := h
  have hRange : List.range 1 = [0] := rfl
  have hLink : (pages - VMM_KERNEL_START) ||| 1 ||| 2 = pages - VMM_KERNEL_START + 3 := by
    have hPage : pages - VMM_KERNEL_START = (f - VMM_KERNEL_START / 4096) * 2 ^ 12 := by
      unfold PGSIZE at hf
      unfold VMM_KERNEL_START
      omega
    rw [Nat.or_assoc, hPage]
    exact or_eq_add (k := 12) (by decide)
  have hImage : pages < VMM_KERNEL_START + 2 ^ 31 :=
    Nat.lt_of_lt_of_le hLt (Nat.add_le_add_left (by omega) _)
  obtain ⟨entry, hEntry⟩ := directMapEntry_eq st hGe hImage
  have hInner : [0].foldlM (directMapEntry pages 0) (st, {}) =
      .ok ({ st with m := movq st.m (pages - VMM_KERNEL_START) 131 }, entry) := by
    rw [List.foldlM_cons, hEntry]
    rfl
  have hOuter : directMapTable cr3 pages (st, {}) 0 = .ok ({
      m := movq (movq st.m (pages - VMM_KERNEL_START) 131) (cr3 + 8 * 273)
        (pages - VMM_KERNEL_START + 3)
      next := 274 }, entry) := by
    rw [directMapTable, hRange, hInner, ok_bind_eq]
    dsimp only
    rw [virt2phys_image hGe hImage, ok_bind_eq, hLink,
      vmmDirectMap_eq hLow (by dsimp only; omega), ok_bind_eq]
    dsimp only
    rw [hNext]
    rfl
  rw [directMapEverything, hRange, List.foldlM_cons, hOuter]
  rfl

/-- The slots of an address of the direct map. -/
theorem slot_direct {p : Nat} (hp : p < 2 ^ 39) :
    Paging.Canonical (vmmPhys2virt p) ∧ Paging.slot 3 (vmmPhys2virt p) = 273 ∧
      Paging.slot 2 (vmmPhys2virt p) = p / 2 ^ 30 ∧ vmmPhys2virt p % 2 ^ 30 = p % 2 ^ 30 := by
  rw [vmmPhys2virt_eq (by unfold dmSize; omega)]
  unfold Paging.Canonical Paging.slot Paging.width VMM_RESERVED_DM_START
  omega

/-- The table behind the new entry, and its words. -/
theorem direct_words (h : DirectMapReady cr3 pages st) :
    ∃ table, table = pages - VMM_KERNEL_START ∧ 2 ^ 12 ∣ table ∧ table < 2 ^ 30 ∧
      movq (movq st.m table 131) (cr3 + 8 * 273) (table + 3) (cr3 + 8 * 273) = table + 3 ∧
      ∀ k < 512, movq (movq st.m table 131) (cr3 + 8 * 273) (table + 3) (table + 8 * k) =
        if k = 0 then 131 else 0 := by
  obtain ⟨-, ⟨c, hc⟩, hLow, ⟨f, hf⟩, hGe, hLt, hApart, hEmpty⟩ := h
  have hPage : 2 ^ 12 ∣ pages - VMM_KERNEL_START := by
    refine ⟨f - VMM_KERNEL_START / 4096, ?_⟩
    unfold PGSIZE at hf
    unfold VMM_KERNEL_START
    omega
  obtain ⟨table, hTable⟩ : ∃ table, pages - VMM_KERNEL_START = table := ⟨_, rfl⟩
  rw [hTable] at hPage hEmpty
  have hOther : table ≠ cr3 := by omega
  have hBound : table < 2 ^ 30 := by omega
  obtain ⟨d, hd⟩ := hPage
  unfold PGSIZE at hc
  refine ⟨table, hTable.symm, ⟨d, hd⟩, hBound, Function.update_self .., ?_⟩
  -- the words of the table are not the PML4 entry
  intro k hk
  unfold movq
  rw [Function.update_of_ne (by omega)]
  by_cases hZero : k = 0
  · rw [if_pos hZero, hZero, Nat.mul_zero, Nat.add_zero, Function.update_self]
  · rw [if_neg hZero, Function.update_of_ne (by omega), hEmpty k hk]

/-- The processor's translation of the direct map. -/
theorem translate_direct (h : DirectMapReady cr3 pages st) {p : Nat} (hp : p < 2 ^ 39) :
    Paging.translate (movq (movq st.m (pages - VMM_KERNEL_START) 131) (cr3 + 8 * 273)
      (pages - VMM_KERNEL_START + 3)) cr3 (vmmPhys2virt p) =
        if p < 2 ^ 30 then some p else none := by
  obtain ⟨hCanonical, hThree, hTwo, hOffset⟩ := slot_direct hp
  obtain ⟨table, hTable, hPage, hBound, hLink, hWord⟩ := direct_words h
  have hTop : movq (movq st.m table 131) (cr3 + 8 * 273) (table + 3)
      (cr3 + 8 * Paging.slot 3 (vmmPhys2virt p)) = table + 3 := by
    rw [hThree]
    exact hLink
  rw [← hTable]
  unfold Paging.translate
  rw [if_pos hCanonical, Paging.walk_table hPage (by omega) (by omega) (by omega) hTop]
  have hEntry := hWord (p / 2 ^ 30) (by omega)
  rw [← hTwo] at hEntry
  by_cases hFirst : p < 2 ^ 30
  · have hZero : Paging.slot 2 (vmmPhys2virt p) = 0 := by omega
    have hHuge : 131 = 0 * 2 ^ Paging.width 2 + 131 := by decide
    rw [if_pos hZero] at hEntry
    rw [if_pos hFirst, Paging.walk_page 1 (by decide) (by decide) (by decide) (by decide)
      (by decide) (hEntry.trans hHuge)]
    exact congrArg some (by unfold Paging.width; omega)
  · have hMore : Paging.slot 2 (vmmPhys2virt p) ≠ 0 := by omega
    rw [if_neg hMore] at hEntry
    rw [if_neg hFirst]
    apply Paging.walk_absent
    rw [hEntry]
    decide

/-- An address of the first GiB of the direct map goes through one page of 1 GiB. -/
theorem gib_direct (h : DirectMapReady cr3 pages st) {p : Nat} (hp : p < 2 ^ 30) :
    Paging.Gib (movq (movq st.m (pages - VMM_KERNEL_START) 131) (cr3 + 8 * 273)
      (pages - VMM_KERNEL_START + 3)) cr3 (vmmPhys2virt p) := by
  obtain ⟨-, hThree, hTwo, -⟩ := slot_direct (p := p) (by omega)
  obtain ⟨table, hTable, ⟨d, hd⟩, hBound, hLink, hWord⟩ := direct_words h
  have hFrame : Paging.frame 12 (table + 3) = table := by
    rw [hd, Nat.mul_comm]
    exact Paging.frame_add (by omega) (by omega)
  have hZero : Paging.slot 2 (vmmPhys2virt p) = 0 := by omega
  have hEntry := hWord 0 (by omega)
  rw [if_pos rfl] at hEntry
  unfold Paging.Gib
  rw [← hTable, hThree, hLink, hFrame, hZero, hEntry]
  decide

end

/-! ## The memory of the allocators -/

/-- Every address of an available area is reached through the direct map. -/
def Covers (m : Nat → Nat) (cr3 : Nat) (mmap : List MmapEntry) : Prop :=
  ∀ e ∈ available mmap, ∀ p, e.addr ≤ p → p < e.addr + e.len →
    Paging.translate m cr3 (vmmPhys2virt p) = some p ∧ vmmVirt2phys (vmmPhys2virt p) = .ok p

theorem directMap_iff {cr3 pages : Nat} {st : DmState} {mmap : List MmapEntry}
    (h : DirectMapReady cr3 pages st) (hLimit : ∀ e ∈ available mmap, e.addr + e.len ≤ 2 ^ 39) :
    ∃ st', directMapEverything cr3 pages st = .ok st' ∧
      (Covers st'.m cr3 mmap ↔ ∀ e ∈ available mmap, 0 < e.len → e.addr + e.len ≤ 2 ^ 30) := by
  refine ⟨_, directMapEverything_eq h, ?_⟩
  constructor
  · intro hCovers e he hLen
    have hEnd := hLimit e he
    by_contra hMore
    have hLast := (hCovers e he (e.addr + e.len - 1) (by omega) (by omega)).1
    dsimp only at hLast
    rw [translate_direct h (by omega), if_neg (by omega)] at hLast
    cases hLast
  · intro hFirst e he p hStart hStop
    have hEnd := hFirst e he (by omega)
    refine ⟨?_, vmmVirt2phys_phys2virt (by unfold dmSize; omega)⟩
    dsimp only
    rw [translate_direct h (by omega), if_pos (by omega)]

/-- An image with the PML4 table at `0x103000` and the array at `0x120000`. -/
def directMapStart : DmState := { m := fun _ => 0 }

theorem directMapStart_ready :
    DirectMapReady 0x103000 (VMM_KERNEL_START + 0x120000) directMapStart where
  first := rfl
  cr3_page := by decide
  cr3_low := by decide
  pages_page := by decide
  pages_ge := by decide
  pages_lt := by decide
  apart := by decide
  empty _ _ := rfl

theorem directMap_sample : ∃ st',
    directMapEverything 0x103000 (VMM_KERNEL_START + 0x120000) directMapStart = .ok st' ∧
      (Covers st'.m 0x103000 roomyMap ↔
        ∀ e ∈ available roomyMap, 0 < e.len → e.addr + e.len ≤ 2 ^ 30) :=
  directMap_iff directMapStart_ready (by decide)

/-- 4 MiB at 1 GiB are not mapped. -/
theorem second_gib_unmapped : ∃ st',
    DirectMapReady 0x103000 (VMM_KERNEL_START + 0x120000) directMapStart ∧
    directMapEverything 0x103000 (VMM_KERNEL_START + 0x120000) directMapStart = .ok st' ∧
    vmmPhys2virt 0x40000000 = 0xffff888040000000 ∧
    Paging.translate st'.m 0x103000 0xffff888040000000 = none ∧
    ¬ Covers st'.m 0x103000 [⟨0x40000000, 0x400000, 1⟩] := by
  refine ⟨_, directMapStart_ready, directMapEverything_eq directMapStart_ready, ?_⟩
  have hNone := translate_direct directMapStart_ready (p := 0x40000000) (by decide)
  rw [if_neg (by decide)] at hNone
  refine ⟨by decide, hNone, fun h => ?_⟩
  have hMap := (h ⟨0x40000000, 0x400000, 1⟩ (by decide) 0x40000000 (by decide) (by decide)).1
  dsimp only at hMap
  rw [hNone] at hMap
  cases hMap

end LunarOS
