import LunarOS.Cpu.Apic
import LunarOS.Multiboot.Report
import LunarOS.Page.Log
import LunarOS.Vmm.DirectMap

/-!
# The kernel from `main` on (`main.c`, `mm.c`)

`main` runs the initialisations in order. `main_ends` puts together what each of them does on its
own: for every machine and every boot information that a boot loader can write, which of the
endings is reached and what has been printed by then. Page maps and arenas are reached through
the tables that `direct_map_everything` leaves, so a page that these do not map ends the run in a
page fault. `main` comes back to `_start64` only when the magic number is wrong.
-/

namespace LunarOS

open Logic

def MULTIBOOT2_BOOTLOADER_MAGIC : Nat := 0x36d76289

/-- What `main` finds: the processor, the table in `%cr3` and the array `pages` with the memory
they are in, the table for `vmm_init`, and the memory of the allocators. -/
structure Machine where
  cpuid : Cpuid
  msrs : Msrs
  cr3 : Nat
  dmPages : Nat
  dm : DmState
  table : Nat → Nat
  pages : PageState
  areas : Nat → MemArea
  irq : IrqState

/-- Pages of 1 GiB: bit 26 of `%edx` of leaf `0x80000001`. -/
def hasGibPages (c : Cpuid) : Bool :=
  match c.get 0x80000001 with
  | some r => r.edx.getLsbD 26
  | none => false

/-- The pages that the tables map. A processor without pages of 1 GiB faults at their entries. -/
def Machine.maps (k : Machine) (dm : DmState) (page : Nat) : Bool :=
  (Paging.translate dm.m k.cr3 (page * PGSIZE)).isSome &&
    (hasGibPages k.cpuid || !decide (Paging.Gib dm.m k.cr3 (page * PGSIZE)))

/-- The memory of the allocators as the tables show it: a list node is where they map both of its
words. -/
def PageState.through (st : PageState) (mapped : Nat → Bool) : PageState :=
  let st := { st with mapped }
  { st with m := { st.m with heap := fun a => if st.reaches a 16 then st.m.heap a else none } }

/-- The direct map, the window, and the page allocator. -/
def mmInit (k : Machine) (areasAt : Nat) (areas : List MemArea) (physoff : Nat) :
    Logged Machine := do
  let dm ← Logged.lift (directMapEverything k.cr3 k.dmPages k.dm)
  let vm := vmmInit k.table
  let pages ← Logged.pageInit (k.pages.through (k.maps dm)) areasAt areas physoff
  pure { k with dm, pages, irq := { k.irq with vm } }

/-- The screen is cleared by `cls`; what follows is what is put on it. -/
def main (k : Machine) (magic : Nat) (addr : BootInfo) (physoff fuel : Nat) : Logged Machine :=
  if magic ≠ MULTIBOOT2_BOOTLOADER_MAGIC then do
    Logged.puts "Invalid multiboot2 magic number"
    pure k
  else do
    Logged.puts "LunarOS Kernel\n"
    let physoff := alignTo physoff 8
    let (cpu, msrs) ← cpuInit k.cpuid k.msrs
    Writer.tell (← Logged.lift (addr.multibootParseInfo fuel))
    let p ← Logged.lift (addr.multibootParseMmap k.pages.reserved k.areas fuel)
    let k := { k with msrs, pages := { k.pages with reserved := p.reserved } }
    let k ← mmInit k p.areasAt ((List.range p.sz).map p.areas) physoff
    let irq ← irqInit msrs cpu k.irq
    pure { k with irq }

/-! ## Endings -/

section

variable (k : Machine) (tags : List Tag) (physoff : Nat)

/-- What is printed before the memory map is looked at. -/
def kernelText : List Char :=
  "LunarOS Kernel\n".toList ++ (vendorLine k.cpuid ++ tags.flatMap Tag.report)

/-- The entries of all memory maps. -/
def entriesOf : List MmapEntry := tags.flatMap Tag.entries

def irqMessage : String :=
  if ApicFound k.msrs (cpuGetinfo k.cpuid) k.irq then "Failed to setup interrupts"
  else "Failed to init lapic"

/-- The memory of the allocators behind `direct_map_everything`. -/
def Machine.seen (k : Machine) : PageState :=
  match directMapEverything k.cr3 k.dmPages k.dm with
  | .ok dm => k.pages.through (k.maps dm)
  | .error _ => k.pages

/-- How `main` ends, in the order in which things can go wrong. -/
inductive MainEnds (magic : Nat) : Logged Machine → Prop
  | magic : magic ≠ MULTIBOOT2_BOOTLOADER_MAGIC →
      MainEnds magic ⟨"Invalid multiboot2 magic number".toList, .ok k⟩
  | feature {f : Feature} : magic = MULTIBOOT2_BOOTLOADER_MAGIC → f.FirstMissing k.cpuid →
      MainEnds magic (.panicked ("LunarOS Kernel\n".toList ++ vendorLine k.cpuid) f.message)
  | ranges : magic = MULTIBOOT2_BOOTLOADER_MAGIC → (∀ f : Feature, f.has k.cpuid = true) →
      vcnt k.msrs < 10 →
        MainEnds magic ⟨"LunarOS Kernel\n".toList ++ vendorLine k.cpuid, .error .protection⟩
  | noAreas : magic = MULTIBOOT2_BOOTLOADER_MAGIC → CpuReady k.cpuid k.msrs →
      k.pages.reserved.available < arrayBytes (entriesOf tags) →
        MainEnds magic (.panicked (kernelText k tags) "Not enough memory\n")
  | noMap {before after : List MmapEntry} {e : MmapEntry} : magic = MULTIBOOT2_BOOTLOADER_MAGIC →
      CpuReady k.cpuid k.msrs → arrayBytes (entriesOf tags) ≤ k.pages.reserved.available →
        available (entriesOf tags) = before ++ e :: after →
          (∀ e ∈ before, GetsMap k.seen (alignTo physoff 8) e) →
            e.len < e.used (alignTo physoff 8) →
              MainEnds magic (.panicked (kernelText k tags ++ (sizeLines (entriesOf tags) ++
                before.flatMap (MmapEntry.mapLine · (alignTo physoff 8))))
                  "Cannot allocate memory map\n")
  | noRecord {before after : List MmapEntry} {e : MmapEntry} {j : Nat} :
      magic = MULTIBOOT2_BOOTLOADER_MAGIC → CpuReady k.cpuid k.msrs →
        arrayBytes (entriesOf tags) ≤ k.pages.reserved.available →
          available (entriesOf tags) = before ++ e :: after →
            (∀ e ∈ before, GetsMap k.seen (alignTo physoff 8) e) →
              e.used (alignTo physoff 8) ≤ e.len → j < e.pages (alignTo physoff 8) →
                k.seen.reaches ((e.mapped (alignTo physoff 8)).record j) Page.size = false →
                  MainEnds magic (.faulted (kernelText k tags ++ (sizeLines (entriesOf tags) ++
                    before.flatMap (MmapEntry.mapLine · (alignTo physoff 8))))
                      (.unmapped ((e.mapped (alignTo physoff 8)).record j)))
  | noBuddy {before after : List MmapEntry} {e : MmapEntry} :
      magic = MULTIBOOT2_BOOTLOADER_MAGIC → CpuReady k.cpuid k.msrs →
        (∀ e ∈ available (entriesOf tags), GetsMap k.seen (alignTo physoff 8) e) →
          available (entriesOf tags) = before ++ e :: after →
            (∀ e ∈ before, BUDDY_MAX_SIZE ≤ e.len → HasArena k.seen (alignTo physoff 8) e) →
              BUDDY_MAX_SIZE ≤ e.len →
                takenBytes (entriesOf tags) before ≤ k.pages.reserved.available →
                  k.pages.reserved.available < takenBytes (entriesOf tags) before + buddyBytes →
                    MainEnds magic (.panicked (kernelText k tags ++
                      (mapText (entriesOf tags) (alignTo physoff 8) ++
                        "[ERROR] Not enough memory for buddy".toList))
                          "Not enough reserved memory to bootstrap the page allocator!\n")
  | noArena {before after : List MmapEntry} {e : MmapEntry} :
      magic = MULTIBOOT2_BOOTLOADER_MAGIC → CpuReady k.cpuid k.msrs →
        (∀ e ∈ available (entriesOf tags), GetsMap k.seen (alignTo physoff 8) e) →
          available (entriesOf tags) = before ++ e :: after →
            (∀ e ∈ before, BUDDY_MAX_SIZE ≤ e.len → HasArena k.seen (alignTo physoff 8) e) →
              BUDDY_MAX_SIZE ≤ e.len →
                takenBytes (entriesOf tags) before + buddyBytes ≤ k.pages.reserved.available →
                  ¬ HasArena k.seen (alignTo physoff 8) e →
                    MainEnds magic (.faulted (kernelText k tags ++
                      mapText (entriesOf tags) (alignTo physoff 8))
                        (.list (vmmPhys2virt (e.arena (alignTo physoff 8)))))
  | interrupts : magic = MULTIBOOT2_BOOTLOADER_MAGIC → CpuReady k.cpuid k.msrs →
      bootBytes (entriesOf tags) ≤ k.pages.reserved.available →
        (∀ e ∈ available (entriesOf tags), GetsMap k.seen (alignTo physoff 8) e) →
          (∀ e ∈ available (entriesOf tags), BUDDY_MAX_SIZE ≤ e.len →
            HasArena k.seen (alignTo physoff 8) e) →
              MainEnds magic (.panicked (kernelText k tags ++
                (mapText (entriesOf tags) (alignTo physoff 8) ++
                  ("[DEBUG] Page Allocator initialized\n".toList ++ apicLines k.msrs)))
                    (irqMessage k))

/-- What the boot code and the linker see to. -/
structure Started : Prop where
  directMap : DirectMapReady k.cr3 k.dmPages k.dm
  boot : Bootable k.pages (entriesOf tags) (alignTo physoff 8)
  /-- the arenas are memory -/
  nodes : ∀ e ∈ available (entriesOf tags), BUDDY_MAX_SIZE ≤ e.len →
    (k.pages.m.heap (vmmPhys2virt (e.arena (alignTo physoff 8)))).isSome

end

/-! ## The parts -/

section

variable {k : Machine} {tags : List Tag} {physoff : Nat}

theorem cpuSetupmem_apic {msrs msrs' : Msrs} (h : cpuSetupmem msrs = some msrs') :
    rdmsr msrs' IA32_APIC_BASE = rdmsr msrs IA32_APIC_BASE := by
  unfold rdmsr
  rw [cpuSetupmem_other h (by decide) (by decide)]

/-- `irq_init` with the window that `vmm_init` has set up. -/
theorem irqInit_machine {msrs' : Msrs} (h : cpuSetupmem k.msrs = some msrs') :
    irqInit msrs' (cpuGetinfo k.cpuid) { k.irq with vm := vmmInit k.table } =
      .panicked (apicLines k.msrs) (irqMessage k) := by
  have hSame := cpuSetupmem_apic h
  have hLines : apicLines msrs' = apicLines k.msrs := by
    unfold apicLines
    rw [hSame]
  have hFound : ApicFound msrs' (cpuGetinfo k.cpuid) { k.irq with vm := vmmInit k.table } ↔
      ApicFound k.msrs (cpuGetinfo k.cpuid) k.irq := by
    unfold ApicFound
    rw [hSame]
  have hRoom : add64 (vmmInit k.table).size 1 ≤ VM_AREA_MAX := by
    change add64 0 1 ≤ 512
    decide
  unfold irqMessage
  by_cases hApic : ApicFound k.msrs (cpuGetinfo k.cpuid) k.irq
  · rw [irqInit_of_zero (irqInitArch_found (hFound.mpr hApic) hRoom), hLines, if_pos hApic]
  · unfold irqInit
    rw [irqInitArch_missing (mt hFound.mp hApic), Logged.panicked_bind, hLines, if_neg hApic]

/-- What the tables show does not depend on the reserved area, nor on the registers. -/
theorem seen_reserved (k : Machine) (h : DirectMapReady k.cr3 k.dmPages k.dm) (msrs : Msrs)
    (reserved : Reserved) :
    ({ k with msrs, pages := { k.pages with reserved } } : Machine).seen =
      { k.seen with reserved } := by
  unfold Machine.seen
  dsimp only
  rw [directMapEverything_eq h]
  rfl

theorem seen_left (h : DirectMapReady k.cr3 k.dmPages k.dm) :
    k.seen.reserved = k.pages.reserved := by
  unfold Machine.seen
  rw [directMapEverything_eq h]
  rfl

/-- The pages of the direct map up to 512 GiB: the first GiB, and no others. -/
theorem seen_direct (h : DirectMapReady k.cr3 k.dmPages k.dm) {p : Nat} (hp : p < 2 ^ 39) :
    k.seen.mapped (vmmPhys2virt p / PGSIZE) = (hasGibPages k.cpuid && decide (p < 2 ^ 30)) := by
  have hPage : vmmPhys2virt p / PGSIZE * PGSIZE = vmmPhys2virt (p / PGSIZE * PGSIZE) := by
    unfold PGSIZE
    rw [vmmPhys2virt_eq (by unfold dmSize; omega), vmmPhys2virt_eq (by unfold dmSize; omega)]
    unfold VMM_RESERVED_DM_START
    omega
  have hFirst : p / PGSIZE * PGSIZE < 2 ^ 30 ↔ p < 2 ^ 30 := by
    unfold PGSIZE
    omega
  have hLow : p / PGSIZE * PGSIZE < 2 ^ 39 := by
    unfold PGSIZE
    omega
  unfold Machine.seen
  rw [directMapEverything_eq h]
  change k.maps _ _ = _
  unfold Machine.maps
  rw [hPage, translate_direct h hLow]
  by_cases hLess : p < 2 ^ 30
  · have hGib := gib_direct h (hFirst.mpr hLess)
    rw [if_pos (hFirst.mpr hLess), decide_eq_true hGib, decide_eq_true hLess]
    simp
  · rw [if_neg (mt hFirst.mp hLess), decide_eq_false hLess]
    simp

/-- A small object in the direct map. -/
theorem seen_reaches (h : DirectMapReady k.cr3 k.dmPages k.dm) {p n : Nat} (hPos : 0 < n)
    (hp : p + n ≤ 2 ^ 39) : k.seen.reaches (vmmPhys2virt p) n = true ↔
      hasGibPages k.cpuid = true ∧ p + n ≤ 2 ^ 30 := by
  have hLast : add64 (vmmPhys2virt p) (n - 1) = vmmPhys2virt (p + (n - 1)) := by
    rw [vmmPhys2virt_eq (by unfold dmSize; omega), vmmPhys2virt_eq (by unfold dmSize; omega),
      add64_eq (by unfold VMM_RESERVED_DM_START wordSize; omega)]
    omega
  unfold PageState.reaches
  rw [hLast, seen_direct h (by omega), seen_direct h (by omega)]
  simp only [Bool.and_eq_true, decide_eq_true_eq]
  constructor
  · rintro ⟨⟨hGib, -⟩, -, hEnd⟩
    exact ⟨hGib, by omega⟩
  · rintro ⟨hGib, hEnd⟩
    exact ⟨⟨hGib, by omega⟩, hGib, by omega⟩

/-- The records of an entry that ends below 512 GiB can be cleared when they lie in the first GiB
and the processor has pages of 1 GiB. -/
theorem clearable_iff (h : DirectMapReady k.cr3 k.dmPages k.dm) {e : MmapEntry} {poff : Nat}
    (hSome : 0 < e.pages poff) (hEnd : e.start poff + e.pages poff * Page.size ≤ 2 ^ 39) :
    Clearable k.seen (e.mapped poff) ↔
      hasGibPages k.cpuid = true ∧ e.start poff + e.pages poff * Page.size ≤ 2 ^ 30 := by
  have hRecord : ∀ j < e.pages poff, (e.mapped poff).record j =
      vmmPhys2virt (e.start poff + j * Page.size) := by
    intro j hj
    unfold MemArea.record MmapEntry.mapped
    dsimp only
    unfold Page.size at hEnd ⊢
    rw [vmmPhys2virt_eq (by unfold dmSize; omega), vmmPhys2virt_eq (by unfold dmSize; omega),
      mul64_eq (by unfold wordSize; omega),
      add64_eq (by unfold VMM_RESERVED_DM_START wordSize; omega)]
    omega
  have hEach : ∀ j < e.pages poff, (k.seen.reaches ((e.mapped poff).record j) Page.size = true ↔
      hasGibPages k.cpuid = true ∧ e.start poff + (j + 1) * Page.size ≤ 2 ^ 30) := by
    intro j hj
    unfold Page.size at hEnd ⊢
    rw [hRecord j hj, Page.size, seen_reaches h (by omega) (by omega), Nat.add_mul, Nat.one_mul,
      Nat.add_assoc]
  unfold Page.size at *
  constructor
  · intro hAll
    obtain ⟨hGib, hLast⟩ := (hEach (e.pages poff - 1) (by omega)).mp (hAll _ (by
      change e.pages poff - 1 < e.pages poff
      omega))
    exact ⟨hGib, by omega⟩
  · rintro ⟨hGib, hLast⟩ j hj
    have hj' : j < e.pages poff := hj
    exact (hEach j hj').mpr ⟨hGib, by omega⟩

/-- The same for the first node of an arena. -/
theorem hasArena_iff (h : Started k tags physoff) {e : MmapEntry}
    (he : e ∈ available (entriesOf tags)) (hLong : BUDDY_MAX_SIZE ≤ e.len)
    (hEnd : e.arena (alignTo physoff 8) + 16 ≤ 2 ^ 39) :
    HasArena k.seen (alignTo physoff 8) e ↔
      hasGibPages k.cpuid = true ∧ e.arena (alignTo physoff 8) + 16 ≤ 2 ^ 30 := by
  have hNode := h.nodes e he hLong
  have hHeap : k.seen.m.heap (vmmPhys2virt (e.arena (alignTo physoff 8))) =
      if k.seen.reaches (vmmPhys2virt (e.arena (alignTo physoff 8))) 16 then
        k.pages.m.heap (vmmPhys2virt (e.arena (alignTo physoff 8))) else none := by
    unfold Machine.seen
    rw [directMapEverything_eq h.directMap]
    rfl
  unfold HasArena
  rw [hHeap, ← seen_reaches h.directMap (by omega) hEnd]
  split
  · next hIn => exact iff_of_true hNode hIn
  · next hOut => exact iff_of_false (by simp) hOut

/-- From `mm_init` on, when it is known how `irq_init` ends. -/
theorem mmInit_irqInit (h : DirectMapReady k.cr3 k.dmPages k.dm) {msrs : Msrs} {cpu : Cpu}
    {out : List Char} {message : String}
    (hIrq : irqInit msrs cpu { k.irq with vm := vmmInit k.table } = .panicked out message)
    (areasAt : Nat) (areas : List MemArea) :
    (mmInit k areasAt areas physoff >>= fun k => irqInit msrs cpu k.irq >>= fun irq =>
      pure { k with irq }) =
    Logged.pageInit k.seen areasAt areas physoff >>= fun _ => Logged.panicked out message := by
  unfold mmInit Machine.seen
  rw [directMapEverything_eq h, Logged.lift_ok, Writer.pure_bind, Writer.bind_assoc]
  simp only [Writer.pure_bind, hIrq, Logged.panicked_bind]

/-- With the right magic number, on a processor that is ready. -/
theorem main_ready (hTags : (encode tags).length < 2 ^ 32) (hReady : CpuReady k.cpuid k.msrs)
    (hDirect : DirectMapReady k.cr3 k.dmPages k.dm) :
    main k MULTIBOOT2_BOOTLOADER_MAGIC (.ofBytes (encode tags)) physoff
        ((BootInfo.ofBytes (encode tags)).totalSize + 1) =
      Writer.tell (kernelText k tags) >>= fun _ =>
        Logged.lift ((BootInfo.ofBytes (encode tags)).multibootParseMmap k.pages.reserved k.areas
          ((BootInfo.ofBytes (encode tags)).totalSize + 1)) >>= fun p =>
        Logged.pageInit { k.seen with reserved := p.reserved } p.areasAt
          ((List.range p.sz).map p.areas) (alignTo physoff 8) >>= fun _ =>
        Logged.panicked (apicLines k.msrs) (irqMessage k) := by
  obtain ⟨msrs', hSetup, hCpu⟩ := cpuInit_ready hReady
  have hIrq := irqInit_machine hSetup
  have hRest : ∀ p : BootInfo.Parsed, (mmInit { k with
        msrs := msrs', pages := { k.pages with reserved := p.reserved } } p.areasAt
      ((List.range p.sz).map p.areas) (alignTo physoff 8) >>= fun k' =>
        irqInit msrs' (cpuGetinfo k.cpuid) k'.irq >>= fun irq => pure { k' with irq }) =
      Logged.pageInit { k.seen with reserved := p.reserved } p.areasAt
        ((List.range p.sz).map p.areas) (alignTo physoff 8) >>= fun _ =>
          Logged.panicked (apicLines k.msrs) (irqMessage k) := by
    intro p
    rw [← seen_reserved k hDirect msrs' p.reserved]
    apply mmInit_irqInit
    · exact hDirect
    · exact hIrq
  unfold main kernelText
  rw [if_neg (not_not.mpr rfl), hCpu, multibootParseInfo_encode hTags, Logged.lift_ok,
    Writer.tell_append, Writer.tell_append]
  simp only [Logged.puts, Writer.mk_bind, Writer.pure_bind, hRest]

/-- What is left of `main` once the array of areas is there. -/
def bootRest (k : Machine) (tags : List Tag) (physoff : Nat) : Logged Machine :=
  Writer.tell (kernelText k tags) >>= fun _ =>
    Logged.bootPages (k.seen.handOut (arrayBytes (entriesOf tags))) k.pages.reserved.base
      (entriesOf tags) (alignTo physoff 8) >>= fun _ =>
    Logged.panicked (apicLines k.msrs) (irqMessage k)

theorem main_mapped (hTags : (encode tags).length < 2 ^ 32) (hReady : CpuReady k.cpuid k.msrs)
    (h : Started k tags physoff)
    (hRoom : arrayBytes (entriesOf tags) ≤ k.pages.reserved.available) :
    main k MULTIBOOT2_BOOTLOADER_MAGIC (.ofBytes (encode tags)) physoff
      ((BootInfo.ofBytes (encode tags)).totalSize + 1) = bootRest k tags physoff := by
  have hMmap : (BootInfo.ofBytes (encode tags)).mmap (offsets 8 tags) = entriesOf tags :=
    mmap_encode hTags
  have hSeen : k.seen.handOut (arrayBytes (entriesOf tags)) = { k.seen with reserved :=
      ⟨k.pages.reserved.base + arrayBytes (entriesOf tags),
        k.pages.reserved.available - arrayBytes (entriesOf tags)⟩ } := by
    unfold PageState.handOut
    rw [seen_left h.directMap]
  unfold bootRest
  rw [hSeen]
  rw [← hMmap] at hRoom ⊢
  obtain ⟨p, hParse, hAt, hAreas, hLeft⟩ :=
    parse_takes (encode_laid hTags) k.areas h.boot.reserved_le hRoom
  rw [main_ready hTags hReady h.directMap, hParse, Logged.lift_ok, Writer.pure_bind, hAt, hAreas,
    hLeft]
  rfl

theorem main_full (hTags : (encode tags).length < 2 ^ 32) (hReady : CpuReady k.cpuid k.msrs)
    (h : Started k tags physoff)
    (hFull : k.pages.reserved.available < arrayBytes (entriesOf tags)) :
    main k MULTIBOOT2_BOOTLOADER_MAGIC (.ofBytes (encode tags)) physoff
        ((BootInfo.ofBytes (encode tags)).totalSize + 1) =
      .panicked (kernelText k tags) "Not enough memory\n" := by
  have hMmap : (BootInfo.ofBytes (encode tags)).mmap (offsets 8 tags) = entriesOf tags :=
    mmap_encode hTags
  have hPlain : Item.plain "Not enough memory\n" = true := rfl
  rw [← hMmap] at hFull
  rw [main_ready hTags hReady h.directMap, (encode_laid hTags).parse_full k.areas hFull,
    Logged.lift_panic hPlain, Logged.panicked_bind, Logged.tell_panicked, List.append_nil]

section

variable (hReady : CpuReady k.cpuid k.msrs) (h : Started k tags physoff)
  (hRoom : arrayBytes (entriesOf tags) ≤ k.pages.reserved.available)
include hReady h hRoom

/-- The first area without a map. -/
theorem bootRest_maps
    (hMaps : ¬ ∀ e ∈ available (entriesOf tags), GetsMap k.seen (alignTo physoff 8) e) :
    MainEnds k tags physoff MULTIBOOT2_BOOTLOADER_MAGIC (bootRest k tags physoff) := by
  obtain ⟨hPhys, -⟩ := h.boot
  obtain ⟨before, e, after, hSplit, hBefore, hNot⟩ := first_failure hMaps
  unfold bootRest
  by_cases hFits : e.used (alignTo physoff 8) ≤ e.len
  · obtain ⟨j, hj, hFails, hBoot⟩ := Logged.bootPages_faults
      (k.seen.handOut (arrayBytes (entriesOf tags))) k.pages.reserved.base hPhys hSplit hBefore
      hFits fun hClear => hNot ⟨hFits, hClear⟩
    rw [hBoot, Logged.faulted_bind, Logged.tell_faulted]
    exact .noRecord rfl hReady hRoom hSplit hBefore hFits hj hFails
  · have hLess := Nat.lt_of_not_le hFits
    rw [Logged.bootPages_refused (k.seen.handOut (arrayBytes (entriesOf tags)))
      k.pages.reserved.base hPhys hSplit hBefore hLess, Logged.panicked_bind, Logged.tell_panicked]
    exact .noMap rfl hReady hRoom hSplit hBefore hLess

/-- All areas have a map: the first without a buddy decides, if there is one. -/
theorem bootRest_buddies
    (hMaps : ∀ e ∈ available (entriesOf tags), GetsMap k.seen (alignTo physoff 8) e) :
    MainEnds k tags physoff MULTIBOOT2_BOOTLOADER_MAGIC (bootRest k tags physoff) := by
  obtain ⟨hPhys, -, -, hBase, hEnd⟩ := h.boot
  have hLeft : (k.seen.handOut (arrayBytes (entriesOf tags))).reserved =
      ⟨k.pages.reserved.base + arrayBytes (entriesOf tags),
        k.pages.reserved.available - arrayBytes (entriesOf tags)⟩ := by
    unfold PageState.handOut
    rw [seen_left h.directMap]
  unfold bootRest
  rcases all_buddies (HasArena k.seen (alignTo physoff 8)) hRoom with ⟨hEnough, hArenas⟩ |
    ⟨before, e, after, hSplit, hArenas, hLong, hTaken, hFull | ⟨hEnough, hNone⟩⟩
  · obtain ⟨st', hBoot⟩ := Logged.bootPages_completes hLeft hPhys hBase hEnd hRoom hMaps hEnough
      hArenas
    rw [hBoot, Writer.mk_bind, Logged.tell_panicked, Logged.tell_panicked, List.append_assoc]
    exact .interrupts rfl hReady hEnough hMaps hArenas
  · rw [Logged.bootPages_exhausts hLeft hPhys hBase hEnd hRoom hMaps hSplit hArenas hTaken hLong
      hFull, Logged.panicked_bind, Logged.tell_panicked]
    exact .noBuddy rfl hReady hMaps hSplit hArenas hLong hTaken hFull
  · rw [Logged.bootPages_absent hLeft hPhys hBase hEnd hRoom hMaps hSplit hArenas hTaken hLong
      hEnough hNone, Logged.faulted_bind, Logged.tell_faulted]
    exact .noArena rfl hReady hMaps hSplit hArenas hLong hEnough hNone

end

/-- What `main` prints, and how it ends, on a processor that is ready. -/
theorem main_boots (hTags : (encode tags).length < 2 ^ 32) (hReady : CpuReady k.cpuid k.msrs)
    (h : Started k tags physoff) :
    MainEnds k tags physoff MULTIBOOT2_BOOTLOADER_MAGIC
      (main k MULTIBOOT2_BOOTLOADER_MAGIC (.ofBytes (encode tags)) physoff
        ((BootInfo.ofBytes (encode tags)).totalSize + 1)) := by
  by_cases hRoom : arrayBytes (entriesOf tags) ≤ k.pages.reserved.available
  · rw [main_mapped hTags hReady h hRoom]
    by_cases hMaps : ∀ e ∈ available (entriesOf tags), GetsMap k.seen (alignTo physoff 8) e
    · exact bootRest_buddies hReady h hRoom hMaps
    · exact bootRest_maps hReady h hRoom hMaps
  · rw [main_full hTags hReady h (Nat.lt_of_not_le hRoom)]
    exact .noAreas rfl hReady (Nat.lt_of_not_le hRoom)

/-- On any other processor it gets as far as `cpu_init`. -/
theorem main_unready (addr : BootInfo) (fuel : Nat) {out : List Char} {e : Halt}
    (hCpu : cpuInit k.cpuid k.msrs = ⟨out, .error e⟩) :
    main k MULTIBOOT2_BOOTLOADER_MAGIC addr physoff fuel =
      ⟨"LunarOS Kernel\n".toList ++ out, .error e⟩ := by
  unfold main
  rw [if_neg (not_not.mpr rfl), hCpu]
  simp only [Logged.puts, Writer.mk_error_bind, Writer.tell_bind]

end

/-- The whole run, on every machine and for every list of tags. -/
theorem main_ends {k : Machine} {tags : List Tag} {physoff : Nat} (magic : Nat)
    (hTags : (encode tags).length < 2 ^ 32) (h : Started k tags physoff) :
    MainEnds k tags physoff magic (main k magic (.ofBytes (encode tags)) physoff
      ((BootInfo.ofBytes (encode tags)).totalSize + 1)) := by
  by_cases hMagic : magic = MULTIBOOT2_BOOTLOADER_MAGIC
  · subst hMagic
    rcases Feature.firstMissing_or k.cpuid with hAll | ⟨f, hMissing⟩
    · by_cases hMany : 10 ≤ vcnt k.msrs
      · exact main_boots hTags ⟨hAll, hMany⟩ h
      · have hFew := Nat.lt_of_not_le hMany
        rw [main_unready _ _ (cpuInit_ranges hAll hFew)]
        exact .ranges rfl hAll hFew
    · rw [main_unready _ _ (cpuInit_missing hMissing), ← List.append_assoc]
      exact .feature rfl hMissing
  · unfold main
    rw [if_pos hMagic, Logged.puts, Writer.tell_bind, Writer.pure_eq, List.append_nil]
    exact .magic hMagic

/-- A processor that answers up to the highest leafs with the given registers. -/
def Cpuid.table (max : BitVec 32 → BitVec 32) (regs : BitVec 32 → CpuidRegs) : Cpuid where
  max := max
  get leaf :=
    if max (leaf &&& 0x80000000) ≠ 0 ∧ leaf ≤ max (leaf &&& 0x80000000) then some (regs leaf)
    else none
  answers leaf := by
    split
    · next h => exact ⟨fun _ => h, fun _ => rfl⟩
    · next h => exact ⟨fun hNone => absurd hNone (by simp), fun hAll => absurd hAll h⟩

/-- A machine with all features, the APIC where it is looked for, and 4 MiB at 1 MiB. -/
def sampleMachine : Machine where
  cpuid := .table (fun range => if range = 0 then 1 else 0x80000008) fun leaf =>
    if leaf = 0 then ⟨1, 0x756E6547, 0x6C65746E, 0x49656E69⟩
    else if leaf = 1 then ⟨0, 0, 0, 0x11200⟩
    else if leaf = 0x80000001 then ⟨0, 0, 0, 0x4000000⟩
    else ⟨0x3024, 0, 0, 0⟩
  msrs reg := if reg = IA32_APIC_BASE then 0xFEE00900 else if reg = IA32_MTRRCAP then 0x50A else 0
  cr3 := 0x200000
  dmPages := VMM_KERNEL_START + 0x300000
  dm := { m := fun _ => 0 }
  table _ := 0
  pages := bootState
  areas _ := ⟨0, 0, 0, 0, 0, 0⟩
  irq := { vm := vmmInit fun _ => 0 }

theorem sampleMachine_started : Started sampleMachine roomyTags 0x10000 where
  directMap := ⟨rfl, ⟨0x200, rfl⟩, Nat.le_of_ble_eq_true rfl, ⟨0xffff800000300, rfl⟩,
    Nat.le_add_right .., Nat.le_of_ble_eq_true rfl, Nat.ne_of_gt (Nat.le_of_ble_eq_true rfl),
    fun _ _ => rfl⟩
  boot := roomyMap_bootable
  nodes e he _ := by
    obtain rfl : e = ⟨0x100000, 0x400000, 1⟩ := List.mem_singleton.mp he
    decide +kernel

example : irqMessage sampleMachine = "Failed to setup interrupts" := by decide

end LunarOS
