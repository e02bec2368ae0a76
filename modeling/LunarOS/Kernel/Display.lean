import LunarOS.Kernel.Main
import LunarOS.Tty.Screen

/-!
# The boot on the screen

`main` clears the screen and prints through `putchar`. With seven-bit strings from the processor
and the boot loader, all that it prints is seven-bit text (`main_sevenBit`), so that the screen
shows the text of `MainEnds` at every moment of the boot (`main_run`).
-/

namespace LunarOS

open Logic

/-- The strings that are printed. -/
def Tag.SevenBit : Tag → Prop
  | .cmdline string => ∀ c ∈ string.chars, LunarOS.SevenBit c
  | .bootLoaderName string => ∀ c ∈ string.chars, LunarOS.SevenBit c
  | .module _ _ string => ∀ c ∈ string.chars, LunarOS.SevenBit c
  | _ => True

theorem sevenBit_append {l l' : List Char} (h : ∀ c ∈ l, SevenBit c) (h' : ∀ c ∈ l', SevenBit c) :
    ∀ c ∈ l ++ l', SevenBit c := List.forall_mem_append.mpr ⟨h, h'⟩

theorem sevenBit_flatMap {α : Type} {xs : List α} {f : α → List Char}
    (h : ∀ x ∈ xs, ∀ c ∈ f x, SevenBit c) : ∀ c ∈ xs.flatMap f, SevenBit c := by
  intro c hc
  obtain ⟨x, hx, hc⟩ := List.mem_flatMap.mp hc
  exact h x hx c hc

theorem sevenBit_toDigits {base : Nat} (hMin : 1 < base) (hMax : base ≤ 16) (n : Nat) :
    ∀ c ∈ Nat.toDigits base n, SevenBit c := by
  intro c hc
  obtain ⟨d, hd, rfl⟩ := mem_toDigits hMin hc
  exact sevenBit_digitChar (Nat.lt_of_lt_of_le hd hMax)

theorem sevenBit_hex (n : Nat) : ∀ c ∈ hex n, SevenBit c := by
  apply sevenBit_append (@sevenBit_of_all ['0', 'x'] (by decide))
  exact sevenBit_toDigits (by omega) (by omega) n

theorem MmapEntry.sevenBit_report (e : MmapEntry) : ∀ c ∈ e.report, SevenBit c := by
  unfold MmapEntry.report
  apply sevenBit_append (sevenBit_of_all (by decide))
  apply sevenBit_append (sevenBit_hex _)
  apply sevenBit_append (sevenBit_of_all (by decide))
  apply sevenBit_append (sevenBit_hex _)
  apply sevenBit_append (sevenBit_of_all (by decide))
  exact sevenBit_append (sevenBit_hex _) (sevenBit_of_all (by decide))

theorem Tag.sevenBit_report {t : Tag} (h : t.SevenBit) : ∀ c ∈ t.report, LunarOS.SevenBit c := by
  cases t with
  | cmdline string | bootLoaderName string =>
    apply sevenBit_append (sevenBit_of_all (by decide))
    exact sevenBit_append h (sevenBit_of_all (by decide))
  | module modStart modEnd string =>
    apply sevenBit_append (sevenBit_of_all (by decide))
    apply sevenBit_append (sevenBit_hex _)
    apply sevenBit_append (sevenBit_of_all (by decide))
    apply sevenBit_append (sevenBit_hex _)
    apply sevenBit_append (sevenBit_of_all (by decide))
    exact sevenBit_append h (sevenBit_of_all (by decide))
  | basicMeminfo memLower memUpper =>
    apply sevenBit_append (sevenBit_of_all (by decide))
    apply sevenBit_append (sevenBit_toDigits (by omega) (by omega) _)
    apply sevenBit_append (sevenBit_of_all (by decide))
    exact sevenBit_append (sevenBit_toDigits (by omega) (by omega) _) (sevenBit_of_all (by decide))
  | mmap version extra entries =>
    exact sevenBit_flatMap fun e _ => e.sevenBit_report
  | other type data =>
    exact fun c hc => absurd hc List.not_mem_nil

theorem sevenBit_debugNumber {before after : List Char} (hBefore : ∀ c ∈ before, SevenBit c)
    (hAfter : ∀ c ∈ after, SevenBit c) (n : Nat) :
    ∀ c ∈ debugNumber before n after, SevenBit c := by
  apply sevenBit_append (sevenBit_of_all (by decide))
  apply sevenBit_append hBefore
  exact sevenBit_append (sevenBit_renderNumber .int .d n) hAfter

theorem sevenBit_mapLines (poff : Nat) (mmap : List MmapEntry) :
    ∀ c ∈ mmap.flatMap (MmapEntry.mapLine · poff), SevenBit c :=
  sevenBit_flatMap fun e _ =>
    sevenBit_debugNumber (sevenBit_of_all (by decide)) (sevenBit_of_all (by decide)) _

theorem sevenBit_sizeLines (mmap : List MmapEntry) : ∀ c ∈ sizeLines mmap, SevenBit c := by
  apply sevenBit_append
  · exact sevenBit_debugNumber (sevenBit_of_all (by decide)) (sevenBit_of_all (by decide)) _
  · exact sevenBit_debugNumber (sevenBit_of_all (by decide)) (sevenBit_of_all (by decide)) _

theorem sevenBit_apicLines (msrs : Msrs) : ∀ c ∈ apicLines msrs, SevenBit c := by
  unfold apicLines
  apply sevenBit_append
  · split <;> exact sevenBit_of_all (by decide)
  · split <;> exact sevenBit_of_all (by decide)

theorem sevenBit_panicked {α : Type} {out : List Char} {message : String}
    (h : ∀ c ∈ out, SevenBit c) (hMessage : ∀ c ∈ message.toList, SevenBit c) :
    ∀ c ∈ (Logged.panicked out message : Logged α).out, SevenBit c := by
  apply sevenBit_append h
  exact sevenBit_append (sevenBit_of_all (by decide)) hMessage

/-! ## The whole run -/

section

variable {k : Machine} {tags : List Tag} {physoff magic : Nat} {run : Logged Machine}

/-- Only without the magic number is there a way back. -/
theorem MainEnds.returns_iff (h : MainEnds k tags physoff magic run) :
    (∃ k', run.result = .ok k') ↔ magic ≠ MULTIBOOT2_BOOTLOADER_MAGIC := by
  cases h with
  | magic hMagic => exact ⟨fun _ => hMagic, fun _ => ⟨k, rfl⟩⟩
  | feature hMagic | ranges hMagic | noAreas hMagic | noMap hMagic | noRecord hMagic
  | noBuddy hMagic | noArena hMagic | interrupts hMagic =>
    refine ⟨?_, fun hNe => absurd hMagic hNe⟩
    rintro ⟨k', hk'⟩
    cases hk'

theorem main_sevenBit (h : MainEnds k tags physoff magic run)
    (hVendor : ∀ c ∈ vendorLine k.cpuid, SevenBit c) (hStrings : ∀ t ∈ tags, t.SevenBit) :
    ∀ c ∈ run.out, SevenBit c := by
  have hHello : ∀ c ∈ "LunarOS Kernel\n".toList, SevenBit c :=
    sevenBit_of_all (by decide)
  have hText : ∀ c ∈ kernelText k tags, SevenBit c := by
    apply sevenBit_append hHello
    exact sevenBit_append hVendor (sevenBit_flatMap fun t ht => Tag.sevenBit_report (hStrings t ht))
  have hMaps : ∀ c ∈ mapText (entriesOf tags) (alignTo physoff 8), SevenBit c :=
    sevenBit_append (sevenBit_sizeLines _) (sevenBit_mapLines _ _)
  cases h with
  | magic =>
    dsimp only
    exact sevenBit_of_all (by decide)
  | @feature f =>
    apply sevenBit_panicked (sevenBit_append hHello hVendor)
    cases f <;> exact sevenBit_of_all (by decide)
  | ranges => exact sevenBit_append hHello hVendor
  | noAreas => exact sevenBit_panicked hText (sevenBit_of_all (by decide))
  | noMap =>
    apply sevenBit_panicked _ (sevenBit_of_all (by decide))
    exact sevenBit_append hText (sevenBit_append (sevenBit_sizeLines _) (sevenBit_mapLines _ _))
  | noRecord =>
    exact sevenBit_append hText (sevenBit_append (sevenBit_sizeLines _) (sevenBit_mapLines _ _))
  | noArena => exact sevenBit_append hText hMaps
  | noBuddy =>
    apply sevenBit_panicked _ (sevenBit_of_all (by decide))
    exact sevenBit_append hText (sevenBit_append hMaps (sevenBit_of_all (by decide)))
  | interrupts =>
    apply sevenBit_panicked
    · apply sevenBit_append hText
      apply sevenBit_append hMaps
      exact sevenBit_append (sevenBit_of_all (by decide)) (sevenBit_apicLines _)
    · unfold irqMessage
      split <;> exact sevenBit_of_all (by decide)

end

/-- The ending, which page maps and arenas the tables reach, that there is no other way back, and
the screen. -/
structure MainRun (k : Machine) (tags : List Tag) (physoff magic : Nat) (tty : Tty)
    (run : Logged Machine) : Prop where
  ends : MainEnds k tags physoff magic run
  records : ∀ e ∈ available (entriesOf tags), 0 < e.pages (alignTo physoff 8) →
    e.start (alignTo physoff 8) + e.pages (alignTo physoff 8) * Page.size ≤ 2 ^ 39 →
      (Clearable k.seen (e.mapped (alignTo physoff 8)) ↔ hasGibPages k.cpuid = true ∧
        e.start (alignTo physoff 8) + e.pages (alignTo physoff 8) * Page.size ≤ 2 ^ 30)
  arenas : ∀ e ∈ available (entriesOf tags), BUDDY_MAX_SIZE ≤ e.len →
    e.arena (alignTo physoff 8) + 16 ≤ 2 ^ 39 → (HasArena k.seen (alignTo physoff 8) e ↔
      hasGibPages k.cpuid = true ∧ e.arena (alignTo physoff 8) + 16 ≤ 2 ^ 30)
  returns : (∃ k', run.result = .ok k') ↔ magic ≠ MULTIBOOT2_BOOTLOADER_MAGIC
  shown : (∀ c ∈ vendorLine k.cpuid, SevenBit c) → (∀ t ∈ tags, t.SevenBit) →
    Shown ⟨tty, Screen.home⟩ run.out

end LunarOS
