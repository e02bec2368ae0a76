import Mathlib.Data.Nat.Bitwise
import LunarOS.Cpu.Features
import LunarOS.Vmm.Window

/-!
# Interrupts (`irq.c`)

`irq_init` masks the legacy controllers, maps the registers of the local APIC and stores to one
of them. The address must be `0xFEE00000`; the loop that masks its upper half runs over more bits
than there are, which makes no difference on a processor that keeps its reserved bits clear
(`lapicBase_valid`). `_irq_init` returns 0 in every case, so `irq_init` does not return
(`irqInit_ends`).
-/

namespace LunarOS

open Logic

def IO_PIC1 : Nat := 0x20
def IO_PIC2 : Nat := 0xA0
def SVR : Nat := 0xF0
def ENABLE : Nat := 0x100
def T_IRQ0 : Nat := 32
def IRQ_SPURIOUS : Nat := 31
def PPT_UC : Nat := 0

/-- The static variables of both files, the window, and the bytes sent to ports and to the
registers of the APIC. -/
structure IrqState where
  enabled : Nat := 0
  lapic : Nat := 0
  vm : VmArea
  ports : List (Nat × Nat) := []
  stores : List (Nat × Nat) := []

namespace IrqState

def outb (s : IrqState) (port val : Nat) : IrqState := { s with ports := s.ports ++ [(port, val)] }

def irqDisableLegacy (s : IrqState) : IrqState :=
  (s.outb (IO_PIC1 + 1) 0xFF).outb (IO_PIC2 + 1) 0xFF

/-- `lapic` points to bytes. -/
def lapicw (s : IrqState) (reg v : Nat) : IrqState :=
  { s with stores := s.stores ++ [(s.lapic + reg, v % 2 ^ 8)] }

end IrqState

/-- The loop of `lapic_init`, for what `remaining` and `mask` are. -/
def lapicMask (high : Nat) : Nat → Nat → Nat
  | 0, mask => mask
  | remaining + 1, mask =>
    if high ≠ 0 then lapicMask high remaining ((mask * 2 % 2 ^ 32) ^^^ 1) else mask

/-- `addr` behind the loop. -/
def lapicBase (low high pmax : Nat) : Nat :=
  let remaining := (pmax + 2 ^ 32 - 20) % 2 ^ 32
  (low &&& 0xFFFFF000) ||| (high &&& lapicMask high remaining 1) * 2 ^ 32

def lapicInit (msrs : Msrs) (cpu : Cpu) (s : IrqState) : Logged (Nat × IrqState) := do
  let (low, high) := rdmsr msrs IA32_APIC_BASE
  if low &&& 2 ^ 11 ≠ 0 then
    Logged.prDebug "Local APIC is enabled\n" []
  if low &&& 2 ^ 10 ≠ 0 then
    Logged.prDebug "x2APIC mode is enabled\n" []
  let addr := lapicBase low high cpu.pmax.toNat
  if addr ≠ 0xFEE00000 then pure (0, s)
  else do
    let (page, vm) ← Logged.lift (mmapPhysicalPage (decide (s.enabled ≠ 0)) s.vm addr PPT_UC)
    let lapic := page.getD 0
    pure (if lapic ≠ 0 then 1 else 0, { s with lapic, vm })

/-- `_irq_init`, without the read of `ID`, whose value is not used. -/
def irqInitArch (msrs : Msrs) (cpu : Cpu) (s : IrqState) : Logged (Nat × IrqState) := do
  let (found, s) ← lapicInit msrs cpu s.irqDisableLegacy
  Logged.require (decide (found ≠ 0)) "Failed to init lapic"
  pure (0, s.lapicw SVR (ENABLE ||| (T_IRQ0 + IRQ_SPURIOUS)))

def irqInit (msrs : Msrs) (cpu : Cpu) (s : IrqState) : Logged IrqState := do
  let (done, s) ← irqInitArch msrs cpu s
  Logged.require (decide (done ≠ 0)) "Failed to setup interrupts"
  pure { s with enabled := 1 }

/-! ## The address -/

/-- One bit more with every turn, up to 32. -/
theorem lapicMask_eq {high : Nat} (hHigh : high ≠ 0) (remaining : Nat) {k : Nat} (hk : 0 < k)
    (hk' : k ≤ 32) : lapicMask high remaining (2 ^ k - 1) = 2 ^ min (k + remaining) 32 - 1 := by
  induction remaining generalizing k with
  | zero => rw [lapicMask, Nat.add_zero, Nat.min_eq_left hk']
  | succ remaining ih =>
    have hTurn : ((2 ^ k - 1) * 2 % 2 ^ 32) ^^^ 1 = 2 ^ min (k + 1) 32 - 1 := by
      have hPow : 2 ^ (k + 1) = 2 ^ k * 2 := Nat.pow_succ ..
      have hPos : 0 < 2 ^ k := Nat.two_pow_pos k
      rcases Nat.lt_or_eq_of_le hk' with hLess | rfl
      · have hBound : 2 ^ k * 2 ≤ 2 ^ 32 := by
          rw [← hPow]
          exact Nat.pow_le_pow_right (by omega) hLess
        rw [Nat.min_eq_left hLess, hPow, Nat.mod_eq_of_lt (by omega), Nat.xor_one_of_even]
        · omega
        · exact Nat.even_mul.mpr (Or.inr (by decide))
      · rfl
    rw [lapicMask, if_pos hHigh, hTurn]
    rw [ih (by omega) (Nat.min_le_right ..)]
    congr 2
    omega

/-- Bits of the upper half that are looked at. -/
def lapicWidth (pmax : Nat) : Nat := min ((pmax + 2 ^ 32 - 20) % 2 ^ 32 + 1) 32

theorem high_masked (high pmax : Nat) :
    high &&& lapicMask high ((pmax + 2 ^ 32 - 20) % 2 ^ 32) 1 = high % 2 ^ lapicWidth pmax := by
  by_cases hHigh : high = 0
  · rw [hHigh, Nat.zero_and, Nat.zero_mod]
  · have hMask := lapicMask_eq hHigh ((pmax + 2 ^ 32 - 20) % 2 ^ 32) Nat.one_pos (by omega)
    rw [Nat.pow_one] at hMask
    rw [hMask, Nat.add_comm 1, Nat.and_two_pow_sub_one_eq_mod]
    rfl

theorem lapicBase_eq {low : Nat} (hLow : low < 2 ^ 32) (high pmax : Nat) :
    lapicBase low high pmax = low / 2 ^ 12 * 2 ^ 12 + high % 2 ^ lapicWidth pmax * 2 ^ 32 := by
  have hMask : low &&& 0xFFFFF000 = low / 2 ^ 12 * 2 ^ 12 := by
    apply Nat.eq_of_testBit_eq
    intro i
    have hConst : 0xFFFFF000 = (2 ^ 20 - 1) * 2 ^ 12 := rfl
    rw [hConst, Nat.testBit_and, Nat.testBit_mul_two_pow, Nat.testBit_mul_two_pow,
      Nat.testBit_two_pow_sub_one, Nat.testBit_div_two_pow]
    by_cases hi : 12 ≤ i
    · rw [Nat.sub_add_cancel hi]
      by_cases hTop : i - 12 < 20
      · simp [hi, hTop]
      · have hClear : low.testBit i = false :=
          Nat.testBit_lt_two_pow (hLow.trans_le (Nat.pow_le_pow_right (by omega) (by omega)))
        simp [hClear]
    · simp [hi]
  unfold lapicBase
  dsimp only
  rw [high_masked, hMask, Nat.or_comm, or_eq_add (k := 32) (by omega), Nat.add_comm]

/-- The bits of the register up to the physical width of the processor are the address. -/
theorem lapicBase_valid {msrs : Msrs} {pmax : Nat} (hMin : 32 ≤ pmax)
    (hReserved : msrs IA32_APIC_BASE < 2 ^ pmax) (hMax : pmax ≤ 64) :
    lapicBase (rdmsr msrs IA32_APIC_BASE).1 (rdmsr msrs IA32_APIC_BASE).2 pmax =
      msrs IA32_APIC_BASE / 2 ^ 12 * 2 ^ 12 := by
  unfold rdmsr
  dsimp only
  generalize msrs IA32_APIC_BASE = v at hReserved
  have hWord : v < 2 ^ 64 := hReserved.trans_le (Nat.pow_le_pow_right (by omega) hMax)
  have hSplit : 2 ^ pmax = 2 ^ 32 * 2 ^ (pmax - 32) := by
    rw [← Nat.pow_add]
    congr 1
    omega
  have hUpper : v / 2 ^ 32 < 2 ^ (pmax - 32) := by
    apply Nat.div_lt_of_lt_mul
    rw [← hSplit]
    exact hReserved
  have hSeen : v / 2 ^ 32 < 2 ^ lapicWidth pmax := by
    apply hUpper.trans_le
    apply Nat.pow_le_pow_right (by omega)
    unfold lapicWidth
    omega
  rw [lapicBase_eq (Nat.mod_lt _ (by omega)), Nat.mod_eq_of_lt (a := v / 2 ^ 32) (by omega),
    Nat.mod_eq_of_lt hSeen]
  omega

/-! ## Ending -/

section

variable (msrs : Msrs) (cpu : Cpu) (s : IrqState)

/-- The two lines about the mode of the APIC. -/
def apicLines : List Char :=
  (if (rdmsr msrs IA32_APIC_BASE).1.testBit 11 then "[DEBUG] Local APIC is enabled\n".toList
    else []) ++
  (if (rdmsr msrs IA32_APIC_BASE).1.testBit 10 then "[DEBUG] x2APIC mode is enabled\n".toList
    else [])

/-- The APIC is where it is looked for, and no table but the reserved one is asked for. -/
def ApicFound : Prop :=
  lapicBase (rdmsr msrs IA32_APIC_BASE).1 (rdmsr msrs IA32_APIC_BASE).2 cpu.pmax.toNat = 0xFEE00000 ∧
    s.enabled = 0

instance : Decidable (ApicFound msrs cpu s) := inferInstanceAs (Decidable (_ ∧ _))

end

section

variable {msrs : Msrs} {cpu : Cpu} {s : IrqState}

theorem bit_ne_zero_iff (n i : Nat) : n &&& 2 ^ i ≠ 0 ↔ n.testBit i = true := by
  rw [Nat.and_two_pow]
  cases n.testBit i with
  | false => simp
  | true => simp

/-- A line that depends on a bit. -/
theorem debug_line {α : Type} {text : String} (h : Item.plain text = true) (n i : Nat)
    (f : Unit → Logged α) :
    (if n &&& 2 ^ i ≠ 0 then Logged.prDebug text [] >>= f else f ()) =
      Writer.tell (if n.testBit i then "[DEBUG] ".toList ++ text.toList else []) >>= f := by
  by_cases hBit : n.testBit i = true
  · rw [if_pos ((bit_ne_zero_iff n i).mpr hBit), if_pos hBit, Logged.prDebug_plain h]
  · rw [if_neg (mt (bit_ne_zero_iff n i).mp hBit), if_neg hBit]
    rfl

/-- After the two lines. -/
theorem lapicInit_eq : lapicInit msrs cpu s = Writer.tell (apicLines msrs) >>= (fun _ =>
    if lapicBase (rdmsr msrs IA32_APIC_BASE).1 (rdmsr msrs IA32_APIC_BASE).2 cpu.pmax.toNat ≠
        0xFEE00000 then pure (0, s)
    else (do
      let (page, vm) ← Logged.lift (mmapPhysicalPage (decide (s.enabled ≠ 0)) s.vm
        (lapicBase (rdmsr msrs IA32_APIC_BASE).1 (rdmsr msrs IA32_APIC_BASE).2 cpu.pmax.toNat)
        PPT_UC)
      let lapic := page.getD 0
      pure (if lapic ≠ 0 then 1 else 0, { s with lapic, vm }))) := by
  unfold lapicInit apicLines
  dsimp only
  rw [debug_line rfl, debug_line rfl, Writer.tell_bind, Writer.tell_bind, Writer.tell_bind,
    List.append_assoc]
  rfl

/-! ### The page of the registers -/

/-- The entry that is taken, and the address in the window. -/
theorem mmapPhysicalPage_uc {vm : VmArea} (hRoom : add64 vm.size 1 ≤ VM_AREA_MAX) :
    mmapPhysicalPage false vm 0xFEE00000 PPT_UC =
      .ok (some (windowStart + vm.size % 2 ^ 16 % 512 * PGSIZE),
        ({ vm with size := (vm.size + 1) % 2 ^ 32 } : VmArea).store (vm.size % 2 ^ 16)
          (entryOf 0xFEE00000 152)) := by
  have hIndex : ((vm.size + 1) % 2 ^ 32 + 2 ^ 32 - 1) % 2 ^ 32 % 2 ^ 16 = vm.size % 2 ^ 16 := by
    omega
  have hType : memoryType PPT_UC = .ok 152 := rfl
  unfold mmapPhysicalPage vmmFetchMap
  rw [if_neg Bool.false_ne_true, if_neg (Nat.not_lt.mpr hRoom), ok_bind_eq]
  dsimp only
  rw [hIndex, vmmAssignMap_eq, hType, vaddr_window]
  simp [windowStart, Except.map, PGSIZE]

theorem mmapPhysicalPage_full {vm : VmArea} (hFull : VM_AREA_MAX < add64 vm.size 1) (page type : Nat) :
    mmapPhysicalPage false vm page type =
      .error (.panic "No virtual memory mappings available, can't fallback!") := by
  unfold mmapPhysicalPage vmmFetchMap
  rw [if_neg Bool.false_ne_true, if_pos hFull]
  rfl

theorem mmapPhysicalPage_enabled (vm : VmArea) (page type : Nat) :
    mmapPhysicalPage true vm page type = .ok (none, vm) := rfl

/-! ### `irq_init` -/

/-- The ways in which `irq_init` ends: with a panic, on every machine. -/
inductive IrqEnds (msrs : Msrs) (cpu : Cpu) (s : IrqState) : Logged IrqState → Prop
  | missing : ¬ ApicFound msrs cpu s →
      IrqEnds msrs cpu s (.panicked (apicLines msrs) "Failed to init lapic")
  | full : ApicFound msrs cpu s → VM_AREA_MAX < add64 s.vm.size 1 →
      IrqEnds msrs cpu s (.panicked (apicLines msrs)
        "No virtual memory mappings available, can't fallback!")
  | never : ApicFound msrs cpu s → add64 s.vm.size 1 ≤ VM_AREA_MAX →
      IrqEnds msrs cpu s (.panicked (apicLines msrs) "Failed to setup interrupts")

/-- What `_irq_init` leaves when it returns: the registers are mapped uncached, but the byte that
is stored to `SVR` ends below the bit `ENABLE`. -/
structure ApicLeft (s s' : IrqState) : Prop where
  enabled : s'.enabled = 0
  ports : s'.ports = s.ports ++ [(0x21, 0xFF), (0xA1, 0xFF)]
  stores : s'.stores = s.stores ++ [(s'.lapic + SVR, 0x3F)]
  mapped : ∀ off < PGSIZE, s'.vm.translate (s'.lapic + off) = some (0xFEE00000 + off)
  uncached : s'.vm.pt s.vm.size = entryOf 0xFEE00000 (2 ^ 3 ||| 2 ^ 4 ||| 2 ^ 7)

/-- The state when the APIC is found and there is room. -/
def IrqState.withApic (s : IrqState) : IrqState :=
  { s with
    lapic := windowStart + s.vm.size % 2 ^ 16 % 512 * PGSIZE
    vm := ({ s.vm with size := (s.vm.size + 1) % 2 ^ 32 } : VmArea).store (s.vm.size % 2 ^ 16)
      (entryOf 0xFEE00000 152) }

theorem lapicInit_missing (h : ¬ ApicFound msrs cpu s) :
    ∃ s', lapicInit msrs cpu s = ⟨apicLines msrs, .ok (0, s')⟩ := by
  rw [lapicInit_eq, Writer.tell_bind]
  by_cases hBase : lapicBase (rdmsr msrs IA32_APIC_BASE).1 (rdmsr msrs IA32_APIC_BASE).2
      cpu.pmax.toNat = 0xFEE00000
  · have hEnabled : s.enabled ≠ 0 := fun hZero => h ⟨hBase, hZero⟩
    rw [if_neg (not_not.mpr hBase), decide_eq_true hEnabled, mmapPhysicalPage_enabled,
      Logged.lift_ok, Writer.pure_bind]
    exact ⟨{ s with lapic := 0 }, by simp [Writer.pure_eq]⟩
  · rw [if_pos hBase]
    refine ⟨s, ?_⟩
    simp [Writer.pure_eq]

theorem lapicInit_full (h : ApicFound msrs cpu s) (hFull : VM_AREA_MAX < add64 s.vm.size 1) :
    lapicInit msrs cpu s =
      .panicked (apicLines msrs) "No virtual memory mappings available, can't fallback!" := by
  have hPlain : Item.plain "No virtual memory mappings available, can't fallback!" = true := rfl
  rw [lapicInit_eq, if_neg (not_not.mpr h.1), decide_eq_false (not_not.mpr h.2),
    mmapPhysicalPage_full hFull, Logged.lift_panic hPlain, Logged.panicked_bind,
    Logged.tell_panicked, List.append_nil]

theorem lapicInit_found (h : ApicFound msrs cpu s) (hRoom : add64 s.vm.size 1 ≤ VM_AREA_MAX) :
    lapicInit msrs cpu s = ⟨apicLines msrs, .ok (1, s.withApic)⟩ := by
  rw [lapicInit_eq, Writer.tell_bind, if_neg (not_not.mpr h.1), decide_eq_false (not_not.mpr h.2),
    h.1, mmapPhysicalPage_uc hRoom, Logged.lift_ok, Writer.pure_bind]
  simp [Writer.pure_eq, windowStart, IrqState.withApic]

/-- A test that fails behind a computation that returned. -/
theorem bind_require {α β : Type} {x : Logged α} {out : List Char} {a : α} {f : α → Logged β}
    {g : Unit → Logged β} {message : String} (hx : x = ⟨out, .ok a⟩)
    (hf : f a = Logged.require false message >>= g) (h : Item.plain message = true) :
    x >>= f = .panicked out message := by
  have hPanic : Logged.require false message = Logged.panicked [] message := Logged.panic_eq h
  rw [hx, Writer.bind_of_ok rfl, hf, hPanic, Logged.panicked_bind, ← Writer.tell_bind out fun _ => _,
    Logged.tell_panicked, List.append_nil]

/-- The legacy controllers play no part in it. -/
theorem apicFound_legacy : ApicFound msrs cpu s.irqDisableLegacy ↔ ApicFound msrs cpu s := Iff.rfl

theorem irqInitArch_missing (h : ¬ ApicFound msrs cpu s) :
    irqInitArch msrs cpu s = .panicked (apicLines msrs) "Failed to init lapic" := by
  obtain ⟨s', hInit⟩ := lapicInit_missing (mt apicFound_legacy.mp h)
  exact bind_require hInit rfl rfl

theorem irqInitArch_full (h : ApicFound msrs cpu s) (hFull : VM_AREA_MAX < add64 s.vm.size 1) :
    irqInitArch msrs cpu s =
      .panicked (apicLines msrs) "No virtual memory mappings available, can't fallback!" := by
  unfold irqInitArch
  rw [lapicInit_full (apicFound_legacy.mpr h) hFull, Logged.panicked_bind]

theorem irqInitArch_found (h : ApicFound msrs cpu s) (hRoom : add64 s.vm.size 1 ≤ VM_AREA_MAX) :
    irqInitArch msrs cpu s = ⟨apicLines msrs, .ok (0, s.irqDisableLegacy.withApic.lapicw SVR
      (ENABLE ||| (T_IRQ0 + IRQ_SPURIOUS)))⟩ := by
  have hTest : Logged.require (decide ((1 : Nat) ≠ 0)) "Failed to init lapic" = pure () := rfl
  unfold irqInitArch
  rw [lapicInit_found (apicFound_legacy.mpr h) hRoom, Writer.bind_of_ok rfl]
  dsimp only
  rw [hTest, Writer.pure_bind, Writer.pure_eq, List.append_nil]

/-- The value that `_irq_init` returns is the one that means failure. -/
theorem irqInit_of_zero {out : List Char} {s' : IrqState}
    (h : irqInitArch msrs cpu s = ⟨out, .ok (0, s')⟩) :
    irqInit msrs cpu s = .panicked out "Failed to setup interrupts" := bind_require h rfl rfl

/-- The window leads to the registers. -/
theorem withApic_left (hSize : s.vm.size < VM_AREA_MAX) (hEnabled : s.enabled = 0) :
    ApicLeft s (s.irqDisableLegacy.withApic.lapicw SVR (ENABLE ||| (T_IRQ0 + IRQ_SPURIOUS))) := by
  unfold VM_AREA_MAX at hSize
  have hIndex : s.vm.size % 2 ^ 16 = s.vm.size := Nat.mod_eq_of_lt (by omega)
  have hSlot : s.vm.size % 512 = s.vm.size := Nat.mod_eq_of_lt hSize
  have hFlags : (2 ^ 3 ||| 2 ^ 4 ||| 2 ^ 7 : Nat) = 152 := rfl
  have hEntry := entryOf_present 0xFEE00000
    (Or.inr (Or.inr rfl) : (152 : Nat) = 0 ∨ 152 = 8 ∨ 152 = 152)
  refine ⟨hEnabled, ?_, rfl, ?_, ?_⟩
  · exact List.append_assoc ..
  · intro off hOff
    unfold IrqState.lapicw IrqState.withApic IrqState.irqDisableLegacy IrqState.outb VmArea.translate
      VmArea.store
    dsimp only
    rw [hIndex, hSlot]
    unfold windowStart VM_AREA_MAX PGSIZE at *
    have hIn : (0xFFFF808000000000 + s.vm.size * 4096 + off) / 4096 % 512 = s.vm.size := by omega
    have hLow : (0xFFFF808000000000 + s.vm.size * 4096 + off) % 4096 = off := by omega
    rw [if_pos (by omega), hIn, hLow, if_pos rfl, if_pos hEntry.1, hEntry.2, Option.some.injEq]
    omega
  · unfold IrqState.lapicw IrqState.withApic IrqState.irqDisableLegacy IrqState.outb VmArea.store
    dsimp only
    rw [hIndex, if_pos rfl, hFlags]

end

theorem irqInit_panics (msrs : Msrs) (cpu : Cpu) (s : IrqState) :
    IrqEnds msrs cpu s (irqInit msrs cpu s) := by
  by_cases h : ApicFound msrs cpu s
  · by_cases hFull : VM_AREA_MAX < add64 s.vm.size 1
    · unfold irqInit
      rw [irqInitArch_full h hFull, Logged.panicked_bind]
      exact .full h hFull
    · rw [irqInit_of_zero (irqInitArch_found h (Nat.le_of_not_lt hFull))]
      exact .never h (Nat.le_of_not_lt hFull)
  · unfold irqInit
    rw [irqInitArch_missing h, Logged.panicked_bind]
    exact .missing h

/-- What there is to know of `irq_init`: how it ends, what `_irq_init` has done by then, and what
it means that the APIC is found when the reserved bits of the register are clear. -/
structure IrqInit (msrs : Msrs) (cpu : Cpu) (s : IrqState) : Prop where
  ends : IrqEnds msrs cpu s (irqInit msrs cpu s)
  left : ∀ ret s', (irqInitArch msrs cpu s).result = .ok (ret, s') → s.vm.size < VM_AREA_MAX →
    ret = 0 ∧ ApicLeft s s'
  found : 32 ≤ cpu.pmax.toNat → cpu.pmax.toNat ≤ 64 → msrs IA32_APIC_BASE < 2 ^ cpu.pmax.toNat →
    (ApicFound msrs cpu s ↔ msrs IA32_APIC_BASE / 2 ^ 12 = 0xFEE00 ∧ s.enabled = 0)

theorem irqInit_ends (msrs : Msrs) (cpu : Cpu) (s : IrqState) : IrqInit msrs cpu s := by
  refine ⟨irqInit_panics msrs cpu s, ?_, ?_⟩
  · intro ret s' hOk hSize
    by_cases h : ApicFound msrs cpu s
    · have hRoom : add64 s.vm.size 1 ≤ VM_AREA_MAX := by
        unfold VM_AREA_MAX at hSize ⊢
        rw [add64_eq (by unfold wordSize; omega)]
        omega
      rw [irqInitArch_found h hRoom] at hOk
      cases hOk
      exact ⟨rfl, withApic_left hSize h.2⟩
    · rw [irqInitArch_missing h] at hOk
      cases hOk
  · intro hMin hMax hReserved
    unfold ApicFound
    rw [lapicBase_valid hMin hReserved hMax]
    apply and_congr_left
    intro _
    omega

end LunarOS
