import LunarOS.Cpu.Memory
import LunarOS.Lib.Log

/-!
# The processor (`cpu.c`)

`cpu_init` asks for the features the kernel needs, reads the sizes of the addresses and sets the
memory up. It returns exactly on a processor that is `CpuReady`; on any other it ends with a
panic that names the first feature missing, or in the writes of `cpu_setupmem`
(`cpuInit_ends`).
-/

namespace LunarOS

open Logic

/-- What `cpuid` leaves in the registers. -/
structure CpuidRegs where
  eax : BitVec 32
  ebx : BitVec 32
  ecx : BitVec 32
  edx : BitVec 32

/-- `__get_cpuid_max` and `__get_cpuid` of the compiler's `cpuid.h` on one processor. -/
structure Cpuid where
  max : BitVec 32 → BitVec 32
  get : BitVec 32 → Option CpuidRegs
  /-- Leaves are answered up to the highest one of their range, 0 when there is none. -/
  answers : ∀ leaf, (get leaf).isSome ↔
    max (leaf &&& 0x80000000) ≠ 0 ∧ leaf ≤ max (leaf &&& 0x80000000)

def CPUID_MIN_EXT_LEAF : BitVec 32 := 0x80000008

def cpuidMaxext (c : Cpuid) : Bool := decide (CPUID_MIN_EXT_LEAF ≤ c.max 0x80000000)

/-- `eax` stays 0 when there is no such leaf. -/
def cpuidExtaddress (c : Cpuid) : BitVec 32 := ((c.get 0x80000008).map CpuidRegs.eax).getD 0

/-- The test of a bit of leaf 1's `edx`. -/
def cpuidHas (c : Cpuid) (bit : Nat) : Bool :=
  match c.get 0x01 with
  | some r => decide (r.edx &&& (1#32 <<< bit) ≠ 0)
  | none => false

def cpuidHasapic (c : Cpuid) : Bool := cpuidHas c 9
def cpuidHasmtrr (c : Cpuid) : Bool := cpuidHas c 12
def cpuidHaspat (c : Cpuid) : Bool := cpuidHas c 16

/-- The bytes of a register as they lie in memory. -/
def registerBytes (r : BitVec 32) : List (BitVec 8) :=
  (List.range 4).map fun i => (r >>> (8 * i)).setWidth 8

/-- `str` up to its terminator: `ebx`, `edx` and `ecx` copied one after the other. -/
def brandString (r : CpuidRegs) : List Char :=
  ((registerBytes r.ebx ++ registerBytes r.edx ++ registerBytes r.ecx).takeWhile (· ≠ 0)).map
    fun byte => Char.ofNat byte.toNat

def cpuBrand (c : Cpuid) : Logged Bool :=
  match c.get 0x0 with
  | some r => do
    Logged.printf "%s\n" [.str (some (brandString r))]
    pure true
  | none => pure false

def cpuCheckfeatures (c : Cpuid) : Logged Unit := do
  Logged.require (← cpuBrand c) "CPUID not supported"
  Logged.require (cpuidMaxext c) "Extended cpuid information lacks crucial leafs"
  Logged.require (cpuidHasapic c) "CPU doesn't support APIC"
  Logged.require (cpuidHasmtrr c) "CPU doesn't support MTRRs"
  Logged.require (cpuidHaspat c) "CPU doesn't support Page Attribute Table (PAT)"

/-- `struct cpu` -/
structure Cpu where
  pmax : BitVec 8
  lmax : BitVec 8

def cpuGetinfo (c : Cpuid) : Cpu :=
  let ret := cpuidExtaddress c
  { pmax := (ret &&& 0xFF).setWidth 8
    lmax := ((ret &&& 0xFF00) >>> 8).setWidth 8 }

def cpuInit (c : Cpuid) (msrs : Msrs) : Logged (Cpu × Msrs) := do
  cpuCheckfeatures c
  let cpu := cpuGetinfo c
  match cpuSetupmem msrs with
  | some msrs => pure (cpu, msrs)
  | none => .fail .protection

/-! ## Features -/

inductive Feature
  | cpuid | leafs | apic | mtrr | pat
  deriving DecidableEq, Repr

namespace Feature

/-- In the order in which they are asked for. -/
def all : List Feature := [cpuid, leafs, apic, mtrr, pat]

def has (c : Cpuid) : Feature → Bool
  | cpuid => (c.get 0x0).isSome
  | leafs => cpuidMaxext c
  | apic => cpuidHasapic c
  | mtrr => cpuidHasmtrr c
  | pat => cpuidHaspat c

def message : Feature → String
  | cpuid => "CPUID not supported"
  | leafs => "Extended cpuid information lacks crucial leafs"
  | apic => "CPU doesn't support APIC"
  | mtrr => "CPU doesn't support MTRRs"
  | pat => "CPU doesn't support Page Attribute Table (PAT)"

end Feature

/-- The line with the vendor. -/
def vendorLine (c : Cpuid) : List Char :=
  match c.get 0x0 with
  | some r => brandString r ++ ['\n']
  | none => []

theorem cpuBrand_eq (c : Cpuid) : cpuBrand c = ⟨vendorLine c, .ok (c.get 0x0).isSome⟩ := by
  unfold cpuBrand vendorLine
  cases c.get 0x0 with
  | none => rfl
  | some r =>
    have hLine : Logged.printf "%s\n" [.str (some (brandString r))] =
        .tell (render (Item.str (some (brandString r)) :: Item.lits "\n")) :=
      Logged.printf_items _ (by simpa using noLong_lits _) rfl rfl
    dsimp only
    rw [hLine, Writer.tell_bind, Writer.pure_eq, List.append_nil, render_str]
    rfl

theorem Feature.plain (f : Feature) : Item.plain f.message = true := by
  cases f <;> rfl

/-- The tests in a row. -/
theorem cpuCheckfeatures_eq (c : Cpuid) : cpuCheckfeatures c =
    Writer.tell (vendorLine c) >>= fun _ =>
      forM Feature.all fun f => Logged.require (f.has c) f.message := by
  have hTests : (forM Feature.all fun f => Logged.require (f.has c) f.message) = (do
      Logged.require (c.get 0x0).isSome "CPUID not supported"
      Logged.require (cpuidMaxext c) "Extended cpuid information lacks crucial leafs"
      Logged.require (cpuidHasapic c) "CPU doesn't support APIC"
      Logged.require (cpuidHasmtrr c) "CPU doesn't support MTRRs"
      Logged.require (cpuidHaspat c) "CPU doesn't support Page Attribute Table (PAT)") := by
    simp only [Feature.all, List.forM_cons, List.forM_nil]
    rw [Writer.bind_pure (Logged.require (Feature.pat.has c) Feature.pat.message)]
    rfl
  rw [hTests]
  unfold cpuCheckfeatures
  rw [cpuBrand_eq, Writer.bind_of_ok rfl, Writer.tell_bind]

/-- The checks of some features end at the first feature that is missing. -/
theorem requires_eq (c : Cpuid) (fs : List Feature) :
    (forM fs fun f => Logged.require (f.has c) f.message) =
      match fs.find? fun f => !f.has c with
      | none => pure ()
      | some f => Logged.panic f.message := by
  induction fs with
  | nil => rfl
  | cons f fs ih =>
    rw [List.forM_cons]
    by_cases hHas : f.has c = true
    · rw [List.find?_cons_of_neg (by simp [hHas]), hHas, ← ih]
      exact Writer.pure_bind ..
    · rw [List.find?_cons_of_pos (by simp [hHas]), Logged.require, if_neg hHas,
        Logged.panic_eq f.plain, Writer.bind_of_error rfl]
      exact (Logged.panic_eq f.plain).symm

/-! ## `cpu_init` -/

/-- What the kernel asks of a processor. -/
structure CpuReady (c : Cpuid) (msrs : Msrs) : Prop where
  features : ∀ f : Feature, f.has c = true
  ranges : 10 ≤ vcnt msrs

/-- The processor lacks the feature and has all that are checked before it. -/
structure Feature.FirstMissing (c : Cpuid) (f : Feature) : Prop where
  missing : f.has c = false
  before : ∀ g ∈ Feature.all.takeWhile (· ≠ f), g.has c = true

theorem Feature.mem_all (f : Feature) : f ∈ Feature.all := by
  cases f <;> decide

theorem Feature.firstMissing_iff {c : Cpuid} {f : Feature} :
    f.FirstMissing c ↔ Feature.all.find? (fun f => !f.has c) = some f := by
  have hSplit : Feature.all = Feature.all.takeWhile (· ≠ f) ++
      f :: (Feature.all.dropWhile (· ≠ f)).tail := by
    cases f <;> rfl
  rw [List.find?_eq_some_iff_append]
  constructor
  · intro h
    refine ⟨by simp [h.missing], _, _, hSplit, ?_⟩
    intro g hg
    simp [h.before g hg]
  · rintro ⟨hNot, before, after, hEq, hBefore⟩
    have hTake : Feature.all.takeWhile (· ≠ f) = before := by
      have hNone : ∀ g ∈ before, g ≠ f := by
        rintro g hg rfl
        have hHas := hBefore g hg
        simp_all
      rw [hEq, List.takeWhile_append_of_pos (by simpa using hNone)]
      simp
    refine ⟨by simpa using hNot, ?_⟩
    rw [hTake]
    intro g hg
    simpa using hBefore g hg

theorem Feature.firstMissing_or (c : Cpuid) :
    (∀ f : Feature, f.has c = true) ∨ ∃ f : Feature, f.FirstMissing c := by
  cases hFind : Feature.all.find? (fun f => !f.has c) with
  | none =>
    refine Or.inl fun f => ?_
    simpa using List.find?_eq_none.mp hFind f f.mem_all
  | some f => exact Or.inr ⟨f, firstMissing_iff.mpr hFind⟩

section

variable {c : Cpuid} {msrs : Msrs}

theorem cpuCheckfeatures_ready (h : ∀ f : Feature, f.has c = true) :
    cpuCheckfeatures c = .tell (vendorLine c) := by
  have hNone : Feature.all.find? (fun f => !f.has c) = none := by
    rw [List.find?_eq_none]
    intro f _
    simp [h f]
  rw [cpuCheckfeatures_eq, requires_eq, hNone, Writer.tell_bind, Writer.pure_eq, List.append_nil]
  rfl

theorem cpuCheckfeatures_missing {f : Feature} (h : f.FirstMissing c) : cpuCheckfeatures c =
    ⟨vendorLine c ++ ("[PANIC] ".toList ++ f.message.toList),
      .error (.stop (.panic f.message))⟩ := by
  rw [cpuCheckfeatures_eq, requires_eq, Feature.firstMissing_iff.mp h, Writer.tell_bind]
  dsimp only
  rw [Logged.panic_eq f.plain]

/-- With all features the leaf of the address sizes answers. -/
theorem extaddress_of_leafs (h : Feature.leafs.has c = true) :
    ∃ r, c.get 0x80000008 = some r ∧ cpuidExtaddress c = r.eax := by
  have hMax : CPUID_MIN_EXT_LEAF ≤ c.max 0x80000000 := of_decide_eq_true h
  have hAnswers : (c.get 0x80000008).isSome := by
    rw [c.answers]
    have hRange : (0x80000008 : BitVec 32) &&& 0x80000000 = 0x80000000 := by decide
    rw [hRange]
    refine ⟨?_, hMax⟩
    intro hZero
    rw [hZero] at hMax
    exact absurd hMax (by decide)
  obtain ⟨r, hr⟩ := Option.isSome_iff_exists.mp hAnswers
  refine ⟨r, hr, ?_⟩
  unfold cpuidExtaddress
  rw [hr]
  rfl

end

theorem cpuGetinfo_eq {c : Cpuid} {eax : BitVec 32} (h : cpuidExtaddress c = eax) :
    cpuGetinfo c = ⟨eax.extractLsb' 0 8, eax.extractLsb' 8 8⟩ := by
  have hMask (n : Nat) : n &&& 255 = n % 256 := Nat.and_two_pow_sub_one_eq_mod n 8
  have hLow : (eax &&& 0xFF).setWidth 8 = eax.extractLsb' 0 8 := by
    apply BitVec.eq_of_toNat_eq
    simp [hMask]
  have hHigh : ((eax &&& 0xFF00) >>> 8).setWidth 8 = eax.extractLsb' 8 8 := by
    apply BitVec.eq_of_toNat_eq
    simp [Nat.shiftRight_and_distrib, hMask]
  unfold cpuGetinfo
  dsimp only
  rw [h, hLow, hHigh]

section

variable {c : Cpuid} {msrs : Msrs}

theorem cpuInit_missing {f : Feature} (h : f.FirstMissing c) : cpuInit c msrs =
    ⟨vendorLine c ++ ("[PANIC] ".toList ++ f.message.toList), .error (.stop (.panic f.message))⟩ := by
  unfold cpuInit
  rw [cpuCheckfeatures_missing h, Writer.bind_of_error rfl]

theorem cpuInit_ranges (h : ∀ f : Feature, f.has c = true) (hFew : vcnt msrs < 10) :
    cpuInit c msrs = ⟨vendorLine c, .error .protection⟩ := by
  have hSetup : cpuSetupmem msrs = none := by
    have hNot := mt (cpuSetupmem_iff msrs).mp (Nat.not_le.mpr hFew)
    simpa using hNot
  unfold cpuInit
  rw [cpuCheckfeatures_ready h, Writer.tell_bind, hSetup]
  dsimp only [Writer.fail]
  rw [List.append_nil]

theorem cpuInit_ready (h : CpuReady c msrs) : ∃ msrs', cpuSetupmem msrs = some msrs' ∧
    cpuInit c msrs = ⟨vendorLine c, .ok (cpuGetinfo c, msrs')⟩ := by
  obtain ⟨msrs', hSetup⟩ := Option.isSome_iff_exists.mp ((cpuSetupmem_iff msrs).mpr h.ranges)
  refine ⟨msrs', hSetup, ?_⟩
  unfold cpuInit
  rw [cpuCheckfeatures_ready h.features, Writer.tell_bind, hSetup]
  dsimp only
  rw [Writer.pure_eq, List.append_nil]

end

/-- The three ways in which `cpu_init` ends. -/
inductive CpuEnds (c : Cpuid) (msrs : Msrs) : Logged (Cpu × Msrs) → Prop
  | ready {r : CpuidRegs} {msrs' : Msrs} : CpuReady c msrs → c.get 0x80000008 = some r →
      cpuSetupmem msrs = some msrs' → CpuEnds c msrs ⟨vendorLine c,
        .ok (⟨r.eax.extractLsb' 0 8, r.eax.extractLsb' 8 8⟩, msrs')⟩
  | missing {f : Feature} : f.FirstMissing c → CpuEnds c msrs
      ⟨vendorLine c ++ ("[PANIC] ".toList ++ f.message.toList), .error (.stop (.panic f.message))⟩
  | ranges : (∀ f : Feature, f.has c = true) → vcnt msrs < 10 →
      CpuEnds c msrs ⟨vendorLine c, .error .protection⟩

theorem cpuInit_ends (c : Cpuid) (msrs : Msrs) : CpuEnds c msrs (cpuInit c msrs) := by
  rcases Feature.firstMissing_or c with hAll | ⟨f, hMissing⟩
  · by_cases hMany : 10 ≤ vcnt msrs
    · obtain ⟨msrs', hSetup, hRun⟩ := cpuInit_ready ⟨hAll, hMany⟩
      obtain ⟨r, hLeaf, hAddress⟩ := extaddress_of_leafs (hAll .leafs)
      rw [hRun, cpuGetinfo_eq hAddress]
      exact .ready ⟨hAll, hMany⟩ hLeaf hSetup
    · rw [cpuInit_ranges hAll (Nat.lt_of_not_le hMany)]
      exact .ranges hAll (Nat.lt_of_not_le hMany)
  · rw [cpuInit_missing hMissing]
    exact .missing hMissing

end LunarOS
