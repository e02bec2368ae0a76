import LunarOS.Boot.Gdt
import LunarOS.Boot.Stores

/-!
# From the boot loader to `main` (`boot.S`, `start64.S`)

`_start` runs in 32-bit code without paging and `main` in 64-bit code in the upper half. Between
them the code runs through tables that it has just written or is about to change: every pop, the
descriptor of the far jump, all code behind the switch and every store of `_start64` is found by
the processor through the tables as they are at that moment, or through what it has kept of earlier
lookups. `start` is the run from a state that a boot loader hands over.

The stores of `_start64` take away the mapping that they are made through (`translated_iff`). So it
depends on the processor where the run ends: it reaches `main` if every store is still found
(`StoreFound`), and faults at the first one that is not.
-/

namespace LunarOS

open Logic LongMode

/-- PM mode, FPU, paging -/
def CR0_REG : Nat := 1 <<< 0 ||| 1 <<< 4 ||| 1 <<< 31

/-- PAE -/
def CR4_REG : Nat := 1 <<< 5

def MSR_EFER_LM : Nat := 1 <<< 8

/-- Code that lies at `load` and is linked to run at `link`. -/
structure CodeBlock where
  link : Nat
  load : Nat
  size : Nat

/-- What the linker has put where, besides the tables: the code of `boot.S` and of the kernel, the
stack, the page of the descriptors, and the end of the image. -/
structure EntrySymbols extends BootSymbols where
  kernelEnd : Nat
  kernelEnd_low : kernelEnd < 2 ^ 30
  tables_low : ∀ t, address t < 2 ^ 21
  tables_inside : ∀ t, address t + PGSIZE ≤ kernelEnd
  bootText : CodeBlock
  bootText_link : bootText.link = bootText.load
  bootText_inside : bootText.load + bootText.size ≤ kernelEnd
  text : CodeBlock
  text_link : text.link = VMM_KERNEL_START + text.load
  text_inside : text.load + text.size ≤ kernelEnd
  stack : Nat
  stack_page : PGSIZE ∣ stack
  stack_inside : stack + 0x4000 ≤ kernelEnd
  stack_apart : ∀ t, address t + PGSIZE ≤ stack ∨ stack + 0x4000 ≤ address t
  gdt : Nat
  gdt_page : PGSIZE ∣ gdt
  gdt_inside : gdt + PGSIZE ≤ kernelEnd
  gdt_apart : ∀ t, address t ≠ gdt
  gdt_stack : gdt + PGSIZE ≤ stack ∨ stack + 0x4000 ≤ gdt
  /-- Behind `call main` -/
  afterMain : Nat

/-- The state of the processor, as far as the boot code uses it, and the memory. -/
structure BootCpu where
  rsp : Nat
  control : Control
  gdtr : TableRegister
  cs : CodeSegment
  /-- Results of lookups that the processor keeps while `_start64` changes the tables -/
  tlb : Nat → Option Nat
  mem : Nat → Nat

/-- 32 bits at an address that four divides. -/
def storel (m : Nat → Nat) (a v : Nat) : Nat → Nat :=
  if a % 8 = 0 then movl m a v
  else Function.update m (a - 4) (m (a - 4) % 2 ^ 32 + v % 2 ^ 32 * 2 ^ 32)

def loadl (m : Nat → Nat) (a : Nat) : Nat :=
  if a % 8 = 0 then m a % 2 ^ 32 else m (a - 4) / 2 ^ 32 % 2 ^ 32

namespace BootCpu

/-- What is kept is not looked up again. -/
def lookup (c : BootCpu) (v : Nat) : Option Nat :=
  if c.control.Paging then (c.tlb v).or (c.control.translate c.mem v) else some v

/-- The processor may keep every result that it can have, and no longer keep it at any time. -/
def keep (c : BootCpu) (keeps : Nat → Bool) : BootCpu :=
  { c with tlb := fun v => if keeps v then c.lookup v else none }

/-- A write to `%cr3`, or one to `%cr0` that turns paging on. -/
def flush (c : BootCpu) : BootCpu := { c with tlb := fun _ => none }

/-- The physical address of an access. -/
def address (c : BootCpu) (v : Nat) : Except Trap Nat :=
  match c.lookup v with
  | some p => .ok p
  | none => .error (.page v)

/-- The code can be run: the processor is in its mode, and finds it at its addresses. -/
def fetch (c : BootCpu) (long : Bool) (code : CodeBlock) : Except Trap Unit :=
  if decide (SixtyFour c.control c.cs) ≠ long then .error .width
  else if ∀ i < code.size, c.lookup (code.link + i) = some (code.load + i) then .ok ()
  else .error (.page code.link)

def pushl (c : BootCpu) (v : Nat) : Except Trap BootCpu := do
  let rsp := (c.rsp + 2 ^ 32 - 4) % 2 ^ 32
  let p ← c.address rsp
  .ok { c with rsp, mem := storel c.mem p v }

def popl (c : BootCpu) : Except Trap (Nat × BootCpu) := do
  let p ← c.address c.rsp
  .ok (loadl c.mem p, { c with rsp := (c.rsp + 4) % 2 ^ 32 })

def pushq (c : BootCpu) (v : Nat) : Except Trap BootCpu := do
  let rsp := sub64 c.rsp 8
  let p ← c.address rsp
  .ok { c with rsp, mem := movq c.mem p v }

/-- A limit of 16 bits and a base of 32. -/
def lgdt (c : BootCpu) (a : Nat) : Except Trap BootCpu := do
  let p ← c.address a
  .ok { c with gdtr := ⟨c.mem p / 2 ^ 16 % 2 ^ 32, c.mem p % 2 ^ 16⟩ }

def ljmp (c : BootCpu) (selector : Nat) : Except Trap BootCpu := do
  let (cs, mem) ← farJump c.control c.gdtr c.cs c.mem selector
  .ok { c with cs, mem }

end BootCpu

/-- The arguments of `main`, as `start64.S` lists them. -/
structure MainArgs where
  rdi : Nat
  rsi : Nat
  rdx : Nat
  rcx : Nat

inductive Entered
  | halted (c : BootCpu)
  | main (args : MainArgs) (c : BootCpu)
  /-- The loop `L1` takes more turns. -/
  | running

section

variable (s : EntrySymbols) (keeps : Nat → Nat → Bool)

def bootCpuSetpaging (c : Control) : Except Trap Control := do
  let c := { c with cr3 := s.address .pml4 }
  let c ← c.setCr4 CR4_REG
  let c ← c.setEfer (c.efer ||| MSR_EFER_LM)
  c.setCr0 CR0_REG

/-- Store `k` of `_start64`. -/
def runStore (c : BootCpu) (store : Nat × Nat) (k : Nat) : Except Trap BootCpu := do
  let c := c.keep (keeps k)
  c.fetch true s.text
  let p ← c.address store.1
  .ok { c with mem := movq c.mem p store.2 }

def runStores (c : BootCpu) (stores : List (Nat × Nat)) (k : Nat) : Except Trap BootCpu :=
  (stores.zipIdx k).foldlM (fun c (store, k) => runStore s keeps c store k) c

/-- `_start64`, up to the first instruction of `main`. -/
def enterMain (c : BootCpu) (rdi rsi : Nat) : Except Trap Entered := do
  c.fetch true s.text
  let r11 := VMM_KERNEL_START
  let c := { c with rsp := add64 c.rsp r11 }
  let c ← runStores s keeps c (start64Stores s.toBootSymbols) 0
  c.fetch true s.text
  let c := c.flush
  let rdx := s.kernelEnd
  let rcx := add64 (s.address .pte) r11
  let rsi := add64 rsi r11
  let c ← c.pushq s.afterMain
  c.fetch true s.text
  .ok (.main ⟨rdi, rsi, rdx, rcx⟩ c)

/-- From the reload of `%cr0` to `_trampoline`. -/
def trampoline (c : BootCpu) : Except Trap Entered := do
  c.fetch false s.bootText
  let (edi, c) ← c.popl
  let (esi, c) ← c.popl
  let c ← c.lgdt (s.gdt + GDT_TABLE_SIZE)
  let c ← c.ljmp 8
  c.fetch true s.bootText
  enterMain s keeps c edi esi

/-- `_start`: the boot loader leaves its magic number in `%eax` and the address of its block in
`%ebx`, and `cpuid` the features of leaf `0x80000001` in `%edx`; `keeps` says of every store of
`_start64` which results the processor still keeps. -/
def start (eax ebx edx : Nat) (c : BootCpu) (fuel : Nat) : Except Trap Entered := do
  let c := { c with rsp := s.stack + 0x4000 }
  let c ← c.pushl ebx
  let c ← c.pushl eax
  if edx &&& 1 <<< 29 = 0 then .ok (.halted c)
  else
    match bootMmapKernel s.toBootSymbols s.kernelEnd (bootPageInit s.toBootSymbols c.mem) fuel with
    | none => .ok .running
    | some mem => do
      let control ← bootCpuSetpaging s c.control
      trampoline s keeps { c with control, mem }.flush

end

/-! ## Both ends of the run -/

def EntrySymbols.pages (s : EntrySymbols) : Nat := kernelPages s.kernelEnd

/-- The word of the stack that is used. -/
def EntrySymbols.top (s : EntrySymbols) : Nat := s.stack + 0x3FF8

/-- What a boot loader leaves at `_start`: 32-bit code at level 0 without paging, and the image in
memory, with its uninitialised part cleared. -/
structure HandedOver (s : EntrySymbols) (c : BootCpu) : Prop where
  paging : ¬ c.control.Paging
  inactive : ¬ c.control.Active
  width : ¬ Long c.cs.descriptor
  level : c.cs.cpl = 0
  tables : Holds s.toBootSymbols c.mem fun _ _ => 0
  entry : c.mem (s.gdt + 8) = GDT_KERNEL_ENTRY
  pointer : c.mem (s.gdt + GDT_TABLE_SIZE) % 2 ^ 48 = GDT_TABLE_SIZE - 1 + s.gdt * 2 ^ 16

/-- The state at the first instruction of `main`. -/
structure EntersMain (s : EntrySymbols) (eax ebx : Nat) (c : BootCpu) (args : MainArgs)
    (c' : BootCpu) : Prop where
  args_eq : args = ⟨eax, VMM_KERNEL_START + ebx, s.kernelEnd, VMM_KERNEL_START + s.address .pte⟩
  mode : SixtyFour c'.control c'.cs ∧ c'.cs.cpl = 0
  stack : c'.rsp + 8 = VMM_KERNEL_START + (s.stack + 0x4000)
  returns : c'.lookup c'.rsp = some s.top ∧ c'.mem s.top = s.afterMain
  flushed : ∀ v, c'.tlb v = none
  tables : Holds s.toBootSymbols c'.mem (finalContents s.toBootSymbols s.pages)
  space : ∀ v p, c'.control.translate c'.mem v = some p ↔
    v = VMM_KERNEL_START + p ∧ p < s.pages * 2 ^ 21
  /-- The boot loader's block can be read exactly when it is inside the kernel's pages. -/
  block : ∀ size > 0, (∀ i < size, c'.control.translate c'.mem (args.rsi + i) = some (ebx + i)) ↔
    ebx + size ≤ s.pages * 2 ^ 21
  frame : ∀ a, Elsewhere s.toBootSymbols a → a ≠ s.top → a ≠ s.gdt + 8 → c'.mem a = c.mem a

/-- Kept at every store from the third to the one before store `k`. -/
def KeptBefore (keeps : Nat → Nat → Bool) (k a : Nat) : Prop := ∀ i, 2 ≤ i → i < k → keeps i a

/-- The address of store `k` of `_start64` is found: by the tables for the first three, and for
the others if the processor has kept it since the third. -/
def StoreFound (s : BootSymbols) (keeps : Nat → Nat → Bool) (k : Nat) : Prop :=
  k < 3 ∨ ∀ store, (start64Stores s)[k]? = some store → KeptBefore keeps (k + 1) store.1

inductive StartEnds (s : EntrySymbols) (keeps : Nat → Nat → Bool) (eax ebx edx : Nat)
    (c : BootCpu) : Except Trap Entered → Prop
  | halted {c' : BootCpu} : edx.testBit 29 = false → (∀ a ≠ s.top, c'.mem a = c.mem a) →
      StartEnds s keeps eax ebx edx c (.ok (.halted c'))
  | main {args : MainArgs} {c' : BootCpu} : edx.testBit 29 = true →
      (∀ k < 515, StoreFound s.toBootSymbols keeps k) → EntersMain s eax ebx c args c' →
      StartEnds s keeps eax ebx edx c (.ok (.main args c'))
  /-- The first store whose address is not found -/
  | fault {k : Nat} {store : Nat × Nat} : edx.testBit 29 = true →
      (start64Stores s.toBootSymbols)[k]? = some store →
      (∀ j < k, StoreFound s.toBootSymbols keeps j) → ¬ StoreFound s.toBootSymbols keeps k →
      StartEnds s keeps eax ebx edx c (.error (.page store.1))

/-! ## Translations on the way -/

section

variable {s : BootSymbols} {m : Nat → Nat} {c : Contents} {n : Nat}

theorem Holds.update (h : Holds s m c) {a : Nat} (ha : Elsewhere s a) (e : Nat) :
    Holds s (Function.update m a e) c := by
  intro t i hi
  rw [Function.update_of_ne (ha t i hi).symm]
  exact h t i hi

/-- Through two tables to a page of 2 MiB. -/
theorem Holds.translate_page (h : Holds s m c) {v f : Nat} (hCanonical : Paging.Canonical v)
    (t t' : Table) (hFrame : f < 2 ^ 31) (hTop : c .pml4 (Paging.slot 3 v) = s.address t + 3)
    (hNext : c t (Paging.slot 2 v) = s.address t' + 3)
    (hPage : c t' (Paging.slot 1 v) = f * 2 ^ 21 + 131) :
    Paging.translate m (s.address .pml4) v = some (f * 2 ^ 21 + v % 2 ^ 21) := by
  unfold Paging.translate
  rw [if_pos hCanonical, h.walk_link .pml4 t 2 hTop, h.walk_link t t' 1 hNext]
  exact Paging.walk_page 0 (by decide) hFrame (by decide) (by decide) (by decide)
    ((h.entry t' 1 v).trans hPage)

/-- The tables of PML4 entry 256, whatever the others hold. -/
structure UpperHalf (s : BootSymbols) (n : Nat) (c : Contents) : Prop where
  top : c .pml4 256 = s.address .pdpte2mb + 3
  next : c .pdpte2mb 0 = s.address .pde2mb + 3
  pages : ∀ i < n, c .pde2mb i = i * 2 ^ 21 + 131

theorem UpperHalf.translate (hUpper : UpperHalf s n c) (hn : n ≤ 512) (h : Holds s m c) {a : Nat}
    (ha : a < n * 2 ^ 21) :
    Paging.translate m (s.address .pml4) (VMM_KERNEL_START + a) = some a := by
  have hCanonical : Paging.Canonical (VMM_KERNEL_START + a) := by
    unfold Paging.Canonical VMM_KERNEL_START
    omega
  have h3 : Paging.slot 3 (VMM_KERNEL_START + a) = 256 := by
    unfold Paging.slot Paging.width VMM_KERNEL_START
    omega
  have h2 : Paging.slot 2 (VMM_KERNEL_START + a) = 0 := by
    unfold Paging.slot Paging.width VMM_KERNEL_START
    omega
  have h1 : Paging.slot 1 (VMM_KERNEL_START + a) = a / 2 ^ 21 := by
    unfold Paging.slot Paging.width VMM_KERNEL_START
    omega
  rw [h.translate_page hCanonical .pdpte2mb .pde2mb (f := a / 2 ^ 21) (by omega)
    (by rw [h3, hUpper.top]) (by rw [h2, hUpper.next]) (by rw [h1, hUpper.pages _ (by omega)])]
  unfold VMM_KERNEL_START
  exact congrArg some (by omega)

/-- Before `_start64`, low addresses stand for themselves. -/
theorem translate_lower (hn : n ≤ 512) (h : Holds s m ((linkedContents s).withPages n)) {a : Nat}
    (ha : a < n * 2 ^ 21) : Paging.translate m (s.address .pml4) a = some a := by
  have hCanonical : Paging.Canonical a := .inl (by omega)
  have h3 : Paging.slot 3 a = 0 := by
    unfold Paging.slot Paging.width
    omega
  have h2 : Paging.slot 2 a = 0 := by
    unfold Paging.slot Paging.width
    omega
  have h1 : Paging.slot 1 a = a / 2 ^ 21 := by
    unfold Paging.slot Paging.width
    omega
  have hLess : a / 2 ^ 21 < n := by omega
  rw [h.translate_page hCanonical .pdpte .pde (f := a / 2 ^ 21) (by omega)
    (by simp [h3, Contents.withPages, linkedContents, Contents.set])
    (by simp [h2, Contents.withPages, linkedContents, Contents.set])
    (by rw [h1]; exact if_pos ⟨.inl rfl, hLess⟩)]
  exact congrArg some (by omega)

theorem linked_upper (s : BootSymbols) (n : Nat) :
    UpperHalf s n ((linkedContents s).withPages n) where
  top := by simp [Contents.withPages, linkedContents, Contents.set]
  next := by simp [Contents.withPages, linkedContents, Contents.set]
  pages i hi := by simp [Contents.withPages, hi]

/-- An entry that is none of the upper half's. -/
def BesideUpper (t : Table) (i : Nat) : Prop :=
  t ≠ .pdpte2mb ∧ t ≠ .pde2mb ∧ (t = .pml4 → i ≠ 256)

theorem UpperHalf.set (hUpper : UpperHalf s n c) {t : Table} {i : Nat} (h : BesideUpper t i)
    (e : Nat) : UpperHalf s n (c.set t i e) where
  top := by
    rw [← hUpper.top]
    exact if_neg fun hSame => h.2.2 hSame.1.symm hSame.2.symm
  next := by
    rw [← hUpper.next]
    exact Contents.set_of_ne c h.1.symm ..
  pages j hj := by
    rw [← hUpper.pages j hj]
    exact Contents.set_of_ne c h.2.1.symm ..

/-- `_start64` stores into entries, and into none of the upper half's. -/
theorem start64Stores_beside {store : Nat × Nat} (hMem : store ∈ start64Stores s) :
    ∃ t, ∃ i < 512, store.1 = s.address t + i * 8 ∧ BesideUpper t i := by
  unfold start64Stores at hMem
  rcases List.mem_append.mp hMem with hFirst | hLoop
  · simp only [List.mem_cons, List.not_mem_nil, or_false] at hFirst
    rcases hFirst with rfl | rfl | rfl | rfl
    · exact ⟨.pml4, 257, by omega, rfl, by decide, by decide, by decide⟩
    · exact ⟨.pdpte, 0, by omega, rfl, by decide, by decide, by decide⟩
    · exact ⟨.pde, 0, by omega, rfl, by decide, by decide, by decide⟩
    · exact ⟨.pml4, 0, by omega, rfl, by decide, by decide, by decide⟩
  · obtain ⟨rcx, hRange, rfl⟩ := List.mem_map.mp hLoop
    have := List.mem_range'_1.mp hRange
    exact ⟨.pde, rcx, by omega, rfl, by decide, by decide, nofun⟩

end

/-! ## The stack -/

section

variable {m : Nat → Nat} {a : Nat}

theorem storel_low (h : a % 8 = 0) (v : Nat) : storel m a v = movl m a v := if_pos h

theorem storel_high (h : a % 8 = 0) (v : Nat) : storel m (a + 4) v =
    Function.update m a (m a % 2 ^ 32 + v % 2 ^ 32 * 2 ^ 32) := by
  unfold storel
  rw [if_neg (by omega), Nat.add_sub_cancel]

/-- Two values pushed on a word. -/
theorem storel_both (h : a % 8 = 0) {v w : Nat} (hv : v < 2 ^ 32) (hw : w < 2 ^ 32) :
    storel (storel m (a + 4) v) a w = Function.update m a (v * 2 ^ 32 + w) := by
  have hWord : (m a % 2 ^ 32 + v % 2 ^ 32 * 2 ^ 32) / 2 ^ 32 * 2 ^ 32 + w % 2 ^ 32 =
      v * 2 ^ 32 + w := by omega
  rw [storel_low h, storel_high h]
  unfold movl
  rw [Function.update_self, Function.update_idem, hWord]

theorem loadl_low (h : a % 8 = 0) : loadl m a = m a % 2 ^ 32 := if_pos h

theorem loadl_high (h : a % 8 = 0) : loadl m (a + 4) = m a / 2 ^ 32 % 2 ^ 32 := by
  unfold loadl
  rw [if_neg (by omega), Nat.add_sub_cancel]

end

namespace BootCpu

variable {c : BootCpu} {p : Nat}

theorem lookup_off (h : ¬ c.control.Paging) (v : Nat) : c.lookup v = some v := if_neg h

theorem lookup_on (h : c.control.Paging) (v : Nat) :
    c.lookup v = (c.tlb v).or (c.control.translate c.mem v) := if_pos h

/-- What is kept is right. -/
theorem lookup_of_translate {v : Nat} (h : c.control.translate c.mem v = some p)
    (hKept : ∀ q, c.tlb v = some q → q = p) : c.lookup v = some p := by
  by_cases hPaging : c.control.Paging
  · rw [lookup_on hPaging]
    cases hEntry : c.tlb v with
    | none => exact h
    | some q => rw [hKept q hEntry, Option.some_or]
  · rw [lookup_off hPaging, ← Control.translate_off hPaging c.mem v, h]

theorem lookup_flushed (h : ∀ v, c.tlb v = none) (v : Nat) :
    c.lookup v = c.control.translate c.mem v := by
  unfold lookup
  rw [h v, Option.none_or]
  split
  · rfl
  · next hOff => exact (Control.translate_off hOff c.mem v).symm

theorem lookup_keep (h : c.control.Paging) (keeps : Nat → Bool) (mem : Nat → Nat) (v : Nat) :
    lookup { c.keep keeps with mem } v =
      (if keeps v then c.lookup v else none).or (c.control.translate mem v) := if_pos h

theorem address_ok {v : Nat} (h : c.lookup v = some p) : c.address v = .ok p := by
  unfold address
  rw [h]

theorem address_error {v : Nat} (h : c.lookup v = none) : c.address v = .error (.page v) := by
  unfold address
  rw [h]

theorem pushl_ok (v : Nat)
    (h : c.lookup ((c.rsp + 2 ^ 32 - 4) % 2 ^ 32) = some p) :
    c.pushl v = .ok { c with rsp := (c.rsp + 2 ^ 32 - 4) % 2 ^ 32, mem := storel c.mem p v } := by
  unfold pushl
  dsimp only
  rw [address_ok h]
  rfl

theorem popl_ok (h : c.lookup c.rsp = some p) :
    c.popl = .ok (loadl c.mem p, { c with rsp := (c.rsp + 4) % 2 ^ 32 }) := by
  unfold popl
  rw [address_ok h]
  rfl

theorem pushq_ok (v : Nat) (h : c.lookup (sub64 c.rsp 8) = some p) :
    c.pushq v = .ok { c with rsp := sub64 c.rsp 8, mem := movq c.mem p v } := by
  unfold pushq
  dsimp only
  rw [address_ok h]
  rfl

theorem lgdt_ok {a : Nat} (h : c.lookup a = some p) :
    c.lgdt a = .ok { c with gdtr := ⟨c.mem p / 2 ^ 16 % 2 ^ 32, c.mem p % 2 ^ 16⟩ } := by
  unfold lgdt
  rw [address_ok h]
  rfl

theorem fetch_ok {long : Bool} {code : CodeBlock} (hMode : SixtyFour c.control c.cs ↔ long = true)
    (h : ∀ i < code.size, c.lookup (code.link + i) = some (code.load + i)) :
    c.fetch long code = .ok () := by
  unfold fetch
  rw [if_neg (by simp [hMode]), if_pos h]

end BootCpu

/-! ## The switch -/

section

variable {s : EntrySymbols} {c : BootCpu}

/-- The control registers in long mode. -/
def EntrySymbols.control (s : EntrySymbols) (efer : Nat) : Control where
  cr0 := CR0_REG
  cr3 := s.address .pml4
  cr4 := CR4_REG
  efer := efer ||| 2 ^ LME ||| 2 ^ LMA

theorem control_paging (s : EntrySymbols) (efer : Nat) : (s.control efer).Paging := by
  have hBit : CR0_REG.testBit PG = true := by decide
  exact hBit

theorem control_active (s : EntrySymbols) (efer : Nat) : (s.control efer).Active :=
  testBit_set_self (efer ||| 2 ^ LME) LMA

theorem control_translate (s : EntrySymbols) (efer : Nat) (m : Nat → Nat) (v : Nat) :
    (s.control efer).translate m v = Paging.translate m (s.address .pml4) v :=
  Control.translate_on (control_paging s efer) m v

/-- The writes keep all rules in the order in which they are made. -/
theorem bootCpuSetpaging_eq (h : HandedOver s c) :
    bootCpuSetpaging s c.control = .ok (s.control c.control.efer) :=
  Control.activate (c := { c.control with cr3 := s.address .pml4 }) h.paging h.inactive
    (by decide) (by decide) (by decide)

/-! ### Where things are -/

theorem EntrySymbols.pages_le (s : EntrySymbols) : s.pages ≤ 512 := by
  have := s.kernelEnd_low
  unfold EntrySymbols.pages kernelPages
  omega

/-- The image is inside its pages. -/
theorem EntrySymbols.inside (s : EntrySymbols) {a : Nat} (ha : a < s.kernelEnd) :
    a < s.pages * 2 ^ 21 := by
  unfold EntrySymbols.pages kernelPages
  omega

theorem EntrySymbols.top_mod (s : EntrySymbols) : s.top % 8 = 0 := by
  have := s.stack_page
  unfold EntrySymbols.top PGSIZE at *
  omega

theorem EntrySymbols.top_elsewhere (s : EntrySymbols) : Elsewhere s.toBootSymbols s.top := by
  intro t i hi
  have := s.stack_apart t
  unfold EntrySymbols.top PGSIZE at *
  omega

theorem EntrySymbols.gdt_elsewhere (s : EntrySymbols) {k : Nat} (hk : k < PGSIZE) :
    Elsewhere s.toBootSymbols (s.gdt + k) := by
  intro t i hi
  have hPage := s.gdt_page
  have hTable := s.aligned t
  have hApart := s.gdt_apart t
  unfold PGSIZE at *
  omega

theorem EntrySymbols.gdt_ne_top (s : EntrySymbols) {k : Nat} (hk : k < PGSIZE) :
    s.gdt + k ≠ s.top := by
  have := s.gdt_stack
  unfold EntrySymbols.top PGSIZE at *
  omega

/-! ### From the reload of `%cr0` to `_start64` -/

/-- The state when paging is on. -/
structure Paged (s : EntrySymbols) (eax ebx : Nat) (c : BootCpu) : Prop where
  control : ∃ efer, c.control = s.control efer
  rsp : c.rsp = s.top
  width : ¬ Long c.cs.descriptor
  level : c.cs.cpl = 0
  tlb : ∀ v, c.tlb v = none
  tables : Holds s.toBootSymbols c.mem ((linkedContents s.toBootSymbols).withPages s.pages)
  word : c.mem s.top = ebx * 2 ^ 32 + eax
  entry : c.mem (s.gdt + 8) = GDT_KERNEL_ENTRY
  pointer : c.mem (s.gdt + GDT_TABLE_SIZE) % 2 ^ 48 = GDT_TABLE_SIZE - 1 + s.gdt * 2 ^ 16

theorem kernelEntry_ok {c : Control} (hActive : c.Active) :
    loadCode c 0 0 GDT_KERNEL_ENTRY = .ok ⟨GDT_KERNEL_ENTRY, 0⟩ ∧
      SixtyFour c ⟨GDT_KERNEL_ENTRY, 0⟩ := by
  have hAccess : access GDT_KERNEL_ENTRY = 0x98 := by decide
  have hFlags : flags GDT_KERNEL_ENTRY = 2 := by decide
  refine ⟨loadCode_ok ?_ ?_ ?_ ?_, hActive, ?_⟩
  · unfold Code
    rw [hAccess]
    decide
  · unfold Big
    rw [hFlags]
    exact fun h => absurd h.2.2 (by decide)
  · rw [allowed_zero]
    unfold dpl
    rw [hAccess]
    decide
  · unfold Present
    rw [hAccess]
    decide
  · unfold Long
    rw [hFlags]
    decide

/-- The state at `_start64`. -/
def EntrySymbols.entered (s : EntrySymbols) (c : BootCpu) : BootCpu where
  rsp := s.stack + 0x4000
  control := c.control
  gdtr := ⟨s.gdt, GDT_TABLE_SIZE - 1⟩
  cs := ⟨GDT_KERNEL_ENTRY, 0⟩
  tlb := c.tlb
  mem := Function.update c.mem (s.gdt + 8) (GDT_KERNEL_ENTRY ||| 2 ^ 40)

section

variable {eax ebx : Nat}

/-- Low addresses of the image stand for themselves. -/
theorem Paged.translate (h : Paged s eax ebx c) {a : Nat} (ha : a < s.kernelEnd) :
    c.control.translate c.mem a = some a := by
  obtain ⟨efer, hControl⟩ := h.control
  rw [hControl, control_translate]
  exact translate_lower s.pages_le h.tables (s.inside ha)

theorem Paged.lookup (h : Paged s eax ebx c) {a : Nat} (ha : a < s.kernelEnd) :
    c.lookup a = some a := by
  rw [BootCpu.lookup_flushed h.tlb]
  exact h.translate ha

theorem Paged.pops (h : Paged s eax ebx c) (hEax : eax < 2 ^ 32) (hEbx : ebx < 2 ^ 32) :
    c.popl = .ok (eax, { c with rsp := s.top + 4 }) ∧
      BootCpu.popl { c with rsp := s.top + 4 } = .ok (ebx, { c with rsp := s.stack + 0x4000 }) := by
  have hInside := s.stack_inside
  have hLow := s.kernelEnd_low
  have hTop : s.top = s.stack + 0x3FF8 := rfl
  constructor
  · have hWord : loadl c.mem s.top = eax := by
      rw [loadl_low s.top_mod, h.word]
      omega
    have hNext : (s.top + 4) % 2 ^ 32 = s.top + 4 := Nat.mod_eq_of_lt (by omega)
    have hAddress : c.lookup c.rsp = some s.top := by
      rw [h.rsp]
      exact h.lookup (by omega)
    rw [BootCpu.popl_ok hAddress, hWord, h.rsp, hNext]
  · have hWord : loadl c.mem (s.top + 4) = ebx := by
      rw [loadl_high s.top_mod, h.word]
      omega
    have hNext : (s.top + 4 + 4) % 2 ^ 32 = s.stack + 0x4000 := by omega
    rw [BootCpu.popl_ok (c := { c with rsp := s.top + 4 }) (p := s.top + 4)
      (h.lookup (a := s.top + 4) (by omega)), hWord]
    dsimp only
    rw [hNext]

theorem Paged.active (h : Paged s eax ebx c) : c.control.Active := by
  obtain ⟨efer, hControl⟩ := h.control
  rw [hControl]
  exact control_active s efer

theorem Paged.entered_tables (h : Paged s eax ebx c) : Holds s.toBootSymbols (s.entered c).mem
    ((linkedContents s.toBootSymbols).withPages s.pages) :=
  h.tables.update (s.gdt_elsewhere (by decide)) _

theorem Paged.entered_fetch (h : Paged s eax ebx c) :
    (s.entered c).fetch true s.bootText = .ok () := by
  have hText := s.bootText_inside
  obtain ⟨efer, hControl⟩ := h.control
  apply BootCpu.fetch_ok
  · exact iff_of_true (kernelEntry_ok h.active).2 rfl
  · intro i hi
    have hEntered : (s.entered c).control = s.control efer := hControl
    rw [s.bootText_link, BootCpu.lookup_flushed (c := s.entered c) h.tlb, hEntered,
      control_translate]
    exact translate_lower s.pages_le h.entered_tables (s.inside (by omega))

theorem Paged.fetch (h : Paged s eax ebx c) : c.fetch false s.bootText = .ok () := by
  have hText := s.bootText_inside
  apply BootCpu.fetch_ok
  · simp [SixtyFour, h.width]
  · intro i hi
    rw [s.bootText_link]
    exact h.lookup (by omega)

theorem Paged.lgdt (h : Paged s eax ebx c) (rsp : Nat) :
    BootCpu.lgdt { c with rsp } (s.gdt + GDT_TABLE_SIZE) =
      .ok { c with rsp, gdtr := ⟨s.gdt, GDT_TABLE_SIZE - 1⟩ } := by
  have hPointer := h.pointer
  have hBase : c.mem (s.gdt + GDT_TABLE_SIZE) / 2 ^ 16 % 2 ^ 32 = s.gdt := by
    unfold GDT_TABLE_SIZE at hPointer ⊢
    omega
  have hLimit : c.mem (s.gdt + GDT_TABLE_SIZE) % 2 ^ 16 = GDT_TABLE_SIZE - 1 := by
    unfold GDT_TABLE_SIZE at hPointer ⊢
    omega
  have hGdt := s.gdt_inside
  have hAddress : c.lookup (s.gdt + GDT_TABLE_SIZE) = some (s.gdt + GDT_TABLE_SIZE) :=
    h.lookup (by unfold GDT_TABLE_SIZE PGSIZE at *; omega)
  rw [BootCpu.lgdt_ok (c := { c with rsp }) hAddress]
  dsimp only
  rw [hBase, hLimit]

/-- The jump takes the second entry. -/
theorem Paged.ljmp (h : Paged s eax ebx c) :
    BootCpu.ljmp { c with rsp := s.stack + 0x4000, gdtr := ⟨s.gdt, GDT_TABLE_SIZE - 1⟩ } 8 =
      .ok (s.entered c) := by
  have hGdt := s.gdt_inside
  have hAddress : c.control.translate c.mem (s.gdt + 8 / 8 * 8) = some (s.gdt + 8) :=
    h.translate (by unfold PGSIZE at hGdt; omega)
  have hLimit : 8 / 8 * 8 + 7 ≤ GDT_TABLE_SIZE - 1 := by decide
  unfold BootCpu.ljmp
  rw [farJump_eq (by decide) (by decide) hLimit hAddress, h.entry, h.level,
    (kernelEntry_ok h.active).1]
  rfl

theorem Paged.trampoline_eq (h : Paged s eax ebx c) (hEax : eax < 2 ^ 32) (hEbx : ebx < 2 ^ 32)
    (keeps : Nat → Nat → Bool) :
    trampoline s keeps c = enterMain s keeps (s.entered c) eax ebx := by
  obtain ⟨hPop, hPop'⟩ := h.pops hEax hEbx
  unfold trampoline
  rw [h.fetch, ok_bind, hPop, ok_bind]
  dsimp only
  rw [hPop', ok_bind]
  dsimp only
  rw [h.lgdt, ok_bind, h.ljmp, ok_bind, h.entered_fetch, ok_bind]

/-! ### `_start64` -/

/-- The state while `_start64` runs: 64-bit code at level 0, found through the upper half. -/
structure Upper (s : EntrySymbols) (c : BootCpu) (contents : Contents) : Prop where
  control : ∃ efer, c.control = s.control efer
  cs : c.cs = ⟨GDT_KERNEL_ENTRY, 0⟩
  tables : Holds s.toBootSymbols c.mem contents
  upper : UpperHalf s.toBootSymbols s.pages contents
  kept : ∀ a < s.kernelEnd, ∀ p, c.tlb (VMM_KERNEL_START + a) = some p → p = a

variable {contents : Contents}

theorem Upper.lookup (h : Upper s c contents) {a : Nat} (ha : a < s.kernelEnd) :
    c.lookup (VMM_KERNEL_START + a) = some a := by
  obtain ⟨efer, hControl⟩ := h.control
  refine BootCpu.lookup_of_translate ?_ (h.kept a ha)
  rw [hControl, control_translate]
  exact h.upper.translate s.pages_le h.tables (s.inside ha)

theorem Upper.paging (h : Upper s c contents) : c.control.Paging := by
  obtain ⟨efer, hControl⟩ := h.control
  rw [hControl]
  exact control_paging s efer

theorem Upper.mode (h : Upper s c contents) : SixtyFour c.control c.cs := by
  obtain ⟨efer, hControl⟩ := h.control
  rw [h.cs, hControl]
  exact (kernelEntry_ok (control_active s efer)).2

theorem Upper.fetch (h : Upper s c contents) : c.fetch true s.text = .ok () := by
  have hText := s.text_inside
  apply BootCpu.fetch_ok
  · exact iff_of_true h.mode rfl
  · intro i hi
    rw [s.text_link, Nat.add_assoc]
    exact h.lookup (by omega)

theorem Upper.setRsp (h : Upper s c contents) (rsp : Nat) : Upper s { c with rsp } contents :=
  ⟨h.control, h.cs, h.tables, h.upper, h.kept⟩

theorem Upper.flush (h : Upper s c contents) : Upper s c.flush contents :=
  ⟨h.control, h.cs, h.tables, h.upper, nofun⟩

theorem Upper.keep (h : Upper s c contents) (keeps : Nat → Bool) :
    Upper s (c.keep keeps) contents := by
  refine ⟨h.control, h.cs, h.tables, h.upper, ?_⟩
  intro a ha p hEntry
  unfold BootCpu.keep at hEntry
  dsimp only at hEntry
  rw [h.lookup ha] at hEntry
  split at hEntry
  · exact (Option.some.inj hEntry).symm
  · cases hEntry

theorem Upper.store (h : Upper s c contents) {t : Table} {i : Nat} (hi : i < 512)
    (hBeside : BesideUpper t i) (e : Nat) :
    Upper s { c with mem := movq c.mem (s.address t + i * 8) e } (contents.set t i e) :=
  ⟨h.control, h.cs, h.tables.movq t hi e, h.upper.set hBeside e, h.kept⟩

/-! #### One store after the other -/

/-- The state before store `k`, from the state `c0` on. -/
structure Storing (s : EntrySymbols) (keeps : Nat → Nat → Bool) (c0 : BootCpu) (k : Nat)
    (c : BootCpu) : Prop where
  frame : c = { c0 with tlb := c.tlb, mem := beforeStore s.toBootSymbols c0.mem k }
  upper : ∃ contents, Upper s c contents
  lower : ∀ a < 2 ^ 21, ∀ p, c.lookup a = some p ↔
    p = a ∧ KeptBefore keeps k a

variable {keeps : Nat → Nat → Bool} {m : Nat → Nat} {k : Nat} {c0 : BootCpu}

/-- The tables give low addresses before the first three stores alone. -/
theorem translate_beforeStore
    (h : Holds s.toBootSymbols m ((linkedContents s.toBootSymbols).withPages s.pages))
    (hControl : ∃ efer, c.control = s.control efer) {a : Nat} (ha : a < 2 ^ 21) (k : Nat) :
    c.control.translate (beforeStore s.toBootSymbols m k) a =
      if k < 3 then some a else none := by
  obtain ⟨efer, hControl⟩ := hControl
  rw [hControl, control_translate]
  rcases Nat.lt_or_ge 3 k with hRest | hFirst
  · obtain ⟨j, rfl⟩ := Nat.exists_eq_add_of_le (by omega : 4 ≤ k)
    rw [beforeStore_rest h ha, if_neg (by omega)]
  · exact beforeStore_first (Nat.succ_pos _) h ha k hFirst

theorem beforeStore_succ {store : Nat × Nat}
    (hStore : (start64Stores s.toBootSymbols)[k]? = some store) :
    beforeStore s.toBootSymbols m (k + 1) =
      movq (beforeStore s.toBootSymbols m k) store.1 store.2 := by
  unfold beforeStore
  rw [List.take_add_one, hStore, storeAll_append]
  rfl

theorem keptBefore_of_le {a : Nat} (h : k ≤ 2) : KeptBefore keeps k a :=
  fun i _ hi => absurd hi (by omega)

theorem keptBefore_succ {a : Nat} (h : 2 ≤ k) :
    KeptBefore keeps (k + 1) a ↔ keeps k a ∧ KeptBefore keeps k a := by
  constructor
  · exact fun hAll => ⟨hAll k h (by omega), fun i hFrom hi => hAll i hFrom (by omega)⟩
  · rintro ⟨hLast, hAll⟩ i hFrom hi
    rcases Nat.lt_succ_iff_lt_or_eq.mp hi with hLess | rfl
    · exact hAll i hFrom hLess
    · exact hLast

/-- A result is there because it is kept or because the tables give it. -/
theorem kept_or_iff {e : Option Nat} {a : Nat} {kept : Bool} {old now : Prop} [Decidable now]
    (h : ∀ p, e = some p ↔ p = a ∧ old) (p : Nat) :
    (if kept then e else none).or (if now then some a else none) = some p ↔
      p = a ∧ (now ∨ kept ∧ old) := by
  have hEntry : (if kept then e else none) = some p ↔ p = a ∧ kept ∧ old := by
    cases kept with
    | false => simp
    | true => simp [h p]
  have hEntry' : (if kept then e else none) = none ∨ (if kept then e else none) = some a := by
    cases kept with
    | false => exact .inl rfl
    | true =>
      cases e with
      | none => exact .inl rfl
      | some q => exact .inr (congrArg some ((h q).mp rfl).1)
  by_cases hNow : now
  · rw [if_pos hNow]
    rcases hEntry' with hNone | hSome
    · simp [hNone, hNow, eq_comm]
    · simp [hSome, hNow, eq_comm]
  · rw [if_neg hNow, Option.or_none, hEntry]
    simp [hNow]

section

variable (hTables : Holds s.toBootSymbols c0.mem
  ((linkedContents s.toBootSymbols).withPages s.pages)) (h : Storing s keeps c0 k c)

include h

theorem Storing.mem_eq : c.mem = beforeStore s.toBootSymbols c0.mem k := by rw [h.frame]

include hTables

/-- At store `k` a low address is found if the tables give it or if it is kept. -/
theorem Storing.lookup_keep {a : Nat} (ha : a < 2 ^ 21) (p : Nat) :
    (c.keep (keeps k)).lookup a = some p ↔ p = a ∧ (k < 3 ∨ KeptBefore keeps (k + 1) a) := by
  obtain ⟨contents, hUpper⟩ := h.upper
  have hNow := BootCpu.lookup_keep hUpper.paging (keeps k) c.mem a
  rw [h.mem_eq, translate_beforeStore hTables hUpper.control ha, ← h.mem_eq] at hNow
  refine (iff_of_eq (congrArg (· = some p) hNow)).trans ?_
  rw [kept_or_iff (h.lower a ha)]
  by_cases hFirst : k < 3
  · simp [hFirst]
  · simp only [hFirst, false_or, keptBefore_succ (show 2 ≤ k by omega)]

theorem Storing.next {store : Nat × Nat}
    (hStore : (start64Stores s.toBootSymbols)[k]? = some store) :
    Storing s keeps c0 (k + 1)
      { c.keep (keeps k) with mem := movq c.mem store.1 store.2 } := by
  obtain ⟨contents, hUpper⟩ := h.upper
  have hMem : movq c.mem store.1 store.2 = beforeStore s.toBootSymbols c0.mem (k + 1) := by
    rw [beforeStore_succ hStore, h.mem_eq]
  refine ⟨?_, ?_, ?_⟩
  · rw [hMem]
    unfold BootCpu.keep
    rw [h.frame]
  · obtain ⟨t, i, hi, hAddress, hBeside⟩ := start64Stores_beside (List.mem_of_getElem? hStore)
    rw [hAddress]
    exact ⟨_, (hUpper.keep (keeps k)).store hi hBeside store.2⟩
  · intro a ha p
    rw [BootCpu.lookup_keep hUpper.paging, hMem, translate_beforeStore hTables hUpper.control ha,
      kept_or_iff (h.lower a ha)]
    by_cases hFirst : k + 1 < 3
    · simp [hFirst, keptBefore_of_le (show k + 1 ≤ 2 by omega)]
    · simp only [hFirst, false_or, keptBefore_succ (show 2 ≤ k by omega)]

theorem Storing.step_ok {store : Nat × Nat}
    (hStore : (start64Stores s.toBootSymbols)[k]? = some store)
    (hFound : k < 3 ∨ KeptBefore keeps (k + 1) store.1) :
    runStore s keeps c store k =
      .ok { c.keep (keeps k) with mem := movq c.mem store.1 store.2 } := by
  obtain ⟨contents, hUpper⟩ := h.upper
  have ha := start64Stores_low s.tables_low (List.mem_of_getElem? hStore)
  have hAddress := (h.lookup_keep hTables ha store.1).mpr ⟨rfl, hFound⟩
  unfold runStore
  dsimp only
  rw [(hUpper.keep (keeps k)).fetch, ok_bind, BootCpu.address_ok hAddress]
  rfl

theorem Storing.step_error {store : Nat × Nat}
    (hStore : (start64Stores s.toBootSymbols)[k]? = some store)
    (hLost : ¬ (k < 3 ∨ KeptBefore keeps (k + 1) store.1)) :
    runStore s keeps c store k = .error (.page store.1) := by
  obtain ⟨contents, hUpper⟩ := h.upper
  have ha := start64Stores_low s.tables_low (List.mem_of_getElem? hStore)
  have hAddress : (c.keep (keeps k)).lookup store.1 = none := by
    apply Option.eq_none_iff_forall_ne_some.mpr
    intro p hEntry
    exact hLost ((h.lookup_keep hTables ha p).mp hEntry).2
  unfold runStore
  dsimp only
  rw [(hUpper.keep (keeps k)).fetch, ok_bind, BootCpu.address_error hAddress]
  rfl

end

theorem storeFound_iff (keeps : Nat → Nat → Bool) {store : Nat × Nat}
    (hStore : (start64Stores s.toBootSymbols)[k]? = some store) :
    StoreFound s.toBootSymbols keeps k ↔ k < 3 ∨ KeptBefore keeps (k + 1) store.1 := by
  unfold StoreFound
  rw [hStore]
  simp only [Option.some.injEq, forall_eq']

/-- All stores from store `k` on, up to the first one that is not found. -/
theorem Storing.run
    (hTables : Holds s.toBootSymbols c0.mem ((linkedContents s.toBootSymbols).withPages s.pages))
    (stores : List (Nat × Nat)) (h : Storing s keeps c0 k c)
    (hRest : (start64Stores s.toBootSymbols).drop k = stores) :
    (∃ c', runStores s keeps c stores k = .ok c' ∧ Storing s keeps c0 (k + stores.length) c' ∧
      ∀ j, k ≤ j → j < k + stores.length → StoreFound s.toBootSymbols keeps j) ∨
    ∃ j store, (start64Stores s.toBootSymbols)[j]? = some store ∧
      (∀ i, k ≤ i → i < j → StoreFound s.toBootSymbols keeps i) ∧
      ¬ StoreFound s.toBootSymbols keeps j ∧
      runStores s keeps c stores k = .error (.page store.1) := by
  induction stores generalizing k c with
  | nil => exact .inl ⟨c, rfl, h, fun j hFrom hTo => absurd hTo (Nat.not_lt.mpr hFrom)⟩
  | cons store rest ih =>
    have hStore : (start64Stores s.toBootSymbols)[k]? = some store := by
      rw [← List.head?_drop, hRest]
      rfl
    have hTail : (start64Stores s.toBootSymbols).drop (k + 1) = rest := by
      rw [← List.tail_drop, hRest]
      rfl
    have hFirst := storeFound_iff keeps hStore
    by_cases hFound : k < 3 ∨ KeptBefore keeps (k + 1) store.1
    · have hRun : runStores s keeps c (store :: rest) k =
          runStores s keeps { c.keep (keeps k) with mem := movq c.mem store.1 store.2 } rest
            (k + 1) := by
        unfold runStores
        rw [List.zipIdx_cons, List.foldlM_cons]
        dsimp only
        rw [h.step_ok hTables hStore hFound, ok_bind]
      have hFrom : ∀ {n}, (∀ i, k + 1 ≤ i → i < n → StoreFound s.toBootSymbols keeps i) →
          ∀ i, k ≤ i → i < n → StoreFound s.toBootSymbols keeps i := by
        intro n hAll i hi hLess
        rcases Nat.eq_or_lt_of_le hi with rfl | hLater
        · exact hFirst.mpr hFound
        · exact hAll i hLater hLess
      have hLength : k + (store :: rest).length = k + 1 + rest.length := by
        rw [List.length_cons]
        omega
      rw [hRun, hLength]
      rcases ih (h.next hTables hStore) hTail with
        ⟨c', hOk, hEnd, hAll⟩ | ⟨j, lost, hj, hAll, hLost⟩
      · exact .inl ⟨c', hOk, hEnd, hFrom hAll⟩
      · exact .inr ⟨j, lost, hj, hFrom hAll, hLost⟩
    · refine .inr ⟨k, store, hStore, fun i hi hLess => absurd hLess (Nat.not_lt.mpr hi),
        fun h' => hFound (hFirst.mp h'), ?_⟩
      unfold runStores
      rw [List.zipIdx_cons, List.foldlM_cons]
      dsimp only
      rw [h.step_error hTables hStore hFound]
      rfl

/-- What the stores of `_start64` leave. -/
theorem storeAll_holds {m : Nat → Nat}
    (h : Holds s.toBootSymbols m ((linkedContents s.toBootSymbols).withPages s.pages)) :
    Holds s.toBootSymbols (storeAll m (start64Stores s.toBootSymbols))
      (finalContents s.toBootSymbols s.pages) := by
  obtain ⟨m', hRun, h'⟩ := unmap_holds (reuseTables_holds h)
  have hStores : Loop.run (unmapStep s.toBootSymbols) 510 (1, reuseTables s.toBootSymbols m) =
      some (storeAll m (start64Stores s.toBootSymbols)) := start64_eq m
  have hSame := Loop.Returns.unique ⟨512, hRun⟩ ⟨510, hStores⟩
  rw [← hSame]
  intro t i hi
  rw [h' t i hi, final_eq s.toBootSymbols _ t hi]

/-- An address of 32 bits in the upper half. -/
theorem add64_kernelStart {a : Nat} (ha : a < 2 ^ 32) :
    add64 a VMM_KERNEL_START = VMM_KERNEL_START + a := by
  rw [Nat.add_comm VMM_KERNEL_START]
  apply add64_eq
  unfold VMM_KERNEL_START wordSize
  omega

theorem storing_zero (keeps : Nat → Nat → Bool)
    (h : Upper s c ((linkedContents s.toBootSymbols).withPages s.pages))
    (hTlb : ∀ v, c.tlb v = none) : Storing s keeps c 0 c := by
  refine ⟨rfl, ⟨_, h⟩, ?_⟩
  intro a ha p
  have hNow := translate_beforeStore h.tables h.control ha 0
  rw [BootCpu.lookup_flushed hTlb, show c.mem = beforeStore s.toBootSymbols c.mem 0 from rfl, hNow]
  simp [keptBefore_of_le, eq_comm]

/-- The state that `main` starts from, when the stores of `_start64` have left the memory `m`. -/
def atMain (s : EntrySymbols) (c : BootCpu) (m : Nat → Nat) : BootCpu :=
  { c with
    rsp := VMM_KERNEL_START + s.top
    tlb := fun _ => none
    mem := movq m s.top s.afterMain }

/-- Behind the last store, `%cr3` is loaded again and the return address is pushed. -/
theorem Storing.call_main {c' : BootCpu}
    (hLast : Storing s keeps { c with rsp := VMM_KERNEL_START + (s.stack + 0x4000) } 515 c') :
    c'.fetch true s.text = .ok () ∧
      c'.flush.pushq s.afterMain =
        .ok (atMain s c (storeAll c.mem (start64Stores s.toBootSymbols))) ∧
      (atMain s c (storeAll c.mem (start64Stores s.toBootSymbols))).fetch true s.text = .ok () := by
  have hStack := s.stack_inside
  have hEnd := s.kernelEnd_low
  have hTop : s.top = s.stack + 0x3FF8 := rfl
  have hPush : sub64 (VMM_KERNEL_START + (s.stack + 0x4000)) 8 = VMM_KERNEL_START + s.top := by
    rw [sub64_eq (by omega) (by unfold VMM_KERNEL_START wordSize; omega)]
    omega
  have hMade : beforeStore s.toBootSymbols c.mem 515 =
      storeAll c.mem (start64Stores s.toBootSymbols) := by
    unfold beforeStore
    rw [List.take_of_length_le (length_start64Stores _).le]
  obtain ⟨contents, hUpper⟩ := hLast.upper
  have hFrame := hLast.frame
  dsimp only at hFrame
  rw [hMade] at hFrame
  generalize storeAll c.mem (start64Stores s.toBootSymbols) = m at hFrame ⊢
  have hFlushed : c'.flush = { c with
      rsp := VMM_KERNEL_START + (s.stack + 0x4000)
      tlb := fun _ => none
      mem := m } := by
    rw [hFrame]
    rfl
  have hClean := hUpper.flush
  rw [hFlushed] at hClean
  have hAddress := hClean.lookup (a := s.top) (by omega)
  rw [← hPush] at hAddress
  have hPushed : Upper s (atMain s c m) contents :=
    ⟨hClean.control, hClean.cs, hClean.tables.update s.top_elsewhere _, hClean.upper, nofun⟩
  refine ⟨hUpper.fetch, ?_, hPushed.fetch⟩
  rw [hFlushed, BootCpu.pushq_ok _ hAddress, hPush]
  rfl

theorem enterMain_ends (keeps : Nat → Nat → Bool)
    (h : Upper s c ((linkedContents s.toBootSymbols).withPages s.pages))
    (hTlb : ∀ v, c.tlb v = none) (hRsp : c.rsp = s.stack + 0x4000) (rdi : Nat) {rsi : Nat}
    (hRsi : rsi < 2 ^ 32) :
    ((∀ k < 515, StoreFound s.toBootSymbols keeps k) ∧
      enterMain s keeps c rdi rsi = .ok (.main
        ⟨rdi, VMM_KERNEL_START + rsi, s.kernelEnd, VMM_KERNEL_START + s.address .pte⟩
        (atMain s c (storeAll c.mem (start64Stores s.toBootSymbols))))) ∨
    ∃ k store, (start64Stores s.toBootSymbols)[k]? = some store ∧
      (∀ j < k, StoreFound s.toBootSymbols keeps j) ∧ ¬ StoreFound s.toBootSymbols keeps k ∧
      enterMain s keeps c rdi rsi = .error (.page store.1) := by
  have hStack := s.stack_inside
  have hEnd := s.kernelEnd_low
  have hLow := s.low .pte
  have hRspUp : add64 c.rsp VMM_KERNEL_START = VMM_KERNEL_START + (s.stack + 0x4000) := by
    rw [hRsp]
    exact add64_kernelStart (by omega)
  have hMoved := h.setRsp (VMM_KERNEL_START + (s.stack + 0x4000))
  have hStart := storing_zero keeps hMoved hTlb
  unfold enterMain
  rw [h.fetch, ok_bind]
  dsimp only
  rw [hRspUp]
  rcases hStart.run hMoved.tables (start64Stores s.toBootSymbols) rfl with
    ⟨c', hRun, hLast, hAll⟩ | ⟨k, store, hStore, hAll, hLost, hRun⟩
  · rw [Nat.zero_add, length_start64Stores] at hLast hAll
    obtain ⟨hFetch, hPush, hCalled⟩ := hLast.call_main
    refine .inl ⟨fun k hk => hAll k (Nat.zero_le k) hk, ?_⟩
    rw [hRun, ok_bind, hFetch, ok_bind, hPush, ok_bind, hCalled, ok_bind,
      add64_kernelStart hRsi, add64_kernelStart (by omega)]
  · refine .inr ⟨k, store, hStore, fun j hj => hAll j (Nat.zero_le j) hj, hLost, ?_⟩
    rw [hRun]
    rfl

end

/-! ## The whole run -/

section

variable {eax ebx edx : Nat}

/-- The state when the boot loader's registers are on the stack. -/
def EntrySymbols.pushed (s : EntrySymbols) (eax ebx : Nat) (c : BootCpu) : BootCpu :=
  { c with rsp := s.top, mem := Function.update c.mem s.top (ebx * 2 ^ 32 + eax) }

theorem HandedOver.pushes (h : HandedOver s c) (hEax : eax < 2 ^ 32) (hEbx : ebx < 2 ^ 32) :
    ∃ c', BootCpu.pushl { c with rsp := s.stack + 0x4000 } ebx = .ok c' ∧
      c'.pushl eax = .ok (s.pushed eax ebx c) := by
  have hStack := s.stack_inside
  have hEnd := s.kernelEnd_low
  have hTop : s.top = s.stack + 0x3FF8 := rfl
  have hFirst : (s.stack + 0x4000 + 2 ^ 32 - 4) % 2 ^ 32 = s.top + 4 := by omega
  have hSecond : (s.top + 4 + 2 ^ 32 - 4) % 2 ^ 32 = s.top := by omega
  refine ⟨{ c with rsp := s.top + 4, mem := storel c.mem (s.top + 4) ebx }, ?_, ?_⟩
  · rw [BootCpu.pushl_ok (c := { c with rsp := s.stack + 0x4000 }) ebx
      (BootCpu.lookup_off h.paging _)]
    dsimp only
    rw [hFirst]
  · have hOff : ¬ (BootCpu.control
        { c with rsp := s.top + 4, mem := storel c.mem (s.top + 4) ebx }).Paging := h.paging
    rw [BootCpu.pushl_ok eax (BootCpu.lookup_off hOff _)]
    dsimp only
    rw [hSecond, storel_both s.top_mod hEbx hEax]
    rfl

theorem HandedOver.pushed_tables (h : HandedOver s c) (eax ebx : Nat) :
    Holds s.toBootSymbols (s.pushed eax ebx c).mem fun _ _ => 0 :=
  h.tables.update s.top_elsewhere _

/-- The mapping changes the tables alone. -/
theorem mapped_elsewhere {m m' : Nat → Nat}
    (hRun : bootMmapKernel s.toBootSymbols s.kernelEnd (bootPageInit s.toBootSymbols m) 512 =
      some m') {a : Nat} (ha : Elsewhere s.toBootSymbols a) : m' a = m a := by
  rw [ha.bootMmapKernel s.kernelEnd_low hRun, ha.bootPageInit]

/-- The state when paging is on. -/
theorem HandedOver.paged (h : HandedOver s c) {m : Nat → Nat}
    (hRun : bootMmapKernel s.toBootSymbols s.kernelEnd
      (bootPageInit s.toBootSymbols (s.pushed eax ebx c).mem) 512 = some m)
    (hTables : Holds s.toBootSymbols m ((linkedContents s.toBootSymbols).withPages s.pages)) :
    Paged s eax ebx
      { s.pushed eax ebx c with control := s.control c.control.efer, mem := m }.flush := by
  have hGdt : ∀ k < PGSIZE, m (s.gdt + k) = c.mem (s.gdt + k) := by
    intro k hk
    rw [mapped_elsewhere hRun (s.gdt_elsewhere hk)]
    exact Function.update_of_ne (s.gdt_ne_top hk) ..
  refine ⟨⟨_, rfl⟩, rfl, h.width, h.level, fun _ => rfl, hTables, ?_, ?_, ?_⟩
  · dsimp only [BootCpu.flush]
    rw [mapped_elsewhere hRun s.top_elsewhere]
    unfold EntrySymbols.pushed
    dsimp only
    rw [Function.update_self]
  · exact (hGdt 8 (by decide)).trans h.entry
  · dsimp only [BootCpu.flush]
    rw [hGdt GDT_TABLE_SIZE (by decide)]
    exact h.pointer

theorem storeAll_elsewhere {a : Nat} (ha : Elsewhere s.toBootSymbols a) (m : Nat → Nat) :
    storeAll m (start64Stores s.toBootSymbols) a = m a := ha.start64 (start64_eq m)

/-- What the final tables mean. -/
theorem final_space {m : Nat → Nat} {efer : Nat}
    (h : Holds s.toBootSymbols m (finalContents s.toBootSymbols s.pages)) (v p : Nat) :
    (s.control efer).translate m v = some p ↔
      v = VMM_KERNEL_START + p ∧ p < s.pages * 2 ^ 21 := by
  rw [control_translate, translate_eq s.pages_le h]
  split
  · rw [Option.some.injEq]
    omega
  · simp only [reduceCtorEq, false_iff]
    omega

/-- The facts about the last state that `main` relies on. -/
theorem entersMain_of {c c' : BootCpu} (efer : Nat) (hControl : c'.control = s.control efer)
    (hCs : c'.cs = ⟨GDT_KERNEL_ENTRY, 0⟩) (hRsp : c'.rsp = VMM_KERNEL_START + s.top)
    (hTlb : ∀ v, c'.tlb v = none)
    (hTables : Holds s.toBootSymbols c'.mem (finalContents s.toBootSymbols s.pages))
    (hWord : c'.mem s.top = s.afterMain)
    (hFrame : ∀ a, Elsewhere s.toBootSymbols a → a ≠ s.top → a ≠ s.gdt + 8 →
      c'.mem a = c.mem a) :
    EntersMain s eax ebx c
      ⟨eax, VMM_KERNEL_START + ebx, s.kernelEnd, VMM_KERNEL_START + s.address .pte⟩ c' := by
  have hStack := s.stack_inside
  have hTop : s.top = s.stack + 0x3FF8 := rfl
  have hSpace : ∀ v p, c'.control.translate c'.mem v = some p ↔
      v = VMM_KERNEL_START + p ∧ p < s.pages * 2 ^ 21 := by
    rw [hControl]
    exact final_space hTables
  refine ⟨rfl, ⟨?_, ?_⟩, ?_, ⟨?_, hWord⟩, hTlb, hTables, hSpace, ?_, hFrame⟩
  · rw [hCs, hControl]
    exact (kernelEntry_ok (control_active s efer)).2
  · rw [hCs]
  · rw [hRsp]
    omega
  · rw [BootCpu.lookup_flushed hTlb]
    exact (hSpace _ _).mpr ⟨hRsp, s.inside (by omega)⟩
  · intro size hSize
    constructor
    · intro hAll
      have hLast := ((hSpace _ _).mp (hAll (size - 1) (by omega))).2
      omega
    · intro hInside i hi
      exact (hSpace _ _).mpr ⟨Nat.add_assoc .., by omega⟩

theorem Paged.ends (h : Paged s eax ebx c) (hEax : eax < 2 ^ 32) (hEbx : ebx < 2 ^ 32)
    (hLong : edx.testBit 29 = true) (keeps : Nat → Nat → Bool) {c0 : BootCpu}
    (hFrame : ∀ a, Elsewhere s.toBootSymbols a → a ≠ s.top → c.mem a = c0.mem a) :
    StartEnds s keeps eax ebx edx c0 (trampoline s keeps c) := by
  have hUpper : Upper s (s.entered c) ((linkedContents s.toBootSymbols).withPages s.pages) :=
    ⟨h.control, rfl, h.entered_tables, linked_upper .., fun a _ p hEntry =>
      absurd hEntry (by rw [EntrySymbols.entered, h.tlb]; nofun)⟩
  obtain ⟨efer, hControl⟩ := h.control
  have hTables := storeAll_holds h.entered_tables
  have hKept : ∀ a, Elsewhere s.toBootSymbols a → a ≠ s.gdt + 8 →
      storeAll (s.entered c).mem (start64Stores s.toBootSymbols) a = c.mem a := by
    intro a ha hGdt
    rw [storeAll_elsewhere ha]
    exact Function.update_of_ne hGdt ..
  rw [h.trampoline_eq hEax hEbx]
  rcases enterMain_ends keeps hUpper h.tlb rfl eax hEbx with
    ⟨hAll, hRun⟩ | ⟨k, store, hStore, hAll, hLost, hRun⟩
  · rw [hRun]
    refine .main hLong hAll ?_
    generalize storeAll (s.entered c).mem (start64Stores s.toBootSymbols) = m at hTables hKept
    refine entersMain_of efer hControl rfl rfl (fun _ => rfl) ?_ ?_ ?_
    · exact hTables.update s.top_elsewhere _
    · dsimp only [atMain, movq]
      rw [Function.update_self]
    · intro a ha hTop hGdt
      rw [← hFrame a ha hTop, ← hKept a ha hGdt]
      exact Function.update_of_ne hTop ..
  · rw [hRun]
    exact .fault hLong hStore hAll hLost

theorem start_eq (h : HandedOver s c) (hEax : eax < 2 ^ 32) (hEbx : ebx < 2 ^ 32)
    (keeps : Nat → Nat → Bool) (edx fuel : Nat) : start s keeps eax ebx edx c fuel =
      if edx.testBit 29 = false then .ok (.halted (s.pushed eax ebx c))
      else
        match bootMmapKernel s.toBootSymbols s.kernelEnd
          (bootPageInit s.toBootSymbols (s.pushed eax ebx c).mem) fuel with
        | none => .ok .running
        | some mem => trampoline s keeps
          { s.pushed eax ebx c with control := s.control c.control.efer, mem }.flush := by
  have hBit : edx &&& 1 <<< 29 = 0 ↔ edx.testBit 29 = false := by
    rw [Nat.one_shiftLeft, Nat.and_two_pow]
    cases edx.testBit 29 <;> decide
  have hControl : (s.pushed eax ebx c).control = c.control := rfl
  obtain ⟨c', hFirst, hSecond⟩ := h.pushes hEax hEbx
  unfold start
  dsimp only
  rw [hFirst, ok_bind, hSecond, ok_bind, hControl, bootCpuSetpaging_eq h]
  simp only [hBit]
  rfl

theorem HandedOver.ends (h : HandedOver s c) (hEax : eax < 2 ^ 32) (hEbx : ebx < 2 ^ 32)
    (edx : Nat) (keeps : Nat → Nat → Bool) :
    StartEnds s keeps eax ebx edx c (start s keeps eax ebx edx c 512) := by
  rw [start_eq h hEax hEbx]
  cases hLong : edx.testBit 29 with
  | false => exact .halted hLong fun a ha => Function.update_of_ne ha ..
  | true =>
    obtain ⟨m, hRun, hTables⟩ := bootMmapKernel_holds s.kernelEnd_low (h.pushed_tables eax ebx)
    have hFrame : ∀ a, Elsewhere s.toBootSymbols a → a ≠ s.top → m a = c.mem a := by
      intro a ha hTop
      rw [mapped_elsewhere hRun ha]
      exact Function.update_of_ne hTop ..
    rw [if_neg (by decide), hRun]
    exact (h.paged hRun hTables).ends hEax hEbx hLong keeps hFrame

/-- From every state that a boot loader hands over, whatever the processor keeps. -/
theorem start_ends (h : HandedOver s c) (hEax : eax < 2 ^ 32) (hEbx : ebx < 2 ^ 32) (edx : Nat)
    (keeps : Nat → Nat → Bool) :
    StartEnds s keeps eax ebx edx c (start s keeps eax ebx edx c 512) :=
  h.ends hEax hEbx edx keeps

end

end

/-- An image from 1 MiB to 1.5 MiB. -/
def sampleEntry : EntrySymbols where
  toBootSymbols := sampleSymbols
  kernelEnd := 0x180000
  kernelEnd_low := by decide
  tables_low := sampleSymbols_low
  tables_inside t := by cases t <;> decide
  bootText := ⟨0x100000, 0x100000, 0x200⟩
  bootText_link := rfl
  bootText_inside := by decide
  text := ⟨0xFFFF800000110000, 0x110000, 0x2000⟩
  text_link := by decide
  text_inside := by decide
  stack := 0x109000
  stack_page := by decide
  stack_inside := by decide
  stack_apart t := by cases t <;> decide
  gdt := 0x102000
  gdt_page := by decide
  gdt_inside := by decide
  gdt_apart t := by cases t <;> decide
  gdt_stack := .inl (by decide)
  afterMain := 0xFFFF800000110100

/-- Protected mode with the flat code segment of a boot loader. -/
def sampleCpu : BootCpu where
  rsp := 0
  control := ⟨1, 0, 0, 0⟩
  gdtr := ⟨0, 0⟩
  cs := ⟨0xCF9A000000FFFF, 0⟩
  tlb _ := none
  mem a :=
    if a = 0x102008 then GDT_KERNEL_ENTRY
    else if a = 0x102800 then 0x7FF + 0x102000 * 2 ^ 16
    else 0

theorem sampleCpu_handedOver : HandedOver sampleEntry sampleCpu where
  paging := by decide
  inactive := by decide
  width := by decide
  level := rfl
  tables t i hi := by
    have hHigh : 0x103000 ≤ sampleEntry.address t := by cases t <;> decide
    unfold sampleCpu
    dsimp only
    rw [if_neg (by omega), if_neg (by omega)]
  entry := by decide
  pointer := by decide

/-- The boot loader's block is at 64 KiB, and the processor keeps everything or nothing. -/
theorem start_sample :
    (∃ args c', start sampleEntry (fun _ _ => true) 0x36d76289 0x10000 (2 ^ 29) sampleCpu 512 =
      .ok (.main args c') ∧ args.rsi = 0xFFFF800000010000) ∧
    start sampleEntry (fun _ _ => false) 0x36d76289 0x10000 (2 ^ 29) sampleCpu 512 =
      .error (.page (sampleEntry.address .pml4)) := by
  have hEnds := start_ends sampleCpu_handedOver (show 0x36d76289 < 2 ^ 32 by decide)
    (show 0x10000 < 2 ^ 32 by decide) (2 ^ 29)
  constructor
  · generalize hRun : start sampleEntry (fun _ _ => true) _ _ _ _ _ = result
    have hEnd := hEnds fun _ _ => true
    rw [hRun] at hEnd
    cases hEnd with
    | halted hShort => cases hShort
    | main _ _ hEnters => exact ⟨_, _, rfl, congrArg MainArgs.rsi hEnters.args_eq⟩
    | fault _ _ _ hLost => exact absurd (.inr fun _ _ _ _ _ => rfl) hLost
  · generalize hRun : start sampleEntry (fun _ _ => false) _ _ _ _ _ = result
    have hEnd := hEnds fun _ _ => false
    rw [hRun] at hEnd
    have hFourth : ¬ StoreFound sampleEntry.toBootSymbols (fun _ _ => false) 3 := by
      rintro (hFirst | hKept)
      · exact absurd hFirst (by decide)
      · exact absurd (hKept _ rfl 2 (by decide) (by decide)) (by decide)
    cases hEnd with
    | halted hShort => cases hShort
    | main _ hAll _ => exact absurd (hAll 3 (by decide)) hFourth
    | @fault k store _ hStore hAll hLost =>
      have hFrom : ¬ k < 3 := fun hFirst => hLost (.inl hFirst)
      have hTo : ¬ 3 < k := fun hLater => hFourth (hAll 3 hLater)
      obtain rfl : k = 3 := by omega
      obtain rfl := Option.some.inj hStore
      rfl

end LunarOS
