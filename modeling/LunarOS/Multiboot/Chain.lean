import LunarOS.Lib.Log
import LunarOS.Multiboot.Info

/-!
# When the walks over the tags end

None of the three walks checks a size against the block, and none stops at its end. `Chain`
describes the blocks on which that is harmless: following the sizes leads from tag to tag to an
END tag, and what the tags refer to lies inside the block as well. On every other block a walk
reads outside the block or never ends (`walks_iff`).
-/

namespace LunarOS

namespace BootInfo

/-- The string has its terminator inside the block. -/
def Terminated (b : BootInfo) (off : Nat) : Prop :=
  ∃ n, off + n < b.totalSize ∧ b.le (off + n) 1 = 0

/-- From `mmap` on, the entries that begin inside the tag lie inside the block, up to their
type, and there are finitely many. -/
structure EntriesInside (b : BootInfo) (tag mmap : Nat) : Prop where
  stride : mmap < tag + b.le (tag + 4) 4 → 0 < b.le (tag + 8) 4
  inside : ∀ k, mmap + k * b.le (tag + 8) 4 < tag + b.le (tag + 4) 4 →
    mmap + k * b.le (tag + 8) 4 + 20 ≤ b.totalSize

/-- What the tag refers to is inside the block. -/
structure Payload (b : BootInfo) (tag : Nat) : Prop where
  cmdline : b.le tag 4 = MULTIBOOT_TAG_TYPE_CMDLINE → b.Terminated (tag + 8)
  bootLoaderName : b.le tag 4 = MULTIBOOT_TAG_TYPE_BOOT_LOADER_NAME → b.Terminated (tag + 8)
  module : b.le tag 4 = MULTIBOOT_TAG_TYPE_MODULE → b.Terminated (tag + 16)
  basicMeminfo : b.le tag 4 = MULTIBOOT_TAG_TYPE_BASIC_MEMINFO → tag + 16 ≤ b.totalSize
  mmap : b.le tag 4 = MULTIBOOT_TAG_TYPE_MMAP → b.EntriesInside tag (entries tag)

/-- From `tag` on there are tags up to an END tag, each on the next 8-byte boundary after the
one before. -/
inductive Chain (b : BootInfo) : Nat → Prop
  | fini {tag : Nat} (hInside : tag + 4 ≤ b.totalSize)
      (hType : b.le tag 4 = MULTIBOOT_TAG_TYPE_END) : Chain b tag
  | next {tag : Nat} (hInside : tag + 8 ≤ b.totalSize)
      (hType : b.le tag 4 ≠ MULTIBOOT_TAG_TYPE_END) (hPayload : b.Payload tag)
      (hSize : 0 < b.le (tag + 4) 4) (hRound : b.le (tag + 4) 4 + 7 < 2 ^ 32)
      (hRest : Chain b (tag + (b.le (tag + 4) 4 + 7) / 8 * 8)) : Chain b tag

section

variable {σ : Type} {b : BootInfo}

/-! ## The loop over the entries -/

theorem entryLoop_succ (body : σ → Nat → Outcome σ) {tag : Nat} (hTag : tag + 8 ≤ b.totalSize)
    (fuel mmap : Nat) (s : σ) : b.entryLoop body tag (fuel + 1) mmap s =
      if mmap < tag + b.le (tag + 4) 4 then do
        let s ← body s mmap
        entryLoop b body tag fuel (← b.nextMmapTag mmap tag) s
      else pure s := by
  rw [entryLoop, size, read_eq (by omega)]
  rfl

/-- A loop that ends has been through entries inside the block. -/
theorem entriesInside_of_ok {body : σ → Nat → Outcome σ} {tag : Nat}
    (hTag : tag + 8 ≤ b.totalSize)
    (hBody : ∀ s mmap s', body s mmap = .ok s' → mmap + 20 ≤ b.totalSize) {fuel mmap : Nat}
    {s s' : σ} (hOk : b.entryLoop body tag fuel mmap s = .ok s') : b.EntriesInside tag mmap := by
  induction fuel generalizing mmap s with
  | zero => cases hOk
  | succ fuel ih =>
    rw [entryLoop_succ body hTag] at hOk
    split at hOk
    · next hLess =>
      obtain ⟨s1, hFirst, hOk⟩ := bind_eq_ok.mp hOk
      obtain ⟨next, hNext, hOk⟩ := bind_eq_ok.mp hOk
      obtain ⟨stride, hRead, hNext⟩ := bind_eq_ok.mp hNext
      obtain ⟨-, rfl⟩ := read_eq_ok.mp hRead
      cases hNext
      have hRest := ih hOk
      constructor
      · intro _
        by_contra hZero
        -- with stride 0 the next turn is at the same entry
        have hSame := hRest.stride (by omega)
        omega
      · intro k hk
        cases k with
        | zero => simpa using hBody _ _ _ hFirst
        | succ k =>
          have := hRest.inside k (by rw [Nat.succ_mul] at hk; omega)
          rw [Nat.succ_mul]
          omega
    · next hNot =>
      refine ⟨fun h => absurd h hNot, fun k hk => ?_⟩
      exact absurd (Nat.lt_of_le_of_lt (Nat.le_add_right _ _) hk) hNot

/-- Entries inside the block are worked off. -/
theorem entryLoop_ok {body : σ → Nat → Outcome σ} {tag : Nat} (hTag : tag + 8 ≤ b.totalSize)
    (hBody : ∀ s mmap, mmap + 20 ≤ b.totalSize → ∃ s', body s mmap = .ok s') {fuel mmap : Nat}
    (s : σ) (hMmap : tag + 16 ≤ mmap) (hInside : b.EntriesInside tag mmap)
    (hFuel : b.totalSize < fuel + mmap) (hPos : 0 < fuel) :
    ∃ s', b.entryLoop body tag fuel mmap s = .ok s' := by
  induction fuel generalizing mmap s with
  | zero => omega
  | succ fuel ih =>
    rw [entryLoop_succ body hTag]
    by_cases hLess : mmap < tag + b.le (tag + 4) 4
    · have hStride := hInside.stride hLess
      have hHere : mmap + 20 ≤ b.totalSize := by
        have := hInside.inside 0 (by omega)
        omega
      obtain ⟨s1, hFirst⟩ := hBody s mmap hHere
      have hNext : b.nextMmapTag mmap tag = .ok (mmap + b.le (tag + 8) 4) := by
        rw [nextMmapTag, entrySize, read_eq (by omega)]
        rfl
      have hRest : b.EntriesInside tag (mmap + b.le (tag + 8) 4) := by
        refine ⟨fun _ => hStride, fun k hk => ?_⟩
        have := hInside.inside (k + 1) (by rw [Nat.succ_mul]; omega)
        rw [Nat.succ_mul] at this
        omega
      obtain ⟨s', hOk⟩ := ih s1 (by omega) hRest (by omega) (by omega)
      rw [if_pos hLess, hFirst, ok_bind_eq, hNext, ok_bind_eq]
      exact ⟨s', hOk⟩
    · rw [if_neg hLess]
      exact ⟨s, rfl⟩

/-! ## The loop over the tags -/

/-- A loop that ends has followed a chain of tags. -/
theorem chain_of_ok {body : σ → Nat → Nat → Outcome σ}
    (hBody : ∀ s tag s', tag + 8 ≤ b.totalSize → body s (b.le tag 4) tag = .ok s' →
      b.Payload tag) {fuel tag : Nat} {s s' : σ}
    (hOk : b.tagLoop body fuel tag s = .ok s') : b.Chain tag := by
  induction fuel generalizing tag s with
  | zero => cases hOk
  | succ fuel ih =>
    obtain ⟨type, hType, hOk⟩ := bind_eq_ok.mp hOk
    obtain ⟨hInside, rfl⟩ := read_eq_ok.mp hType
    split at hOk
    · next hEnd => exact .fini hInside hEnd
    · next hEnd =>
      obtain ⟨s1, hFirst, hOk⟩ := bind_eq_ok.mp hOk
      obtain ⟨next, hNext, hOk⟩ := bind_eq_ok.mp hOk
      obtain ⟨size, hSize, hNext⟩ := bind_eq_ok.mp hNext
      obtain ⟨hTag, rfl⟩ := read_eq_ok.mp hSize
      cases hNext
      have hRest := ih hOk
      have hLt := b.le_lt (tag + 4) 4
      -- a size that rounds to 0 leads back to the same tag
      by_cases hZero : (b.le (tag + 4) 4 + 7) % 2 ^ 32 / 8 * 8 = 0
      · rwa [hZero, Nat.add_zero] at hRest
      · have hRound : (b.le (tag + 4) 4 + 7) % 2 ^ 32 = b.le (tag + 4) 4 + 7 := by omega
        rw [hRound] at hRest hZero
        exact .next hTag hEnd (hBody _ _ _ hTag hFirst) (by omega) (by omega) hRest

/-- A chain of tags is worked off. -/
theorem Chain.tagLoop_ok {body : σ → Nat → Nat → Outcome σ} {tag : Nat} (h : b.Chain tag)
    (hBody : ∀ s tag, tag + 8 ≤ b.totalSize → b.Payload tag →
      ∃ s', body s (b.le tag 4) tag = .ok s') {fuel : Nat} (s : σ)
    (hFuel : b.totalSize < fuel + tag) : ∃ s', b.tagLoop body fuel tag s = .ok s' := by
  induction h generalizing fuel s with
  | @fini tag hInside hType =>
    obtain ⟨fuel, rfl⟩ : ∃ n, fuel = n + 1 := ⟨fuel - 1, by omega⟩
    refine ⟨s, ?_⟩
    rw [tagLoop, type, read_eq hInside, ok_bind_eq]
    exact if_pos hType
  | @next tag hInside hType hPayload hSize hRound hRest ih =>
    obtain ⟨fuel, rfl⟩ : ∃ n, fuel = n + 1 := ⟨fuel - 1, by omega⟩
    obtain ⟨s1, hFirst⟩ := hBody s tag hInside hPayload
    obtain ⟨s', hOk⟩ := @ih fuel s1 (by omega)
    have hNext : b.nextTag tag = .ok (tag + (b.le (tag + 4) 4 + 7) / 8 * 8) := by
      rw [nextTag, BootInfo.size, read_eq (by omega), ok_bind_eq, Nat.mod_eq_of_lt hRound]
      rfl
    refine ⟨s', ?_⟩
    rw [tagLoop, type, read_eq (by omega), ok_bind_eq, if_neg hType, hFirst, ok_bind_eq, hNext,
      ok_bind_eq, hOk]

/-! ## Strings -/

theorem cstring_succ {off : Nat} (hOff : off < b.totalSize) (fuel : Nat) :
    b.cstring (fuel + 1) off = if b.le off 1 = 0 then .ok []
      else b.cstring fuel (off + 1) >>= fun cs => .ok (Char.ofNat (b.le off 1) :: cs) := by
  rw [cstring, read_eq (by omega)]
  rfl

theorem terminated_of_ok {fuel off : Nat} {cs : List Char} (hOk : b.cstring fuel off = .ok cs) :
    b.Terminated off := by
  induction fuel generalizing off cs with
  | zero => cases hOk
  | succ fuel ih =>
    have hOff : off < b.totalSize := by
      obtain ⟨c, hRead, -⟩ := bind_eq_ok.mp hOk
      exact (read_eq_ok.mp hRead).1
    rw [cstring_succ hOff] at hOk
    split at hOk
    · next hZero => exact ⟨0, hOff, hZero⟩
    · obtain ⟨rest, hRest, -⟩ := bind_eq_ok.mp hOk
      obtain ⟨n, hn, hZero⟩ := ih hRest
      rw [Nat.add_assoc, Nat.add_comm 1 n] at hn hZero
      exact ⟨n + 1, hn, hZero⟩

theorem Terminated.cstring_ok {fuel off : Nat} (h : b.Terminated off)
    (hFuel : b.totalSize ≤ fuel + off) : ∃ cs, b.cstring fuel off = .ok cs := by
  obtain ⟨n, hn, hZero⟩ := h
  induction n generalizing fuel off with
  | zero =>
    obtain ⟨fuel, rfl⟩ : ∃ m, fuel = m + 1 := ⟨fuel - 1, by omega⟩
    exact ⟨[], (cstring_succ hn fuel).trans (if_pos hZero)⟩
  | succ n ih =>
    obtain ⟨fuel, rfl⟩ : ∃ m, fuel = m + 1 := ⟨fuel - 1, by omega⟩
    have hShift : off + 1 + n = off + (n + 1) := by omega
    obtain ⟨cs, hCs⟩ := @ih fuel (off + 1) (by omega) (by rwa [hShift])
      (by rwa [hShift])
    rw [cstring_succ (by omega), hCs]
    split
    · exact ⟨[], rfl⟩
    · exact ⟨_, rfl⟩

theorem Terminated.cstring_total {off : Nat} (h : b.Terminated off) :
    ∃ cs, b.cstring (b.totalSize + 1) off = .ok cs := h.cstring_ok (by omega)

/-! ## The three bodies -/

theorem countEntry_ok (areasSz : Nat) {mmap : Nat} (hInside : mmap + 20 ≤ b.totalSize) :
    ∃ s', b.countEntry areasSz mmap = .ok s' := by
  rw [countEntry, entryType, read_eq (by omega), ok_bind_eq]
  split <;> exact ⟨_, rfl⟩

theorem fillEntry_ok (s : Fill) {mmap : Nat} (hInside : mmap + 20 ≤ b.totalSize) :
    ∃ s', b.fillEntry s mmap = .ok s' := by
  rw [fillEntry, entryType, entryAddr, entryLen, read_eq (by omega), read_eq (by omega),
    read_eq (by omega), ok_bind_eq]
  split <;> exact ⟨_, rfl⟩

theorem print_items {out : List Char} {fmt : String} {args : List Arg} (items : List Item)
    (h : NoLong items) (hFormat : fmt.toList = format items) (hArgs : args = arguments items) :
    print out fmt args = .ok (out ++ render items) := by
  have hPuts := vprintf_format items []
  rw [List.append_nil, render_eq h, ← hArgs, ← hFormat] at hPuts
  unfold print printf
  rw [hPuts]
  rfl

/-! The lines that `multiboot_parse_info` prints. -/

def entryItems (addr len type : Nat) : List Item :=
  Item.lits " base_addr = " ++ Item.num .longLong .x addr :: Item.lits ", length = " ++
    Item.num .longLong .x len :: Item.lits ", type = " ++ Item.num .int .x type :: Item.lits "\n"

theorem print_entry (out : List Char) (addr len type : Nat) :
    print out " base_addr = %llx, length = %llx, type = %x\n" [.num addr, .num len, .num type] =
      .ok (out ++ render (entryItems addr len type)) :=
  print_items (entryItems addr len type)
    (by simpa [entryItems] using ⟨noLong_lits _, noLong_lits _, noLong_lits _, noLong_lits _⟩)
    rfl rfl

def cmdlineItems (cs : List Char) : List Item :=
  Item.lits "Command line = " ++ Item.str (some cs) :: Item.lits "\n"

theorem print_cmdline (out cs : List Char) :
    print out "Command line = %s\n" [.str (some cs)] = .ok (out ++ render (cmdlineItems cs)) :=
  print_items (cmdlineItems cs) (by simpa [cmdlineItems] using ⟨noLong_lits _, noLong_lits _⟩)
    rfl rfl

def bootLoaderNameItems (cs : List Char) : List Item :=
  Item.lits "Boot loader name = " ++ Item.str (some cs) :: Item.lits "\n"

theorem print_bootLoaderName (out cs : List Char) :
    print out "Boot loader name = %s\n" [.str (some cs)] =
      .ok (out ++ render (bootLoaderNameItems cs)) :=
  print_items (bootLoaderNameItems cs)
    (by simpa [bootLoaderNameItems] using ⟨noLong_lits _, noLong_lits _⟩) rfl rfl

def moduleItems (modStart modEnd : Nat) (cs : List Char) : List Item :=
  Item.lits "Module at " ++ Item.num .int .x modStart :: Item.lits "-" ++
    Item.num .int .x modEnd :: Item.lits ". Command line " ++ Item.str (some cs) ::
    Item.lits "\n"

theorem print_module (out cs : List Char) (modStart modEnd : Nat) :
    print out "Module at %x-%x. Command line %s\n"
      [.num modStart, .num modEnd, .str (some cs)] =
      .ok (out ++ render (moduleItems modStart modEnd cs)) :=
  print_items (moduleItems modStart modEnd cs)
    (by simpa [moduleItems] using ⟨noLong_lits _, noLong_lits _, noLong_lits _, noLong_lits _⟩)
    rfl rfl

def basicMeminfoItems (memLower memUpper : Nat) : List Item :=
  Item.lits "mem_lower = " ++ Item.num .int .u memLower :: Item.lits "KB, mem_upper = " ++
    Item.num .int .u memUpper :: Item.lits "KB\n"

theorem print_basicMeminfo (out : List Char) (memLower memUpper : Nat) :
    print out "mem_lower = %uKB, mem_upper = %uKB\n" [.num memLower, .num memUpper] =
      .ok (out ++ render (basicMeminfoItems memLower memUpper)) :=
  print_items (basicMeminfoItems memLower memUpper)
    (by simpa [basicMeminfoItems] using ⟨noLong_lits _, noLong_lits _, noLong_lits _⟩) rfl rfl

theorem infoEntry_ok (out : List Char) {mmap : Nat} (hInside : mmap + 20 ≤ b.totalSize) :
    ∃ out', b.infoEntry out mmap = .ok out' := by
  rw [infoEntry, entryAddr, entryLen, entryType, read_eq (by omega), read_eq (by omega),
    read_eq (by omega), ok_bind_eq, ok_bind_eq, ok_bind_eq]
  exact ⟨_, print_entry ..⟩

theorem infoEntry_inside {out out' : List Char} {mmap : Nat}
    (hOk : b.infoEntry out mmap = .ok out') : mmap + 20 ≤ b.totalSize := by
  obtain ⟨addr, -, hOk⟩ := bind_eq_ok.mp hOk
  obtain ⟨len, -, hOk⟩ := bind_eq_ok.mp hOk
  obtain ⟨type, hType, -⟩ := bind_eq_ok.mp hOk
  exact (read_eq_ok.mp hType).1

/-- A body that only looks at memory maps. -/
theorem mmapTag_ok {body : σ → Nat → Outcome σ} {tag : Nat} (hTag : tag + 8 ≤ b.totalSize)
    (hBody : ∀ s mmap, mmap + 20 ≤ b.totalSize → ∃ s', body s mmap = .ok s')
    (hPayload : b.Payload tag) (hType : b.le tag 4 = MULTIBOOT_TAG_TYPE_MMAP) (s : σ) :
    ∃ s', b.entryLoop body tag (b.totalSize + 1) (entries tag) s = .ok s' :=
  entryLoop_ok hTag hBody s (Nat.le_refl _) (hPayload.mmap hType) (by unfold entries; omega)
    (by omega)

/-- The five cases of the `switch`. -/
theorem infoTag_payload {fuel tag : Nat} {out out' : List Char} (hTag : tag + 8 ≤ b.totalSize)
    (hOk : b.infoTag fuel out (b.le tag 4) tag = .ok out') : b.Payload tag := by
  unfold infoTag at hOk
  constructor
  · intro hType
    rw [hType, if_pos rfl] at hOk
    obtain ⟨cs, hCs, -⟩ := bind_eq_ok.mp hOk
    exact terminated_of_ok hCs
  · intro hType
    rw [hType, if_neg (by decide), if_pos rfl] at hOk
    obtain ⟨cs, hCs, -⟩ := bind_eq_ok.mp hOk
    exact terminated_of_ok hCs
  · intro hType
    rw [hType, if_neg (by decide), if_neg (by decide), if_pos rfl] at hOk
    obtain ⟨modStart, -, hOk⟩ := bind_eq_ok.mp hOk
    obtain ⟨modEnd, -, hOk⟩ := bind_eq_ok.mp hOk
    obtain ⟨cs, hCs, -⟩ := bind_eq_ok.mp hOk
    exact terminated_of_ok hCs
  · intro hType
    rw [hType, if_neg (by decide), if_neg (by decide), if_neg (by decide), if_pos rfl] at hOk
    obtain ⟨memLower, -, hOk⟩ := bind_eq_ok.mp hOk
    obtain ⟨memUpper, hUpper, -⟩ := bind_eq_ok.mp hOk
    exact (read_eq_ok.mp hUpper).1
  · intro hType
    rw [hType, if_neg (by decide), if_neg (by decide), if_neg (by decide), if_neg (by decide),
      if_pos rfl] at hOk
    exact entriesInside_of_ok hTag (fun _ _ _ => infoEntry_inside) hOk

theorem infoTag_ok {tag : Nat} (hTag : tag + 8 ≤ b.totalSize) (hPayload : b.Payload tag)
    (out : List Char) : ∃ out', b.infoTag (b.totalSize + 1) out (b.le tag 4) tag = .ok out' := by
  unfold infoTag
  split
  · next hType =>
    obtain ⟨cs, hCs⟩ := (hPayload.cmdline hType).cstring_total
    rw [hCs, ok_bind_eq]
    exact ⟨_, print_cmdline out cs⟩
  · split
    · next hType =>
      obtain ⟨cs, hCs⟩ := (hPayload.bootLoaderName hType).cstring_total
      rw [hCs, ok_bind_eq]
      exact ⟨_, print_bootLoaderName out cs⟩
    · split
      · next hType =>
        obtain ⟨n, hn, -⟩ := hPayload.module hType
        obtain ⟨cs, hCs⟩ := (hPayload.module hType).cstring_total
        rw [read_eq (by omega), read_eq (by omega), hCs, ok_bind_eq, ok_bind_eq, ok_bind_eq]
        exact ⟨_, print_module ..⟩
      · split
        · next hType =>
          have hFields := hPayload.basicMeminfo hType
          rw [read_eq (by omega), read_eq (by omega), ok_bind_eq, ok_bind_eq]
          exact ⟨_, print_basicMeminfo ..⟩
        · split
          · next hType => exact mmapTag_ok hTag (fun _ _ => infoEntry_ok _) hPayload hType out
          · exact ⟨out, rfl⟩

theorem countTag_ok {tag : Nat} (hTag : tag + 8 ≤ b.totalSize) (hPayload : b.Payload tag)
    (areasSz : Nat) : ∃ n, b.countTag (b.totalSize + 1) areasSz (b.le tag 4) tag = .ok n := by
  unfold countTag
  split
  · exact ⟨areasSz, rfl⟩
  · next hType =>
    exact mmapTag_ok hTag (fun _ _ => countEntry_ok _) hPayload (not_not.mp hType) areasSz

theorem fillTag_ok {tag : Nat} (hTag : tag + 8 ≤ b.totalSize) (hPayload : b.Payload tag)
    (s : Fill) : ∃ s', b.fillTag (b.totalSize + 1) s (b.le tag 4) tag = .ok s' := by
  unfold fillTag
  split
  · exact ⟨s, rfl⟩
  · next hType =>
    exact mmapTag_ok hTag (fun _ _ => fillEntry_ok _) hPayload (not_not.mp hType) s

end

/-- The three walks end without a read outside the block. -/
structure Walks (b : BootInfo) (areas : Nat → MemArea) : Prop where
  count : ∃ n, Returns b.countMemAvailable n
  fill : ∃ areas', Returns (b.fillAreaInfo areas) areas'
  info : ∃ out, Returns b.multibootParseInfo out

theorem walks_iff (b : BootInfo) (areas : Nat → MemArea) : b.Walks areas ↔ b.Chain 8 := by
  constructor
  · rintro ⟨-, -, out, fuel, hOk⟩
    exact chain_of_ok (fun _ _ _ => infoTag_payload) hOk
  · intro h
    have hFuel : b.totalSize < b.totalSize + 1 + 8 := by omega
    obtain ⟨n, hCount⟩ := h.tagLoop_ok (fun s tag hTag hPayload => countTag_ok hTag hPayload s) 0
      hFuel
    obtain ⟨s, hFill⟩ := h.tagLoop_ok (fun s tag hTag hPayload => fillTag_ok hTag hPayload s)
      ⟨0, areas⟩ hFuel
    obtain ⟨out, hInfo⟩ := h.tagLoop_ok (fun s tag hTag hPayload => infoTag_ok hTag hPayload s) []
      hFuel
    refine ⟨⟨n, _, hCount⟩, ⟨s.areas, b.totalSize + 1, ?_⟩, ⟨out, _, hInfo⟩⟩
    rw [fillAreaInfo, hFill]
    rfl

/-- A block of 16 bytes whose only tag has type 5 and size 0. -/
def emptyTag : BootInfo where
  byte off := if off = 0 then 16 else if off = 8 then 5 else 0

/-- The walk stays at the tag. -/
theorem emptyTag_hangs : Hangs emptyTag.countMemAvailable := by
  have hTurn : ∀ fuel inner areasSz, emptyTag.tagLoop (emptyTag.countTag inner) fuel 8 areasSz =
      .error .fuel := by
    intro fuel inner areasSz
    induction fuel with
    | zero => rfl
    | succ fuel ih =>
      have hType : emptyTag.type 8 = .ok 5 := rfl
      have hNext : emptyTag.nextTag 8 = .ok 8 := rfl
      have hBody : emptyTag.countTag inner areasSz 5 8 = .ok areasSz := rfl
      rw [tagLoop, hType, ok_bind_eq, if_neg (by decide), hBody, ok_bind_eq, hNext, ok_bind_eq, ih]
  exact fun fuel => hTurn fuel fuel 0

theorem empty_tag_never_ends : emptyTag.totalSize = 16 ∧ emptyTag.type 8 = .ok 5 ∧
    emptyTag.size 8 = .ok 0 ∧ Hangs emptyTag.countMemAvailable ∧
    ∀ areas, ¬ emptyTag.Walks areas := by
  refine ⟨rfl, rfl, rfl, emptyTag_hangs, fun areas h => ?_⟩
  obtain ⟨n, fuel, hOk⟩ := h.count
  rw [emptyTag_hangs fuel] at hOk
  cases hOk

end BootInfo

end LunarOS
