import LunarOS.Multiboot.Encode

/-!
# The report of the boot information

`multiboot_parse_info` prints a line for each tag that it knows and for each entry of a memory
map. On a block that a boot loader has encoded, what is printed and what `multiboot_parse_mmap`
hands on are what was encoded (`multiboot_round_trip`).
-/

namespace LunarOS

open Logic

/-! ## Lines -/

def hex (n : Nat) : List Char := '0' :: 'x' :: Nat.toDigits 16 n

def MmapEntry.report (e : MmapEntry) : List Char :=
  " base_addr = ".toList ++ (hex e.addr ++ (", length = ".toList ++ (hex e.len ++
    (", type = ".toList ++ (hex e.type ++ ['\n'])))))

def moduleLine (modStart modEnd : Nat) (string : List Char) : List Char :=
  "Module at ".toList ++ (hex modStart ++ ("-".toList ++ (hex modEnd ++
    (". Command line ".toList ++ (string ++ ['\n'])))))

def meminfoLine (memLower memUpper : Nat) : List Char :=
  "mem_lower = ".toList ++ (Nat.toDigits 10 memLower ++ ("KB, mem_upper = ".toList ++
    (Nat.toDigits 10 memUpper ++ "KB\n".toList)))

/-- What is printed for a tag. -/
def Tag.report : Tag → List Char
  | cmdline string => "Command line = ".toList ++ (string.chars ++ ['\n'])
  | bootLoaderName string => "Boot loader name = ".toList ++ (string.chars ++ ['\n'])
  | module modStart modEnd string => moduleLine modStart.toNat modEnd.toNat string.chars
  | basicMeminfo memLower memUpper => meminfoLine memLower.toNat memUpper.toNat
  | mmap _ _ es _ => (es.map MapEntry.entry).flatMap MmapEntry.report
  | other .. => []

theorem renderNumber_hex {length : Length} {n : Nat} (h : n < 2 ^ length.bits) :
    renderNumber length .x n = hex n := by
  rw [renderNumber_unsigned rfl, Nat.mod_eq_of_lt h]
  rfl

theorem renderNumber_dec {length : Length} {n : Nat} (h : n < 2 ^ length.bits) :
    renderNumber length .u n = Nat.toDigits 10 n := by
  rw [renderNumber_unsigned rfl, Nat.mod_eq_of_lt h]
  rfl

namespace BootInfo

theorem render_entry (e : MmapEntry) (hAddr : e.addr < 2 ^ 64) (hLen : e.len < 2 ^ 64)
    (hType : e.type < 2 ^ 32) : render (entryItems e.addr e.len e.type) = e.report := by
  unfold MmapEntry.report
  rw [← renderNumber_hex (show e.addr < 2 ^ Length.longLong.bits from hAddr),
    ← renderNumber_hex (show e.len < 2 ^ Length.longLong.bits from hLen),
    ← renderNumber_hex (show e.type < 2 ^ Length.int.bits from hType)]
  rfl

theorem render_module (s : List Char) {modStart modEnd : Nat} (hStart : modStart < 2 ^ 32)
    (hEnd : modEnd < 2 ^ 32) :
    render (moduleItems modStart modEnd s) = moduleLine modStart modEnd s := by
  unfold moduleLine
  rw [← renderNumber_hex (show modStart < 2 ^ Length.int.bits from hStart),
    ← renderNumber_hex (show modEnd < 2 ^ Length.int.bits from hEnd)]
  rfl

theorem render_basicMeminfo {memLower memUpper : Nat} (hLower : memLower < 2 ^ 32)
    (hUpper : memUpper < 2 ^ 32) :
    render (basicMeminfoItems memLower memUpper) = meminfoLine memLower memUpper := by
  unfold meminfoLine
  rw [← renderNumber_dec (show memLower < 2 ^ Length.int.bits from hLower),
    ← renderNumber_dec (show memUpper < 2 ^ Length.int.bits from hUpper)]
  rfl

end BootInfo

/-! ## One tag -/

section

variable {bytes : List UInt8} {off : Nat}

theorem cstring_of_at (hSized : Sized bytes) {s : List UInt8} (hNul : 0 ∉ s)
    (h : At bytes off (s ++ [0])) {fuel : Nat} (hFuel : s.length < fuel) :
    (BootInfo.ofBytes bytes).cstring fuel off = .ok (s.map fun c => Char.ofNat c.toNat) := by
  have hLe := h.le
  rw [← hSized.1, List.length_append, List.length_singleton] at hLe
  induction s generalizing off fuel with
  | nil =>
    obtain ⟨fuel, rfl⟩ : ∃ n, fuel = n + 1 := ⟨fuel - 1, by omega⟩
    have hByte : (BootInfo.ofBytes bytes).le off 1 = 0 := BootInfo.le_of_at h
    rw [BootInfo.cstring, BootInfo.read_eq (by omega), ok_bind_eq, if_pos hByte]
    rfl
  | cons c s ih =>
    obtain ⟨fuel, rfl⟩ : ∃ n, fuel = n + 1 := ⟨fuel - 1, by omega⟩
    rw [List.mem_cons, not_or] at hNul
    rw [List.length_cons] at hFuel hLe
    have hHead : At bytes off ([c] ++ (s ++ [0])) := h
    have hByte : (BootInfo.ofBytes bytes).le off 1 = c.toNat := by
      have hRead := BootInfo.le_of_at hHead.left
      simpa [value] using hRead
    have hSet : c.toNat ≠ 0 := fun hZero => hNul.1 (UInt8.toNat_inj.mp hZero).symm
    rw [BootInfo.cstring, BootInfo.read_eq (by omega), ok_bind_eq, hByte, if_neg hSet,
      ih hNul.2 h.tail (by omega) (by omega)]
    rfl

/-- A string inside the block is read with the fuel of the walk. -/
theorem string_of_at (hSized : Sized bytes) {s : CString} (h : At bytes off s.encode) :
    (BootInfo.ofBytes bytes).cstring ((BootInfo.ofBytes bytes).totalSize + 1) off =
      .ok s.chars := by
  have hLe := h.le
  unfold CString.encode at hLe
  rw [← hSized.1, List.length_append] at hLe
  exact cstring_of_at hSized s.nul h (by omega)

theorem field_of_at (hSized : Sized bytes) {n v : Nat} (h : At bytes off (little n v))
    (hv : v < 256 ^ n) : (BootInfo.ofBytes bytes).read off n = .ok v := by
  have hLe := h.le
  rw [length_little, ← hSized.1] at hLe
  rw [BootInfo.read_eq hLe, BootInfo.le_little h hv]

theorem infoEntry_eq (out : List Char) {mmap : Nat}
    (hInside : mmap + 24 ≤ (BootInfo.ofBytes bytes).totalSize) :
    (BootInfo.ofBytes bytes).infoEntry out mmap =
      .ok (out ++ ((BootInfo.ofBytes bytes).entry mmap).report) := by
  rw [BootInfo.infoEntry, BootInfo.entryAddr, BootInfo.entryLen, BootInfo.entryType,
    BootInfo.read_eq (by omega), BootInfo.read_eq (by omega), BootInfo.read_eq (by omega),
    ok_bind_eq, ok_bind_eq, ok_bind_eq]
  rw [BootInfo.print_entry, ← BootInfo.render_entry ((BootInfo.ofBytes bytes).entry mmap)
    (BootInfo.le_lt _ _ 8) (BootInfo.le_lt _ _ 8) (BootInfo.le_lt _ _ 4)]
  rfl

theorem foldl_report (es : List MmapEntry) (out : List Char) :
    es.foldl (fun out e => out ++ e.report) out = out ++ es.flatMap MmapEntry.report := by
  induction es generalizing out with
  | nil => simp
  | cons e es ih =>
    rw [List.foldl_cons, ih, List.flatMap_cons, List.append_assoc]

/-- The five cases of the `switch`, on what the boot loader has written. -/
theorem infoTag_eq {t : Tag} (hSized : Sized bytes) (h : Stands bytes off t) (out : List Char) :
    (BootInfo.ofBytes bytes).infoTag ((BootInfo.ofBytes bytes).totalSize + 1) out t.type off =
      .ok (out ++ t.report) := by
  unfold BootInfo.infoTag
  cases t with
  | cmdline s =>
    change (BootInfo.cstring _ _ _ >>= _) = _
    rw [string_of_at hSized h.data, ok_bind_eq]
    exact BootInfo.print_cmdline out s.chars
  | bootLoaderName s =>
    change (BootInfo.cstring _ _ _ >>= _) = _
    rw [string_of_at hSized h.data, ok_bind_eq]
    exact BootInfo.print_bootLoaderName out s.chars
  | module modStart modEnd s =>
    have hFields : At bytes (off + 8)
      (little 4 modStart.toNat ++ (little 4 modEnd.toNat ++ s.encode)) := h.data
    have hRest := hFields.right
    rw [length_little] at hRest
    have hString := hRest.right
    rw [length_little] at hString
    change (BootInfo.read _ _ _ >>= _) = _
    rw [field_of_at hSized hFields.left modStart.toNat_lt, ok_bind_eq,
      field_of_at hSized hRest.left modEnd.toNat_lt, ok_bind_eq, string_of_at hSized hString,
      ok_bind_eq]
    rw [BootInfo.print_module, BootInfo.render_module s.chars modStart.toNat_lt modEnd.toNat_lt]
    rfl
  | basicMeminfo memLower memUpper =>
    have hFields : At bytes (off + 8) (little 4 memLower.toNat ++ little 4 memUpper.toNat) := h.data
    have hRest := hFields.right
    rw [length_little] at hRest
    change (BootInfo.read _ _ _ >>= _) = _
    rw [field_of_at hSized hFields.left memLower.toNat_lt, ok_bind_eq,
      field_of_at hSized hRest memUpper.toNat_lt, ok_bind_eq]
    rw [BootInfo.print_basicMeminfo,
      BootInfo.render_basicMeminfo memLower.toNat_lt memUpper.toNat_lt]
    rfl
  | mmap version extra es hExtra =>
    change BootInfo.entryLoop _ _ _ _ _ _ = _
    have hInside := h.inside
    rw [← h.size] at hInside
    have hEntry : ∀ out mmap, mmap + 24 ≤ (BootInfo.ofBytes bytes).totalSize →
        (BootInfo.ofBytes bytes).infoEntry out mmap =
          .ok (out ++ ((BootInfo.ofBytes bytes).entry mmap).report) := fun out _ => infoEntry_eq out
    rw [(h.whole rfl).entryLoop_eq (f := fun out e => out ++ e.report) h.type hEntry hInside,
      h.tagEntries, foldl_report]
    rfl
  | other type data hType =>
    simp only [List.mem_cons, List.not_mem_nil, or_false, not_or] at hType
    obtain ⟨-, hCmdline, hName, hModule, hMeminfo, hMmap⟩ := hType
    change ite (type.toNat = 1) _ _ = _
    rw [if_neg hCmdline]
    change ite (type.toNat = 2) _ _ = _
    rw [if_neg hName]
    change ite (type.toNat = 3) _ _ = _
    rw [if_neg hModule]
    change ite (type.toNat = 4) _ _ = _
    rw [if_neg hMeminfo]
    change ite (type.toNat = 6) _ _ = _
    rw [if_neg hMmap]
    exact congrArg Except.ok (List.append_nil out).symm

end

/-! ## The whole block -/

theorem foldl_tags (tags : List Tag) (out : List Char) :
    tags.foldl (fun out t => out ++ t.report) out = out ++ tags.flatMap Tag.report := by
  induction tags generalizing out with
  | nil => simp
  | cons t tags ih =>
    rw [List.foldl_cons, ih, List.flatMap_cons, List.append_assoc]

theorem length_tags_lt (tags : List Tag) : tags.length < (encode tags).length := by
  have hEach : ∀ t : Tag, 1 ≤ t.encode.length := by
    intro t
    rw [length_encodeTag]
    unfold Tag.size
    omega
  have hAll : tags.length ≤ (tags.flatMap Tag.encode).length := by
    induction tags with
    | nil => exact Nat.zero_le _
    | cons t tags ih =>
      rw [List.flatMap_cons, List.length_append, List.length_cons]
      have := hEach t
      omega
  unfold encode encodeTags
  simp only [List.length_append, length_little]
  omega

theorem multibootParseInfo_encode {tags : List Tag} (h : (encode tags).length < 2 ^ 32) :
    (BootInfo.ofBytes (encode tags)).multibootParseInfo
      ((BootInfo.ofBytes (encode tags)).totalSize + 1) = .ok (tags.flatMap Tag.report) := by
  have hSized := sized_encode h
  have hLength := length_tags_lt tags
  rw [← hSized.1] at hLength
  unfold BootInfo.multibootParseInfo
  rw [tagLoop_encode (f := fun out t => out ++ t.report) hSized
    (fun out off t _ hStands => infoTag_eq hSized hStands out) (at_encode tags) (by omega),
    foldl_tags, List.nil_append]

/-- What was encoded is what the kernel works with. -/
structure RoundTrip (tags : List Tag) (b : BootInfo) : Prop where
  report : Returns b.multibootParseInfo (tags.flatMap Tag.report)
  areas : ∀ (r : Reserved) (areas : Nat → MemArea),
    (available (tags.flatMap Tag.entries)).length * MemArea.size ≤ r.available →
      ∃ p, Returns (b.multibootParseMmap r areas) p ∧ p.areasAt = r.base ∧
        (List.range p.sz).map p.areas =
          (available (tags.flatMap Tag.entries)).map MmapEntry.area ∧
        ∀ k, p.sz ≤ k → p.areas k = areas k

theorem multiboot_round_trip (tags : List Tag) (h : (encode tags).length < 2 ^ 32) :
    RoundTrip tags (BootInfo.ofBytes (encode tags)) := by
  refine ⟨⟨_, multibootParseInfo_encode h⟩, ?_⟩
  intro r areas hRoom
  have hLaid := encode_laid h
  rw [← mmap_encode h] at hRoom ⊢
  obtain ⟨reserved, hRun⟩ := hLaid.parse_eq areas hRoom
  refine ⟨_, ⟨_, hRun⟩, rfl, ?_, ?_⟩
  · apply range_map_filled
    intro k e he
    dsimp only
    rw [he]
  · intro k hk
    dsimp only at hk ⊢
    rw [List.getElem?_eq_none hk]

/-- The command line `quiet` and two entries, of which one is available. -/
def sampleTags : List Tag :=
  [.cmdline ⟨[0x71, 0x75, 0x69, 0x65, 0x74], by decide⟩,
    .plainMmap [.plain 0x100000 0x400000 1, .plain 0xFEC00000 0x1000 2]]

theorem multiboot_sample : RoundTrip sampleTags (BootInfo.ofBytes (encode sampleTags)) :=
  multiboot_round_trip sampleTags (by decide +kernel)

example : sampleTags.flatMap Tag.report = ("Command line = quiet\n" ++
    " base_addr = 0x100000, length = 0x400000, type = 0x1\n" ++
    " base_addr = 0xfec00000, length = 0x1000, type = 0x2\n").toList := by decide +kernel

end LunarOS
