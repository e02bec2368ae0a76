import LunarOS.Logic.Bytes
import LunarOS.Multiboot.Passes

/-!
# What the boot loader writes (`multiboot2.h`)

`Tag` is the content of a tag and `encode` the block that the layouts of `multiboot2.h` give to
a list of tags. The block of `encode` is laid out as the walks expect it (`encode_laid`), and
walking over it visits the tags one by one (`tagLoop_encode`).
-/

namespace LunarOS

open Logic

/-- A string without its terminator. -/
structure CString where
  bytes : List UInt8
  nul : 0 ∉ bytes

def CString.chars (s : CString) : List Char := s.bytes.map fun c => Char.ofNat c.toNat

/-- `struct multiboot_mmap_entry`, and behind it what a later version adds. -/
structure MapEntry (extra : Nat) where
  addr : UInt64
  len : UInt64
  type : UInt32
  zero : UInt32
  rest : List UInt8
  length_rest : rest.length = extra

/-- The tags that the kernel looks at, and any other. -/
inductive Tag
  | cmdline (string : CString)
  | bootLoaderName (string : CString)
  | module (modStart modEnd : UInt32) (string : CString)
  | basicMeminfo (memLower memUpper : UInt32)
  | mmap (version : UInt32) (extra : Nat) (entries : List (MapEntry extra))
      (hExtra : 24 + extra < 2 ^ 32)
  | other (type : UInt32) (data : List UInt8) (hType : type.toNat ∉ [0, 1, 2, 3, 4, 6])

/-- An entry of 24 bytes, the size of version 0. -/
def MapEntry.plain (addr len : UInt64) (type : UInt32) : MapEntry 0 := ⟨addr, len, type, 0, [], rfl⟩

/-- The memory map of version 0. -/
def Tag.plainMmap (entries : List (MapEntry 0)) : Tag := .mmap 0 0 entries (by decide)

def MapEntry.encode {extra : Nat} (e : MapEntry extra) : List UInt8 :=
  little 8 e.addr.toNat ++ (little 8 e.len.toNat ++ (little 4 e.type.toNat ++
    (little 4 e.zero.toNat ++ e.rest)))

/-- What the kernel uses of an entry. -/
def MapEntry.entry {extra : Nat} (e : MapEntry extra) : MmapEntry :=
  ⟨e.addr.toNat, e.len.toNat, e.type.toNat⟩

def CString.encode (s : CString) : List UInt8 := s.bytes ++ [0]

namespace Tag

def type : Tag → Nat
  | cmdline _ => MULTIBOOT_TAG_TYPE_CMDLINE
  | bootLoaderName _ => MULTIBOOT_TAG_TYPE_BOOT_LOADER_NAME
  | module .. => MULTIBOOT_TAG_TYPE_MODULE
  | basicMeminfo .. => MULTIBOOT_TAG_TYPE_BASIC_MEMINFO
  | mmap .. => MULTIBOOT_TAG_TYPE_MMAP
  | other type .. => type.toNat

/-- Behind `type` and `size`. -/
def data : Tag → List UInt8
  | cmdline string => string.encode
  | bootLoaderName string => string.encode
  | module modStart modEnd string =>
    little 4 modStart.toNat ++ (little 4 modEnd.toNat ++ string.encode)
  | basicMeminfo memLower memUpper => little 4 memLower.toNat ++ little 4 memUpper.toNat
  | mmap version extra entries _ =>
    little 4 (24 + extra) ++ (little 4 version.toNat ++ entries.flatMap MapEntry.encode)
  | other _ data _ => data

def size (t : Tag) : Nat := 8 + t.data.length

/-- Without the padding to the next tag. -/
def record (t : Tag) : List UInt8 := little 4 t.type ++ (little 4 t.size ++ t.data)

def encode (t : Tag) : List UInt8 := t.record ++ padding 8 t.size

/-- The entries of a memory map. -/
def entries : Tag → List MmapEntry
  | mmap _ _ entries _ => entries.map MapEntry.entry
  | _ => []

end Tag

/-- `MULTIBOOT_TAG_TYPE_END` -/
def endTag : List UInt8 := little 4 MULTIBOOT_TAG_TYPE_END ++ little 4 8

/-- The tags and the last one. -/
def encodeTags (tags : List Tag) : List UInt8 := tags.flatMap Tag.encode ++ endTag

/-- The total size and a reserved word stand in front. -/
def encode (tags : List Tag) : List UInt8 :=
  little 4 (8 + (encodeTags tags).length) ++ (little 4 0 ++ encodeTags tags)

/-- Bytes in memory as a block. -/
def BootInfo.ofBytes (bytes : List UInt8) : BootInfo := ⟨fun off => bytes.getD off 0⟩

/-- Offsets of the tags from an offset on. -/
def offsets (off : Nat) : List Tag → List Nat
  | [] => []
  | t :: tags => off :: offsets (off + t.encode.length) tags

/-! ## Reading what stands in the block -/

namespace BootInfo

variable {bytes part : List UInt8} {off n v : Nat}

theorem le_of_at (h : At bytes off part) : (ofBytes bytes).le off part.length = value part := by
  induction part generalizing off with
  | nil => rfl
  | cons c part ih =>
    have hByte : (ofBytes bytes).byte off = c := by
      unfold ofBytes
      dsimp only
      rw [List.getD_eq_getElem?_getD, h.head]
      rfl
    rw [List.length_cons, BootInfo.le, hByte, ih h.tail]
    rfl

theorem le_little (h : At bytes off (little n v)) (hv : v < 256 ^ n) :
    (ofBytes bytes).le off n = v := by
  have hRead := le_of_at h
  rwa [length_little, value_little hv] at hRead

end BootInfo

theorem type_lt (t : Tag) : t.type < 2 ^ 32 := by
  cases t with
  | other type => exact type.toNat_lt
  | _ => exact Nat.le_of_ble_eq_true rfl

theorem type_ne_end (t : Tag) : t.type ≠ MULTIBOOT_TAG_TYPE_END := by
  cases t with
  | other type data hType =>
    intro hEnd
    exact hType (by rw [show type.toNat = 0 from hEnd]; decide)
  | _ => exact Nat.succ_ne_zero _

theorem length_record (t : Tag) : t.record.length = t.size := by
  unfold Tag.record Tag.size
  simp only [List.length_append, length_little]
  omega

theorem length_encodeTag (t : Tag) : t.encode.length = (t.size + 7) / 8 * 8 := by
  unfold Tag.encode
  rw [List.length_append, length_record]
  exact length_padding (by decide) t.size

/-- The tag stands at an offset, and the block ends behind it. -/
structure Stands (bytes : List UInt8) (off : Nat) (t : Tag) : Prop where
  inside : off + t.size ≤ (BootInfo.ofBytes bytes).totalSize
  type : (BootInfo.ofBytes bytes).le off 4 = t.type
  size : (BootInfo.ofBytes bytes).le (off + 4) 4 = t.size
  data : At bytes (off + 8) t.data

/-- The total size is the number of bytes. -/
def Sized (bytes : List UInt8) : Prop :=
  (BootInfo.ofBytes bytes).totalSize = bytes.length ∧ bytes.length < 2 ^ 32

theorem stands_of_at {bytes : List UInt8} {off : Nat} {t : Tag} (hSized : Sized bytes)
    (h : At bytes off t.encode) : Stands bytes off t := by
  have hInside := h.left.le
  rw [length_record] at hInside
  have hFields : At bytes off (little 4 t.type ++ (little 4 t.size ++ t.data)) := h.left
  have hRest := hFields.right
  rw [length_little] at hRest
  have hData := hRest.right
  rw [length_little] at hData
  have hSmall := hSized.2
  exact ⟨hSized.1 ▸ hInside, BootInfo.le_little hFields.left (type_lt t),
    BootInfo.le_little hRest.left (by omega), hData⟩

/-! ## The walk -/

section

variable {bytes : List UInt8} {off : Nat} {tags : List Tag}

theorem encodeTags_cons (t : Tag) (tags : List Tag) :
    encodeTags (t :: tags) = t.encode ++ encodeTags tags := by
  unfold encodeTags
  rw [List.flatMap_cons, List.append_assoc]

theorem end_of_at (hSized : Sized bytes) (h : At bytes off endTag) :
    off + 8 ≤ (BootInfo.ofBytes bytes).totalSize ∧
      (BootInfo.ofBytes bytes).le off 4 = MULTIBOOT_TAG_TYPE_END := by
  rw [hSized.1]
  exact ⟨h.le, BootInfo.le_little h.left (by decide)⟩

/-- Each tag leads to the next one. -/
theorem tags_of_at (hSized : Sized bytes) (h : At bytes off (encodeTags tags)) :
    (BootInfo.ofBytes bytes).Tags off (offsets off tags) := by
  induction tags generalizing off with
  | nil =>
    obtain ⟨hInside, hType⟩ := end_of_at hSized h
    exact .fini hInside hType
  | cons t tags ih =>
    rw [encodeTags_cons] at h
    have hHere := stands_of_at hSized h.left
    have hRest := ih h.right
    unfold offsets
    refine .next (hHere.type ▸ type_ne_end t) ?_ ?_
    · rw [hHere.size]
      unfold Tag.size
      omega
    · rwa [hHere.size, ← length_encodeTag]

/-- A body that works on the content of a tag. -/
theorem tagLoop_encode {σ : Type} {body : σ → Nat → Nat → Outcome σ} {f : σ → Tag → σ}
    (hSized : Sized bytes)
    (hBody : ∀ s off, ∀ t ∈ tags, Stands bytes off t → body s t.type off = .ok (f s t))
    (h : At bytes off (encodeTags tags)) {fuel : Nat} (hFuel : tags.length < fuel) (s : σ) :
    (BootInfo.ofBytes bytes).tagLoop body fuel off s = .ok (tags.foldl f s) := by
  induction tags generalizing off fuel s with
  | nil =>
    obtain ⟨fuel, rfl⟩ : ∃ n, fuel = n + 1 := ⟨fuel - 1, by omega⟩
    obtain ⟨hInside, hType⟩ := end_of_at hSized h
    rw [BootInfo.tagLoop, BootInfo.type, BootInfo.read_eq (by omega), ok_bind_eq, if_pos hType]
    rfl
  | cons t tags ih =>
    obtain ⟨fuel, rfl⟩ : ∃ n, fuel = n + 1 := ⟨fuel - 1, by omega⟩
    rw [encodeTags_cons] at h
    have hHere := stands_of_at hSized h.left
    have hInside := hHere.inside
    have hSize : 8 ≤ t.size := by
      unfold Tag.size
      omega
    have hNext : (BootInfo.ofBytes bytes).nextTag off = .ok (off + t.encode.length) := by
      have hEnd := h.left.le
      rw [length_encodeTag] at hEnd
      have hSmall := hSized.2
      rw [BootInfo.nextTag, BootInfo.size, BootInfo.read_eq (by omega), ok_bind_eq, hHere.size,
        Nat.mod_eq_of_lt (by omega), length_encodeTag]
      rfl
    rw [List.length_cons] at hFuel
    rw [BootInfo.tagLoop, BootInfo.type, BootInfo.read_eq (by omega), ok_bind_eq, hHere.type,
      if_neg (type_ne_end t), hBody s off t List.mem_cons_self hHere, ok_bind_eq, hNext, ok_bind_eq,
      ih (fun s off t ht => hBody s off t (List.mem_cons_of_mem _ ht)) h.right (by omega)]
    rfl

/-! ## The memory maps -/

theorem mem_offsets {o : Nat} (hSized : Sized bytes) (h : At bytes off (encodeTags tags))
    (ho : o ∈ offsets off tags) : ∃ t ∈ tags, Stands bytes o t := by
  induction tags generalizing off with
  | nil => cases ho
  | cons t tags ih =>
    rw [encodeTags_cons] at h
    rcases List.mem_cons.mp ho with rfl | ho
    · exact ⟨t, List.mem_cons_self, stands_of_at hSized h.left⟩
    · obtain ⟨t', ht', hStands⟩ := ih h.right ho
      exact ⟨t', List.mem_cons_of_mem _ ht', hStands⟩

variable {extra : Nat}

theorem length_encodeEntry (e : MapEntry extra) : e.encode.length = 24 + extra := by
  unfold MapEntry.encode
  simp only [List.length_append, length_little, e.length_rest]
  omega

theorem length_encodeEntries (es : List (MapEntry extra)) :
    (es.flatMap MapEntry.encode).length = es.length * (24 + extra) := by
  induction es with
  | nil => simp
  | cons e es ih =>
    rw [List.flatMap_cons, List.length_append, ih, length_encodeEntry, List.length_cons,
      Nat.succ_mul]
    omega

theorem entry_of_at {e : MapEntry extra} (h : At bytes off e.encode) :
    (BootInfo.ofBytes bytes).entry off = e.entry := by
  have hLen := h.right
  rw [length_little] at hLen
  have hType := hLen.right
  rw [length_little] at hType
  unfold BootInfo.entry MapEntry.entry
  rw [BootInfo.le_little h.left e.addr.toNat_lt, BootInfo.le_little hLen.left e.len.toNat_lt,
    BootInfo.le_little hType.left e.type.toNat_lt]

theorem entries_of_at {es : List (MapEntry extra)} (h : At bytes off (es.flatMap MapEntry.encode)) :
    ((List.range es.length).map fun k => (BootInfo.ofBytes bytes).entry (off + k * (24 + extra))) =
      es.map MapEntry.entry := by
  induction es generalizing off with
  | nil => rfl
  | cons e es ih =>
    rw [List.flatMap_cons] at h
    have hRest := ih h.right
    rw [length_encodeEntry] at hRest
    have hShift (k : Nat) : off + (24 + extra) + k * (24 + extra) =
        off + (k + 1) * (24 + extra) := by
      rw [Nat.succ_mul]
      omega
    simp only [hShift] at hRest
    rw [List.length_cons, List.range_succ_eq_map, List.map_cons, List.map_map, List.map_cons,
      Nat.zero_mul, Nat.add_zero, entry_of_at h.left, ← hRest]
    rfl

/-- The fields of a memory map. -/
theorem Stands.mmap {version : UInt32} {es : List (MapEntry extra)} {hExtra : 24 + extra < 2 ^ 32}
    (h : Stands bytes off (.mmap version extra es hExtra)) :
    (BootInfo.ofBytes bytes).le (off + 8) 4 = 24 + extra ∧
      At bytes (off + 16) (es.flatMap MapEntry.encode) ∧
      (BootInfo.ofBytes bytes).le (off + 4) 4 = 16 + es.length * (24 + extra) := by
  have hData : At bytes (off + 8) (little 4 (24 + extra) ++
    (little 4 version.toNat ++ es.flatMap MapEntry.encode)) := h.data
  have hRest := hData.right
  rw [length_little] at hRest
  have hEntries := hRest.right
  rw [length_little] at hEntries
  refine ⟨BootInfo.le_little hData.left (by simpa using hExtra), hEntries, ?_⟩
  rw [h.size]
  unfold Tag.size Tag.data
  simp only [List.length_append, length_little, length_encodeEntries]
  omega

theorem type_eq_mmap {t : Tag} (h : t.type = MULTIBOOT_TAG_TYPE_MMAP) :
    ∃ version extra es hExtra, t = .mmap version extra es hExtra := by
  cases t with
  | mmap version extra es hExtra => exact ⟨version, extra, es, hExtra, rfl⟩
  | other type data hType =>
    have hSix : type.toNat = 6 := h
    exact absurd (by rw [hSix]; decide) hType
  | cmdline | bootLoaderName | module | basicMeminfo => cases h

theorem Stands.whole {t : Tag} (h : Stands bytes off t) (hType : t.type = MULTIBOOT_TAG_TYPE_MMAP) :
    (BootInfo.ofBytes bytes).WholeEntries off := by
  obtain ⟨version, extra, es, hExtra, rfl⟩ := type_eq_mmap hType
  obtain ⟨hStride, -, hSize⟩ := h.mmap
  refine ⟨by omega, es.length, ?_⟩
  rw [hSize, hStride]

theorem Stands.tagEntries {t : Tag} (h : Stands bytes off t) :
    (BootInfo.ofBytes bytes).tagEntries off = t.entries := by
  unfold BootInfo.tagEntries
  by_cases hType : t.type = MULTIBOOT_TAG_TYPE_MMAP
  · rw [if_pos (h.type.trans hType)]
    obtain ⟨version, extra, es, hExtra, rfl⟩ := type_eq_mmap hType
    obtain ⟨hStride, hEntries, hSize⟩ := h.mmap
    have hCount : (16 + es.length * (24 + extra) - 16) / (24 + extra) = es.length := by
      rw [Nat.add_sub_cancel_left]
      exact Nat.mul_div_cancel _ (by omega)
    rw [hSize, hStride, hCount]
    exact entries_of_at hEntries
  · rw [if_neg (h.type ▸ hType)]
    cases t with
    | mmap => exact absurd rfl hType
    | _ => rfl

theorem mmap_of_at (hSized : Sized bytes) (h : At bytes off (encodeTags tags)) :
    (BootInfo.ofBytes bytes).mmap (offsets off tags) = tags.flatMap Tag.entries := by
  induction tags generalizing off with
  | nil => rfl
  | cons t tags ih =>
    rw [encodeTags_cons] at h
    have hRest := ih h.right
    unfold BootInfo.mmap at hRest ⊢
    unfold offsets
    rw [List.flatMap_cons, List.flatMap_cons, (stands_of_at hSized h.left).tagEntries, hRest]

end

/-- An array that is filled from a list, as a list again. -/
theorem range_map_filled {α β : Type} {l : List α} {f : α → β} {array : Nat → β}
    (h : ∀ k a, l[k]? = some a → array k = f a) :
    (List.range l.length).map array = l.map f := by
  apply List.ext_getElem (by simp)
  intro k hk hk'
  rw [List.getElem_map, List.getElem_map, List.getElem_range]
  apply h
  rw [List.getElem?_eq_getElem]

/-! ## The whole block -/

section

variable {tags : List Tag}

theorem sized_encode (h : (encode tags).length < 2 ^ 32) : Sized (encode tags) := by
  refine ⟨?_, h⟩
  have hAll : At (encode tags) 0 (encode tags) := At.all _
  have hLength : (encode tags).length = 8 + (encodeTags tags).length := by
    unfold encode
    simp only [List.length_append, length_little]
    omega
  unfold BootInfo.totalSize
  rw [hLength] at h ⊢
  exact BootInfo.le_little hAll.left h

theorem at_encode (tags : List Tag) : At (encode tags) 8 (encodeTags tags) := by
  have hAll : At (encode tags) 0 (little 4 (8 + (encodeTags tags).length) ++
    (little 4 0 ++ encodeTags tags)) := At.all _
  have hRest := hAll.right
  rw [length_little] at hRest
  have hTags := hRest.right
  rwa [length_little] at hTags

theorem encode_laid (h : (encode tags).length < 2 ^ 32) :
    (BootInfo.ofBytes (encode tags)).Laid (offsets 8 tags) := by
  have hSized := sized_encode h
  refine ⟨tags_of_at hSized (at_encode tags), ?_⟩
  intro o ho hType
  obtain ⟨t, -, hStands⟩ := mem_offsets hSized (at_encode tags) ho
  exact hStands.whole (hStands.type.symm.trans hType)

theorem mmap_encode (h : (encode tags).length < 2 ^ 32) :
    (BootInfo.ofBytes (encode tags)).mmap (offsets 8 tags) = tags.flatMap Tag.entries :=
  mmap_of_at (sized_encode h) (at_encode tags)

end

end LunarOS
