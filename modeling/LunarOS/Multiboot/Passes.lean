import LunarOS.Multiboot.Chain

/-!
# The two passes over the memory map

`multiboot_parse_mmap` walks over the block twice, to count the available entries and to copy
them. On a block whose tags follow one another and whose memory maps hold whole entries
(`Laid`) both walks are folds over the same list, the entries of all memory maps in block order
(`mmap`), so the array has room for exactly what the second pass writes.
-/

namespace LunarOS

namespace BootInfo

/-- The tags from `tag` on, each of at least 8 bytes and the next one on the 8-byte boundary
after it, up to an END tag. -/
inductive Tags (b : BootInfo) : Nat → List Nat → Prop
  | fini {tag : Nat} (hInside : tag + 8 ≤ b.totalSize)
      (hType : b.le tag 4 = MULTIBOOT_TAG_TYPE_END) : Tags b tag []
  | next {tag : Nat} {rest : List Nat} (hType : b.le tag 4 ≠ MULTIBOOT_TAG_TYPE_END)
      (hSize : 8 ≤ b.le (tag + 4) 4)
      (hRest : Tags b (tag + (b.le (tag + 4) 4 + 7) / 8 * 8) rest) : Tags b tag (tag :: rest)

/-- The memory map holds whole entries. -/
structure WholeEntries (b : BootInfo) (tag : Nat) : Prop where
  stride : 24 ≤ b.le (tag + 8) 4
  whole : ∃ n, b.le (tag + 4) 4 = 16 + n * b.le (tag + 8) 4

structure Laid (b : BootInfo) (tags : List Nat) : Prop where
  chain : b.Tags 8 tags
  whole : ∀ tag ∈ tags, b.le tag 4 = MULTIBOOT_TAG_TYPE_MMAP → b.WholeEntries tag

/-- The entry at an offset. -/
def entry (b : BootInfo) (mmap : Nat) : MmapEntry :=
  ⟨b.le mmap 8, b.le (mmap + 8) 8, b.le (mmap + 16) 4⟩

/-- The entries of a tag of whole entries. -/
def tagEntries (b : BootInfo) (tag : Nat) : List MmapEntry :=
  if b.le tag 4 = MULTIBOOT_TAG_TYPE_MMAP then
    (List.range ((b.le (tag + 4) 4 - 16) / b.le (tag + 8) 4)).map fun k =>
      b.entry (entries tag + k * b.le (tag + 8) 4)
  else []

/-- The entries of all memory maps, in the order of the block. -/
def mmap (b : BootInfo) (tags : List Nat) : List MmapEntry := tags.flatMap b.tagEntries

section

variable {σ : Type} {b : BootInfo}

/-! ## More fuel does not change a result -/

theorem entryLoop_mono {body : σ → Nat → Outcome σ} {tag fuel fuel' mmap : Nat} {s s' : σ}
    (hLe : fuel ≤ fuel') (hOk : b.entryLoop body tag fuel mmap s = .ok s') :
    b.entryLoop body tag fuel' mmap s = .ok s' := by
  induction fuel generalizing fuel' mmap s with
  | zero => cases hOk
  | succ fuel ih =>
    obtain ⟨fuel', rfl⟩ : ∃ n, fuel' = n + 1 := ⟨fuel' - 1, by omega⟩
    obtain ⟨size, hSize, hOk⟩ := bind_eq_ok.mp hOk
    rw [entryLoop, hSize, ok_bind_eq]
    split at hOk
    · next hLess =>
      obtain ⟨s1, hFirst, hOk⟩ := bind_eq_ok.mp hOk
      obtain ⟨next, hNext, hOk⟩ := bind_eq_ok.mp hOk
      rw [if_pos hLess, hFirst, ok_bind_eq, hNext, ok_bind_eq]
      exact ih (by omega) hOk
    · next hNot => rw [if_neg hNot, hOk]

theorem tagLoop_mono {body body' : σ → Nat → Nat → Outcome σ}
    (hBody : ∀ s type tag s', body s type tag = .ok s' → body' s type tag = .ok s')
    {tag fuel fuel' : Nat} {s s' : σ} (hLe : fuel ≤ fuel')
    (hOk : b.tagLoop body fuel tag s = .ok s') : b.tagLoop body' fuel' tag s = .ok s' := by
  induction fuel generalizing fuel' tag s with
  | zero => cases hOk
  | succ fuel ih =>
    obtain ⟨fuel', rfl⟩ : ∃ n, fuel' = n + 1 := ⟨fuel' - 1, by omega⟩
    obtain ⟨type, hType, hOk⟩ := bind_eq_ok.mp hOk
    rw [tagLoop, hType, ok_bind_eq]
    split at hOk
    · next hEnd => rw [if_pos hEnd, hOk]
    · next hNot =>
      obtain ⟨s1, hFirst, hOk⟩ := bind_eq_ok.mp hOk
      obtain ⟨next, hNext, hOk⟩ := bind_eq_ok.mp hOk
      rw [if_neg hNot, hBody _ _ _ _ hFirst, ok_bind_eq, hNext, ok_bind_eq]
      exact ih (by omega) hOk

theorem countMemAvailable_mono {fuel fuel' n : Nat} (hLe : fuel ≤ fuel')
    (hOk : b.countMemAvailable fuel = .ok n) : b.countMemAvailable fuel' = .ok n := by
  refine tagLoop_mono (fun areasSz type tag n hTag => ?_) hLe hOk
  unfold countTag at hTag ⊢
  split at hTag
  · next hOther => rw [if_pos hOther, hTag]
  · next hMmap => rw [if_neg hMmap, entryLoop_mono hLe hTag]

/-! ## Both loops are folds -/

/-- All tags lie inside the block, and no pointer to one wraps around. -/
theorem Tags.inside {tag : Nat} {tags : List Nat} (h : b.Tags tag tags) :
    tag + 8 ≤ b.totalSize ∧ ∀ t ∈ tags, t + b.le (t + 4) 4 ≤ b.totalSize := by
  induction h with
  | fini hInside _ => exact ⟨hInside, fun t ht => by cases ht⟩
  | next hType hSize hRest ih =>
    refine ⟨by omega, fun t ht => ?_⟩
    rcases List.mem_cons.mp ht with rfl | ht
    · omega
    · exact ih.2 t ht

theorem Tags.length_le {tag : Nat} {tags : List Nat} (h : b.Tags tag tags) :
    tag + 8 * tags.length + 8 ≤ b.totalSize := by
  induction h with
  | fini hInside _ => simpa using hInside
  | next hType hSize hRest ih =>
    rw [List.length_cons]
    omega

theorem length_tagEntries_le (tag : Nat) : (b.tagEntries tag).length ≤ b.le (tag + 4) 4 := by
  unfold tagEntries
  split
  · rw [List.length_map, List.length_range]
    exact (Nat.div_le_self _ _).trans (Nat.sub_le _ _)
  · exact Nat.zero_le _

theorem mem_mmap_lt {tags : List Nat} {e : MmapEntry} (h : e ∈ b.mmap tags) :
    e.addr < wordSize := by
  obtain ⟨tag, -, hMem⟩ := List.mem_flatMap.mp h
  unfold tagEntries at hMem
  split at hMem
  · obtain ⟨k, -, rfl⟩ := List.mem_map.mp hMem
    exact b.le_lt _ 8
  · cases hMem

/-- An entry takes more than one byte. -/
theorem Tags.length_mmap_le {tag : Nat} {tags : List Nat} (h : b.Tags tag tags) :
    tag + (b.mmap tags).length ≤ b.totalSize := by
  induction h with
  | fini hInside _ =>
    simp only [mmap, List.flatMap_nil, List.length_nil]
    omega
  | @next tag rest hType hSize hRest ih =>
    have hFew := length_tagEntries_le (b := b) tag
    simp only [mmap, List.flatMap_cons, List.length_append] at ih ⊢
    omega

theorem entryLoop_eq_foldl {body : σ → Nat → Outcome σ} {f : σ → MmapEntry → σ} {tag n : Nat}
    (hBody : ∀ s mmap, mmap + 24 ≤ b.totalSize → body s mmap = .ok (f s (b.entry mmap)))
    (hTag : tag + b.le (tag + 4) 4 ≤ b.totalSize) (hStride : 24 ≤ b.le (tag + 8) 4)
    {fuel mmap : Nat} (s : σ) (hMmap : tag + 16 ≤ mmap)
    (hWhole : mmap + n * b.le (tag + 8) 4 = tag + b.le (tag + 4) 4) (hFuel : n < fuel) :
    b.entryLoop body tag fuel mmap s =
      .ok (((List.range n).map fun k => b.entry (mmap + k * b.le (tag + 8) 4)).foldl f s) := by
  induction n generalizing fuel mmap s with
  | zero =>
    obtain ⟨fuel, rfl⟩ : ∃ m, fuel = m + 1 := ⟨fuel - 1, by omega⟩
    rw [entryLoop_succ body (by omega), if_neg (by omega)]
    rfl
  | succ n ih =>
    obtain ⟨fuel, rfl⟩ : ∃ m, fuel = m + 1 := ⟨fuel - 1, by omega⟩
    rw [Nat.succ_mul] at hWhole
    have hNext : b.nextMmapTag mmap tag = .ok (mmap + b.le (tag + 8) 4) := by
      rw [nextMmapTag, entrySize, read_eq (by omega)]
      rfl
    have hShift : ∀ k, mmap + b.le (tag + 8) 4 + k * b.le (tag + 8) 4 =
        mmap + (k + 1) * b.le (tag + 8) 4 := by
      intro k
      rw [Nat.succ_mul]
      omega
    rw [entryLoop_succ body (by omega), if_pos (by omega), hBody s mmap (by omega), ok_bind_eq,
      hNext, ok_bind_eq, ih _ (by omega) (by omega) (by omega), List.range_succ_eq_map,
      List.map_cons, List.map_map, List.foldl_cons, Nat.zero_mul, Nat.add_zero]
    simp only [hShift]
    rfl

theorem WholeEntries.entryLoop_eq {body : σ → Nat → Outcome σ} {f : σ → MmapEntry → σ} {tag : Nat}
    (h : b.WholeEntries tag) (hType : b.le tag 4 = MULTIBOOT_TAG_TYPE_MMAP)
    (hBody : ∀ s mmap, mmap + 24 ≤ b.totalSize → body s mmap = .ok (f s (b.entry mmap)))
    (hTag : tag + b.le (tag + 4) 4 ≤ b.totalSize) (s : σ) :
    b.entryLoop body tag (b.totalSize + 1) (entries tag) s = .ok ((b.tagEntries tag).foldl f s) := by
  obtain ⟨n, hn⟩ := h.whole
  have hStride := h.stride
  have hCount : (b.le (tag + 4) 4 - 16) / b.le (tag + 8) 4 = n := by
    rw [hn, Nat.add_sub_cancel_left]
    exact Nat.mul_div_cancel n (by omega)
  have hLess : n ≤ n * b.le (tag + 8) 4 := Nat.le_mul_of_pos_right n (by omega)
  unfold tagEntries
  rw [if_pos hType, hCount]
  exact entryLoop_eq_foldl hBody hTag hStride s (Nat.le_refl _) (by unfold entries; omega) (by omega)

/-- The walk over tags that only looks at memory maps. -/
theorem Tags.tagLoop_eq_foldl {body : σ → Nat → Nat → Outcome σ} {f : σ → MmapEntry → σ}
    {tag : Nat} {tags : List Nat} (h : b.Tags tag tags)
    (hBody : ∀ s, ∀ t ∈ tags, body s (b.le t 4) t = .ok ((b.tagEntries t).foldl f s))
    {fuel : Nat} (s : σ) (hFuel : tags.length < fuel) :
    b.tagLoop body fuel tag s = .ok ((b.mmap tags).foldl f s) := by
  induction h generalizing fuel s with
  | @fini tag hInside hType =>
    obtain ⟨fuel, rfl⟩ : ∃ n, fuel = n + 1 := ⟨fuel - 1, by omega⟩
    rw [tagLoop, type, read_eq (by omega), ok_bind_eq]
    exact if_pos hType
  | @next tag rest hType hSize hRest ih =>
    obtain ⟨fuel, rfl⟩ : ∃ n, fuel = n + 1 := ⟨fuel - 1, by omega⟩
    have hLt := b.le_lt (tag + 4) 4
    have hEnd := hRest.inside.1
    have hTotal := b.le_lt 0 4
    have hRound : b.le (tag + 4) 4 + 7 < 2 ^ 32 := by
      unfold totalSize at hEnd
      omega
    have hNext : b.nextTag tag = .ok (tag + (b.le (tag + 4) 4 + 7) / 8 * 8) := by
      rw [nextTag, BootInfo.size, read_eq (by omega), ok_bind_eq, Nat.mod_eq_of_lt hRound]
      rfl
    rw [List.length_cons] at hFuel
    rw [tagLoop, type, read_eq (by omega), ok_bind_eq, if_neg hType,
      hBody s tag List.mem_cons_self, ok_bind_eq, hNext, ok_bind_eq,
      ih (fun s t ht => hBody s t (List.mem_cons_of_mem tag ht)) _ (by omega), mmap, mmap,
      List.flatMap_cons, List.foldl_append]

/-! ## What the two folds compute -/

theorem foldl_count (mmap : List MmapEntry) (n : Nat) :
    mmap.foldl (fun n e => if e.type = MULTIBOOT_MEMORY_AVAILABLE then n + 1 else n) n =
      n + (available mmap).length := by
  induction mmap generalizing n with
  | nil => rfl
  | cons e mmap ih =>
    rw [List.foldl_cons, ih]
    unfold available
    by_cases hType : e.type = MULTIBOOT_MEMORY_AVAILABLE
    · rw [if_pos hType, List.filter_cons_of_pos (by simpa using hType), List.length_cons]
      omega
    · rw [if_neg hType, List.filter_cons_of_neg (by simpa using hType)]

/-- What the second pass does with an entry. -/
def fillStep (s : Fill) (e : MmapEntry) : Fill :=
  if e.type = MULTIBOOT_MEMORY_AVAILABLE then s.push e.addr e.len else s

theorem foldl_fill (mmap : List MmapEntry) (s : Fill) (k : Nat) :
    (mmap.foldl fillStep s).areas k =
      if k < s.i then s.areas k
      else match (available mmap)[k - s.i]? with
        | some e => { s.areas k with addr := alignTo e.addr 8, len := e.len }
        | none => s.areas k := by
  induction mmap generalizing s with
  | nil =>
    split <;> rfl
  | cons e mmap ih =>
    rw [List.foldl_cons, ih]
    unfold available fillStep
    by_cases hType : e.type = MULTIBOOT_MEMORY_AVAILABLE
    · rw [if_pos hType, List.filter_cons_of_pos (by simpa using hType)]
      simp only [Fill.push]
      rcases Nat.lt_trichotomy k s.i with hLess | rfl | hMore
      · rw [if_pos (by omega), if_neg (by omega), if_pos hLess]
      · rw [if_pos (by omega), if_pos rfl, if_neg (by omega), Nat.sub_self]
        rfl
      · have hShift : k - s.i = k - (s.i + 1) + 1 := by omega
        rw [if_neg (by omega), if_neg (by omega), if_neg (by omega), hShift, List.getElem?_cons_succ]
    · rw [if_neg hType, List.filter_cons_of_neg (by simpa using hType)]

theorem Laid.count_eq {tags : List Nat} (h : b.Laid tags) :
    b.countMemAvailable (b.totalSize + 1) = .ok (available (b.mmap tags)).length := by
  have hInside := h.chain.inside.2
  have hLength := h.chain.length_le
  have hEntry : ∀ n mmap, mmap + 24 ≤ b.totalSize → b.countEntry n mmap = .ok
      (if (b.entry mmap).type = MULTIBOOT_MEMORY_AVAILABLE then n + 1 else n) := by
    intro n mmap hMmap
    rw [countEntry, entryType, read_eq (by omega), ok_bind_eq]
    exact (apply_ite Except.ok ..).symm
  have hBody : ∀ n, ∀ t ∈ tags, b.countTag (b.totalSize + 1) n (b.le t 4) t =
      .ok ((b.tagEntries t).foldl
        (fun n e => if e.type = MULTIBOOT_MEMORY_AVAILABLE then n + 1 else n) n) := by
    intro n t ht
    unfold countTag
    by_cases hType : b.le t 4 = MULTIBOOT_TAG_TYPE_MMAP
    · rw [if_neg (not_not.mpr hType)]
      exact (h.whole t ht hType).entryLoop_eq hType hEntry (hInside t ht) n
    · rw [if_pos hType, tagEntries, if_neg hType]
      rfl
  rw [countMemAvailable, h.chain.tagLoop_eq_foldl hBody 0 (by omega), foldl_count, Nat.zero_add]

theorem Laid.count_unique {tags : List Nat} (h : b.Laid tags) {n : Nat}
    (hn : Returns b.countMemAvailable n) : n = (available (b.mmap tags)).length := by
  obtain ⟨fuel, hOk⟩ := hn
  have hLeft := countMemAvailable_mono (Nat.le_max_left fuel (b.totalSize + 1)) hOk
  have hRight := countMemAvailable_mono (Nat.le_max_right fuel (b.totalSize + 1)) h.count_eq
  exact Except.ok.inj (hLeft.symm.trans hRight)

theorem Laid.fill_eq {tags : List Nat} (h : b.Laid tags) (areas : Nat → MemArea) :
    b.fillAreaInfo areas (b.totalSize + 1) = .ok (fun k =>
      match (available (b.mmap tags))[k]? with
      | some e => { areas k with addr := alignTo e.addr 8, len := e.len }
      | none => areas k) := by
  have hInside := h.chain.inside.2
  have hLength := h.chain.length_le
  have hEntry : ∀ s mmap, mmap + 24 ≤ b.totalSize →
      b.fillEntry s mmap = .ok (fillStep s (b.entry mmap)) := by
    intro s mmap hMmap
    rw [fillEntry, entryType, entryAddr, entryLen, read_eq (by omega), read_eq (by omega),
      read_eq (by omega), ok_bind_eq]
    dsimp only [entry, fillStep]
    split <;> rfl
  have hBody : ∀ s, ∀ t ∈ tags, b.fillTag (b.totalSize + 1) s (b.le t 4) t =
      .ok ((b.tagEntries t).foldl fillStep s) := by
    intro s t ht
    unfold fillTag
    by_cases hType : b.le t 4 = MULTIBOOT_TAG_TYPE_MMAP
    · rw [if_neg (not_not.mpr hType)]
      exact (h.whole t ht hType).entryLoop_eq hType hEntry (hInside t ht) s
    · rw [if_pos hType, tagEntries, if_neg hType]
      rfl
  rw [fillAreaInfo, h.chain.tagLoop_eq_foldl hBody ⟨0, areas⟩ (by omega), ok_bind_eq]
  congr 1
  funext k
  exact foldl_fill _ ⟨0, areas⟩ k

end

/-! ## The result of `multiboot_parse_mmap` -/

/-- The array holds the available entries, in block order, and nothing behind it changed. -/
structure Agrees (b : BootInfo) (tags : List Nat) (areas : Nat → MemArea) (p : Parsed) : Prop where
  sz : p.sz = (available (b.mmap tags)).length
  filled : ∀ k e, (available (b.mmap tags))[k]? = some e →
    (p.areas k).addr = (e.addr + 7) / 8 * 8 % wordSize ∧ (p.areas k).len = e.len
  past : ∀ k, p.sz ≤ k → p.areas k = areas k

section

variable {b : BootInfo} {tags : List Nat}

theorem Laid.length_lt (h : b.Laid tags) : (available (b.mmap tags)).length < 2 ^ 32 := by
  have hTotal := b.le_lt 0 4
  have hAll := h.chain.length_mmap_le
  have hSome : (available (b.mmap tags)).length ≤ (b.mmap tags).length :=
    List.length_filter_le _ _
  unfold totalSize at hAll
  omega

/-- The size of the array in bytes does not wrap. -/
theorem Laid.size_eq (h : b.Laid tags) :
    mul64 (available (b.mmap tags)).length MemArea.size =
      (available (b.mmap tags)).length * MemArea.size := by
  have hLength := h.length_lt
  apply mul64_eq
  unfold MemArea.size wordSize
  omega

/-- The size is a multiple of 8. -/
theorem Laid.bytes_eq (h : b.Laid tags) :
    alignTo (mul64 (available (b.mmap tags)).length MemArea.size) 8 =
      (available (b.mmap tags)).length * MemArea.size := by
  have hLength := h.length_lt
  rw [h.size_eq]
  unfold MemArea.size
  rw [alignTo_eq (by unfold wordSize; omega)]
  omega

theorem Laid.parse_full (h : b.Laid tags) {r : Reserved} (areas : Nat → MemArea)
    (hFull : r.available < (available (b.mmap tags)).length * MemArea.size) :
    b.multibootParseMmap r areas (b.totalSize + 1) = .error (.panic "Not enough memory\n") := by
  rw [multibootParseMmap, h.count_eq, ok_bind_eq, mmReservedAlloc, h.bytes_eq, if_pos hFull]

theorem Laid.parse_eq (h : b.Laid tags) {r : Reserved} (areas : Nat → MemArea)
    (hRoom : (available (b.mmap tags)).length * MemArea.size ≤ r.available) :
    ∃ reserved, b.multibootParseMmap r areas (b.totalSize + 1) = .ok {
      areasAt := r.base
      sz := (available (b.mmap tags)).length
      areas := fun k => match (available (b.mmap tags))[k]? with
        | some e => e.area
        | none => areas k
      reserved } := by
  rw [multibootParseMmap, h.count_eq, ok_bind_eq, mmReservedAlloc, h.bytes_eq,
    if_neg (by omega)]
  dsimp only
  rw [h.fill_eq, ok_bind_eq]
  refine ⟨_, congrArg Except.ok (congrArg₂ (Parsed.mk _ _) ?_ rfl)⟩
  funext k
  cases hk : (available (b.mmap tags))[k]? with
  | none => exact if_neg (by have := List.getElem?_eq_none_iff.mp hk; omega)
  | some e =>
    obtain ⟨hLess, -⟩ := List.getElem?_eq_some_iff.mp hk
    dsimp only
    rw [if_pos hLess]
    rfl

theorem multibootParseMmap_laid (h : b.Laid tags) (r : Reserved) (areas : Nat → MemArea) :
    ((available (b.mmap tags)).length * MemArea.size ≤ r.available →
      ∃ p, Returns (b.multibootParseMmap r areas) p ∧ b.Agrees tags areas p) ∧
    (r.available < (available (b.mmap tags)).length * MemArea.size →
      ∃ fuel, b.multibootParseMmap r areas fuel = .error (.panic "Not enough memory\n")) := by
  refine ⟨fun hRoom => ?_, fun hFull => ⟨_, h.parse_full areas hFull⟩⟩
  obtain ⟨reserved, hRun⟩ := h.parse_eq areas hRoom
  refine ⟨_, ⟨_, hRun⟩, rfl, ?_, ?_⟩
  · intro k e he
    have hMem : e ∈ b.mmap tags := (List.mem_filter.mp (List.mem_of_getElem? he)).1
    dsimp only
    rw [he]
    exact ⟨alignTo_mod (mem_mmap_lt hMem), rfl⟩
  · intro k hk
    dsimp only at hk ⊢
    rw [List.getElem?_eq_none hk]

/-! ## From the block to `page_init` -/

/-- `page_init` on what `multiboot_parse_mmap` returns. -/
def bootFromBlock (b : BootInfo) (st : PageState) (areas : Nat → MemArea) (poff fuel : Nat) :
    Outcome PageState := do
  let p ← b.multibootParseMmap st.reserved areas fuel
  pageInit { st with reserved := p.reserved } p.areasAt ((List.range p.sz).map p.areas) poff

end

/-! ## Blocks with one memory map -/

/-- A memory map of `n` available entries, each of 4096 bytes at address 1. -/
def oneMap (n : Nat) : BootInfo where
  byte off :=
    if off < 24 then
      if off = 0 then .ofNat (32 + 24 * n) else if off = 1 then .ofNat ((32 + 24 * n) / 256)
      else if off = 8 then 6
      else if off = 12 then .ofNat (16 + 24 * n) else if off = 13 then .ofNat ((16 + 24 * n) / 256)
      else if off = 16 then 24
      else 0
    else if off < 24 + 24 * n then
      if (off - 24) % 24 = 0 then 1 else if (off - 24) % 24 = 9 then 16
      else if (off - 24) % 24 = 16 then 1 else 0
    else if off = 24 + 24 * n + 4 then 8
    else 0

theorem oneMap_two_laid : (oneMap 2).Laid [8] where
  chain := .next (by decide) (by decide) (.fini (by decide) (by decide))
  whole tag hTag _ := by
    rw [List.mem_singleton.mp hTag]
    exact ⟨by decide, 2, by decide⟩

theorem oneMap_full_laid : (oneMap 129).Laid [8] where
  chain := .next (by decide) (by decide) (.fini (by decide) (by decide))
  whole tag hTag _ := by
    rw [List.mem_singleton.mp hTag]
    exact ⟨by decide, 129, by decide⟩

theorem multibootParseMmap_sample :
    ∃ p, Returns ((oneMap 2).multibootParseMmap { base := 0xffff800000130000 }
      fun _ => ⟨0, 0, 0, 0, 0, 0⟩) p ∧ (oneMap 2).Agrees [8] (fun _ => ⟨0, 0, 0, 0, 0, 0⟩) p :=
  (multibootParseMmap_laid oneMap_two_laid { base := 0xffff800000130000 } _).1 (by decide)

/-- The reserved area has room for 128 areas, and the block has 129. -/
theorem full_map_panics : (oneMap 129).Laid [8] ∧
    (available ((oneMap 129).mmap [8])).length = 129 ∧
    (oneMap 129).multibootParseMmap { base := 0xffff800000130000 }
      (fun _ => ⟨0, 0, 0, 0, 0, 0⟩) 200 = .error (.panic "Not enough memory\n") ∧
    ¬ ∃ p, Returns ((oneMap 129).multibootParseMmap { base := 0xffff800000130000 }
      fun _ => ⟨0, 0, 0, 0, 0, 0⟩) p := by
  have hMany : (available ((oneMap 129).mmap [8])).length = 129 := by decide +kernel
  refine ⟨oneMap_full_laid, hMany, stopOf_eq.mp (by decide +kernel), ?_⟩
  rintro ⟨p, fuel, hOk⟩
  obtain ⟨n, hCount, hOk⟩ := bind_eq_ok.mp hOk
  have hn := oneMap_full_laid.count_unique ⟨fuel, hCount⟩
  rw [hn, hMany] at hOk
  cases hOk

end BootInfo

end LunarOS
