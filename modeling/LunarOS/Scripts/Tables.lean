import LunarOS.Logic.Lua
import LunarOS.Machine.Word

/-!
# The page-table scripts (`tables2address.lua`, `address2tables.lua`)

One script prints the virtual address of four table indices in hexadecimal digits, the other
prints the indices of an address. It tries to read the address as it stands before it puts `0x`
in front, so the digits it is given are taken for a decimal number when they look like one:
`tables_round_trip` says for which indices the two scripts are inverse to each other.
-/

namespace LunarOS.Scripts

open Logic Lua

/-- The table that the argument chunk of `tables2address.lua` returns. -/
structure Tables where
  pml4 : BitVec 64
  pdpt : BitVec 64
  pd : BitVec 64
  pt : BitVec 64

/-- The line that `tables2address.lua` prints. -/
def tables2address (t : Tables) : List Char :=
  let address := 0#64
  let address := address ||| t.pml4 <<< 39
  let address := address ||| t.pdpt <<< 30
  let address := address ||| t.pd <<< 21
  let address := address ||| t.pt <<< 12
  -- higher half
  let address := if 255 < t.pml4.toInt then address ||| 0xFFFF#64 <<< 48 else address
  formatHex address

/-- How a run of `address2tables.lua` ends. -/
inductive Ending
  | printed (lines : List (List Char))
  /-- `Input is malformed`, and `os.exit(-1)` -/
  | malformed
  /-- an error of Lua: the number has no integer representation -/
  | raised
  deriving DecidableEq

/-- `print(name, n)` -/
def line (name : String) (n : BitVec 64) : List Char := name.toList ++ '\t' :: intText n

/-- `address2tables.lua` with the address as its first argument. -/
def address2tables (arg : List Char) : Ending :=
  match tonumber arg <|> tonumber ('0' :: 'x' :: arg) with
  | none => .malformed
  | some value =>
    match toInteger value with
    | none => .raised
    | some address =>
      let address := address >>> 12
      let pte := address &&& 0x1FF#64
      let address := address >>> 9
      let pde := address &&& 0x1FF#64
      let address := address >>> 9
      let pdpte := address &&& 0x1FF#64
      let address := address >>> 9
      let pml4 := address &&& 0x1FF#64
      .printed [line "pml4" pml4, line "pdpte" pdpte, line "pde" pde, line "pte" pte]

/-- The four lines for the indices. -/
def shown (pml4 pdpt pd pt : Nat) : Ending :=
  .printed [line "pml4" (BitVec.ofNat 64 pml4), line "pdpte" (BitVec.ofNat 64 pdpt),
    line "pde" (BitVec.ofNat 64 pd), line "pte" (BitVec.ofNat 64 pt)]

def tables (pml4 pdpt pd pt : Nat) : Tables :=
  ⟨BitVec.ofNat 64 pml4, BitVec.ofNat 64 pdpt, BitVec.ofNat 64 pd, BitVec.ofNat 64 pt⟩

/-- The indices as one number, the number of the page. -/
def pageIndex (pml4 pdpt pd pt : Nat) : Nat := ((pml4 * 512 + pdpt) * 512 + pd) * 512 + pt

/-! ## The printed address -/

theorem pageIndex_lt {pml4 pdpt pd pt : Nat} (h4 : pml4 < 512) (hp : pdpt < 512) (hd : pd < 512)
    (ht : pt < 512) : pageIndex pml4 pdpt pd pt < 2 ^ 36 := by
  unfold pageIndex
  omega

theorem shl_toNat {a k : Nat} (ha : a < 512) (hk : k ≤ 39) :
    (BitVec.ofNat 64 a <<< k).toNat = a * 2 ^ k := by
  have hPow : 2 ^ k ≤ 2 ^ 39 := Nat.pow_le_pow_right (by omega) hk
  have hFits : a * 2 ^ k < 2 ^ 64 := by
    calc a * 2 ^ k ≤ 511 * 2 ^ 39 := Nat.mul_le_mul (by omega) hPow
      _ < 2 ^ 64 := by norm_num
  rw [BitVec.toNat_shiftLeft, BitVec.toNat_ofNat, Nat.shiftLeft_eq,
    Nat.mod_eq_of_lt (by omega : a < 2 ^ 64), Nat.mod_eq_of_lt hFits]

theorem toInt_small {n : Nat} (h : n < 2 ^ 63) : (BitVec.ofNat 64 n).toInt = n := by
  have hNat : (BitVec.ofNat 64 n).toNat = n := by
    rw [BitVec.toNat_ofNat]
    exact Nat.mod_eq_of_lt (by omega)
  rw [BitVec.toInt_eq_toNat_of_lt (by omega), hNat]

/-- The sign extension of the higher half. -/
theorem tables2address_eq {pml4 pdpt pd pt : Nat} (h4 : pml4 < 512) (hp : pdpt < 512)
    (hd : pd < 512) (ht : pt < 512) : tables2address (tables pml4 pdpt pd pt) =
      Nat.toDigits 16 ((if 255 < pml4 then 0xFFFF * 2 ^ 48 else 0) +
        pageIndex pml4 pdpt pd pt * 2 ^ 12) := by
  have hIndex := pageIndex_lt h4 hp hd ht
  have hLow : (0#64 ||| BitVec.ofNat 64 pml4 <<< 39 ||| BitVec.ofNat 64 pdpt <<< 30 |||
      BitVec.ofNat 64 pd <<< 21 ||| BitVec.ofNat 64 pt <<< 12).toNat =
        pageIndex pml4 pdpt pd pt * 2 ^ 12 := by
    have hFirst : pml4 * 2 ^ 39 ||| pdpt * 2 ^ 30 = (pml4 * 512 + pdpt) * 2 ^ 30 := by
      rw [or_eq_add (by omega)]
      omega
    have hSecond : (pml4 * 512 + pdpt) * 2 ^ 30 ||| pd * 2 ^ 21 =
        ((pml4 * 512 + pdpt) * 512 + pd) * 2 ^ 21 := by
      rw [or_eq_add (by omega)]
      omega
    simp only [BitVec.toNat_or, BitVec.toNat_ofNat, Nat.zero_mod, Nat.zero_or]
    rw [shl_toNat h4 (by omega), shl_toNat hp (by omega), shl_toNat hd (by omega),
      shl_toNat ht (by omega), hFirst, hSecond, or_eq_add (by omega)]
    unfold pageIndex
    omega
  have hHalf : (255 < (BitVec.ofNat 64 pml4).toInt) ↔ 255 < pml4 := by
    rw [toInt_small (by omega)]
    omega
  unfold tables2address tables formatHex
  simp only [hHalf]
  split
  · have hHigh : (0xFFFF#64 <<< 48).toNat = 0xFFFF * 2 ^ 48 := by decide
    rw [BitVec.toNat_or, hLow, hHigh, Nat.or_comm, or_eq_add (by omega)]
  · rw [hLow, Nat.zero_add]

/-! ## The printed indices -/

theorem intText_ofNat {n : Nat} (h : n < 2 ^ 63) :
    intText (BitVec.ofNat 64 n) = Nat.toDigits 10 n := by
  unfold intText
  rw [toInt_small h, if_neg (by omega), List.nil_append, Int.natAbs_natCast]

theorem line_inj {name : String} {n m : Nat} (hn : n < 2 ^ 63) (hm : m < 2 ^ 63) :
    line name (BitVec.ofNat 64 n) = line name (BitVec.ofNat 64 m) ↔ n = m := by
  unfold line
  rw [List.append_cancel_left_eq, List.cons_inj_right, intText_ofNat hn, intText_ofNat hm,
    toDigits_inj (by omega) (by omega)]

/-- The indices of a page number, as they are shown. -/
theorem shown_iff {pml4 pdpt pd pt : Nat} (h4 : pml4 < 512) (hp : pdpt < 512) (hd : pd < 512)
    (ht : pt < 512) (page : Nat) :
    shown (page / 2 ^ 27 % 512) (page / 2 ^ 18 % 512) (page / 2 ^ 9 % 512) (page % 512) =
      shown pml4 pdpt pd pt ↔ page % 2 ^ 36 = pageIndex pml4 pdpt pd pt := by
  unfold shown pageIndex
  rw [Ending.printed.injEq]
  simp only [List.cons.injEq, and_true]
  rw [line_inj (by omega) (by omega), line_inj (by omega) (by omega),
    line_inj (by omega) (by omega), line_inj (by omega) (by omega)]
  omega

/-- Nine bits of an address. -/
theorem field_eq (address : BitVec 64) (k : Nat) :
    address >>> k &&& 0x1FF#64 = BitVec.ofNat 64 (address.toNat / 2 ^ k % 512) := by
  apply BitVec.eq_of_toNat_eq
  have hMask : (0x1FF#64).toNat = 2 ^ 9 - 1 := rfl
  have hSmall : address.toNat / 2 ^ k % 512 < 2 ^ 64 := by omega
  rw [BitVec.toNat_and, BitVec.toNat_ushiftRight, hMask, Nat.and_two_pow_sub_one_eq_mod,
    Nat.shiftRight_eq_div_pow, BitVec.toNat_ofNat, Nat.mod_eq_of_lt hSmall]

/-- An address that is read as an integer. -/
theorem address2tables_eq {arg : List Char} {value : Number} {address : BitVec 64}
    (hRead : (tonumber arg <|> tonumber ('0' :: 'x' :: arg)) = some value)
    (hInt : toInteger value = some address) : address2tables arg =
      let page := address.toNat / 2 ^ 12
      shown (page / 2 ^ 27 % 512) (page / 2 ^ 18 % 512) (page / 2 ^ 9 % 512) (page % 512) := by
  have hPage (k : Nat) : address.toNat / 2 ^ 12 / 2 ^ k = address.toNat / 2 ^ (12 + k) := by
    rw [Nat.div_div_eq_div_mul, ← Nat.pow_add]
  unfold address2tables
  rw [hRead]
  dsimp only
  rw [hInt]
  simp only [← BitVec.shiftRight_add, field_eq, hPage]
  rfl

theorem zeros_digits (k : Nat) : ∀ c ∈ List.replicate k '0', isDigit c = true := by
  intro c hc
  rw [List.eq_of_mem_replicate hc]
  decide

theorem zeros_hexText (k : Nat) : HexText (List.replicate k '0') := by
  intro c hc
  exact ⟨0, by omega, List.eq_of_mem_replicate hc⟩

section Readings

variable {pml4 pdpt pd pt : Nat} (h4 : pml4 < 512) (hp : pdpt < 512) (hd : pd < 512)
  (ht : pt < 512)
include h4 hp hd ht

/-- The text is no number as it stands. -/
theorem hex_reading {n : Nat} (hn : n < 2 ^ 64) (hNone : tonumber (Nat.toDigits 16 n) = none) :
    address2tables (Nat.toDigits 16 n) = shown pml4 pdpt pd pt ↔
      n / 2 ^ 12 % 2 ^ 36 = pageIndex pml4 pdpt pd pt := by
  have hHex := tonumber_hex (hexText_toDigits n) Nat.toDigits_ne_nil
  rw [readDigits_toDigits (by omega) (by omega)] at hHex
  have hNat : (BitVec.ofNat 64 n).toNat = n := Nat.mod_eq_of_lt hn
  rw [address2tables_eq (by rw [hNone, hHex]; rfl) rfl, hNat]
  exact shown_iff h4 hp hd ht _

/-- Any other reading is a smaller number. -/
theorem decimal_reading {arg : List Char} {value : Number} {n : Nat}
    (hValue : tonumber arg = some value) (hInt : toInteger value = some (BitVec.ofNat 64 n))
    (hLess : n / 2 ^ 12 < pageIndex pml4 pdpt pd pt) :
    address2tables arg ≠ shown pml4 pdpt pd pt := by
  have hIndex := pageIndex_lt h4 hp hd ht
  have hNat : (BitVec.ofNat 64 n).toNat = n := Nat.mod_eq_of_lt (by omega)
  rw [address2tables_eq (by rw [hValue]; rfl) hInt, hNat]
  dsimp only
  rw [Ne, shown_iff h4 hp hd ht]
  omega

/-- In the higher half the text starts with an `f`. -/
theorem high_half (hHigh : 255 < pml4) :
    address2tables (tables2address (tables pml4 pdpt pd pt)) = shown pml4 pdpt pd pt := by
  have hIndex := pageIndex_lt h4 hp hd ht
  rw [tables2address_eq h4 hp hd ht, if_pos hHigh]
  generalize hn : 0xFFFF * 2 ^ 48 + pageIndex pml4 pdpt pd pt * 2 ^ 12 = n
  have hHead : (Nat.toDigits 16 n).head? = some 'f' := by
    have hTop : n / 16 ^ 15 = 15 := by omega
    rw [toDigits_head_pow (k := 15) (by omega) (by omega), hTop]
    rfl
  obtain ⟨rest, hText⟩ : ∃ rest, Nat.toDigits 16 n = 'f' :: rest := by
    cases hDigits : Nat.toDigits 16 n with
    | nil => exact absurd hDigits Nat.toDigits_ne_nil
    | cons c rest =>
      rw [hDigits] at hHead
      exact ⟨rest, by rw [Option.some.inj hHead]⟩
  have hHex := hexText_toDigits n
  rw [hText] at hHex
  have hNone : tonumber (Nat.toDigits 16 n) = none := by
    rw [hText]
    exact tonumber_stuck (m := []) hHex (by simp) (by decide) (Or.inl rfl)
  rw [hex_reading h4 hp hd ht (by omega) hNone]
  omega

/-- An address of the lower half ends with the three digits of the page offset. -/
theorem low_half (hLow : pml4 ≤ 255) (hSome : 0 < pageIndex pml4 pdpt pd pt) :
    tables2address (tables pml4 pdpt pd pt) =
      Nat.toDigits 16 (pageIndex pml4 pdpt pd pt) ++ List.replicate 3 '0' := by
  have hPlace : 2 ^ 12 = 16 ^ 3 := by norm_num
  rw [tables2address_eq h4 hp hd ht, if_neg (by omega), Nat.zero_add, hPlace,
    toDigits_mul_pow (by omega) hSome]

/-- Digits only: the decimal number is smaller than the address. -/
theorem digits_wrong {m : List Char} (hDigits : ∀ c ∈ m, isDigit c = true) (hText : HexText m)
    (hRead : readDigits 16 m = pageIndex pml4 pdpt pd pt)
    (hSome : 0 < pageIndex pml4 pdpt pd pt) :
    address2tables (m ++ List.replicate 3 '0') ≠ shown pml4 pdpt pd pt := by
  have hIndex := pageIndex_lt h4 hp hd ht
  have hMono := readDigits_mono (by omega : 10 ≤ 16) m
  have hLess : readDigits 10 (m ++ List.replicate 3 '0') ≤
      pageIndex pml4 pdpt pd pt * 1000 := by
    rw [readDigits_append, readDigits_zeros, List.length_replicate]
    omega
  have hAll : ∀ c ∈ m ++ List.replicate 3 '0', isDigit c = true :=
    fun c hc => (List.mem_append.mp hc).elim (hDigits c) (zeros_digits 3 c)
  have hValue := tonumber_digits (hText.append (zeros_hexText 3)) hAll (by simp) (by omega)
  exact decimal_reading h4 hp hd ht hValue rfl (by omega)

/-- A zero exponent leaves the digits before it, and any other is at least `1000`, beyond every
double. -/
theorem exponent_wrong {m k : List Char} (hm : m ≠ []) (hmDigits : ∀ c ∈ m, isDigit c = true)
    (hkDigits : ∀ c ∈ k, isDigit c = true)
    (hExp : Nat.toDigits 16 (pageIndex pml4 pdpt pd pt) = m ++ 'e' :: k)
    (hSome : 0 < pageIndex pml4 pdpt pd pt) :
    address2tables (m ++ 'e' :: (k ++ List.replicate 3 '0')) ≠ shown pml4 pdpt pd pt := by
  have hIndex := pageIndex_lt h4 hp hd ht
  have hText : HexText (m ++ 'e' :: (k ++ List.replicate 3 '0')) := by
    have hAll := (hexText_toDigits (pageIndex pml4 pdpt pd pt)).append (zeros_hexText 3)
    rwa [hExp, List.append_assoc, List.cons_append] at hAll
  have hAll : ∀ c ∈ k ++ List.replicate 3 '0', isDigit c = true :=
    fun c hc => (List.mem_append.mp hc).elim (hkDigits c) (zeros_digits 3 c)
  have hValue := tonumber_exponent hText hmDigits hAll hm (by simp)
  rw [readDigits_append, readDigits_zeros, List.length_replicate, Nat.add_zero] at hValue
  rcases Nat.eq_zero_or_pos (readDigits 10 k) with hNone | hMore
  · have hLess : readDigits 10 m ≤ pageIndex pml4 pdpt pd pt := by
      have hRead := readDigits_toDigits (by omega : 1 < 16) (by omega)
        (pageIndex pml4 pdpt pd pt)
      rw [hExp, readDigits_append] at hRead
      have hMono := readDigits_mono (by omega : 10 ≤ 16) m
      have hScale := Nat.le_mul_of_pos_right (readDigits 16 m)
        (Nat.pow_pos (by omega) : 0 < 16 ^ ('e' :: k).length)
      omega
    rw [hNone, Nat.zero_mul, pow_zero, mul_one, roundDouble_natCast (by omega)] at hValue
    exact decimal_reading h4 hp hd ht hValue (toInteger_natCast (by omega)) (by omega)
  · have hLead : 0 < readDigits 10 m :=
      readDigits_prefix_pos (by omega) (by omega) (by omega) hSome hm hExp
    rw [roundDouble_exponent false hLead (by omega)] at hValue
    have hRaised : address2tables (m ++ 'e' :: (k ++ List.replicate 3 '0')) = .raised := by
      unfold address2tables
      rw [hValue]
      rfl
    rw [hRaised]
    exact fun h => Ending.noConfusion h

theorem decimal_wrong (hLow : pml4 ≤ 255) (hSome : 0 < pageIndex pml4 pdpt pd pt)
    (hLike : DecimalLike (Nat.toDigits 16 (pageIndex pml4 pdpt pd pt))) :
    address2tables (tables2address (tables pml4 pdpt pd pt)) ≠ shown pml4 pdpt pd pt := by
  have hText := hexText_toDigits (pageIndex pml4 pdpt pd pt)
  have hRead := readDigits_toDigits (by omega : 1 < 16) (by omega) (pageIndex pml4 pdpt pd pt)
  rw [low_half h4 hp hd ht hLow hSome]
  obtain ⟨m, k, hm, hmDigits, hkDigits, hAll | hExp⟩ := hLike
  · rw [hAll] at hText hRead ⊢
    exact digits_wrong h4 hp hd ht hmDigits hText hRead hSome
  · rw [hExp, List.append_assoc, List.cons_append]
    exact exponent_wrong h4 hp hd ht hm hmDigits hkDigits hExp hSome

end Readings

/-- The scripts are inverse to each other exactly when the digits of an address of the lower half
are not those of a decimal number, or the address is `0`. -/
theorem tables_round_trip {pml4 pdpt pd pt : Nat} (h4 : pml4 < 512) (hp : pdpt < 512)
    (hd : pd < 512) (ht : pt < 512) :
    address2tables (tables2address (tables pml4 pdpt pd pt)) = shown pml4 pdpt pd pt ↔
      255 < pml4 ∨ pageIndex pml4 pdpt pd pt = 0 ∨
        ¬ DecimalLike (Nat.toDigits 16 (pageIndex pml4 pdpt pd pt)) := by
  have hIndex := pageIndex_lt h4 hp hd ht
  by_cases hHigh : 255 < pml4
  · simp only [hHigh, true_or, iff_true]
    exact high_half h4 hp hd ht hHigh
  · rcases Nat.eq_zero_or_pos (pageIndex pml4 pdpt pd pt) with hNone | hSome
    · simp only [hNone, true_or, or_true, iff_true]
      have hValue : readDigits 10 (List.replicate 1 '0') < 2 ^ 63 := by
        rw [readDigits_zeros]
        omega
      have hZero := tonumber_digits (zeros_hexText 1) (zeros_digits 1) (by simp) hValue
      have hText : Nat.toDigits 16 0 = List.replicate 1 '0' := Nat.toDigits_zero 16
      rw [tables2address_eq h4 hp hd ht, if_neg hHigh, hNone, Nat.zero_mul, Nat.zero_add, hText,
        address2tables_eq (by rw [hZero]; rfl) rfl, readDigits_zeros]
      exact (shown_iff h4 hp hd ht 0).mpr hNone.symm
    · constructor
      · intro hTrip
        right; right
        intro hLike
        exact decimal_wrong h4 hp hd ht (by omega) hSome hLike hTrip
      · rintro (h | h | hNot)
        · exact absurd h hHigh
        · omega
        · have hText := hexText_toDigits (pageIndex pml4 pdpt pd pt * 16 ^ 3)
          have hSplit := toDigits_mul_pow (by omega : 1 < 16) hSome 3
          rw [hSplit] at hText
          have hHex := tonumber_of_not_decimalLike hText Nat.toDigits_ne_nil hNot
          rw [low_half h4 hp hd ht (by omega) hSome, ← hSplit] at *
          rw [hex_reading h4 hp hd ht (by omega) hHex]
          omega

theorem tables_round_trip_sample :
    address2tables (tables2address (tables 256 0 0 0)) = shown 256 0 0 0 :=
  (tables_round_trip (by decide) (by decide) (by decide) (by decide)).mpr (Or.inl (by decide))

/-- The second page is printed as `1000`, which is read as one thousand. -/
theorem second_page_lost : tables2address (tables 0 0 0 1) = ['1', '0', '0', '0'] ∧
    address2tables ['1', '0', '0', '0'] = shown 0 0 0 0 ∧
    address2tables (tables2address (tables 0 0 0 1)) ≠ shown 0 0 0 1 := by
  refine ⟨?_, ?_, ?_⟩ <;> decide +kernel

end LunarOS.Scripts
