import LunarOS.Logic.Double
import LunarOS.Logic.Numeral
import Mathlib.Data.List.TakeWhile

/-!
# Numbers of Lua 5.3

A number is a 64-bit integer or a double, and `tonumber` reads one from a text: first as an
integer (`strToInt`: decimal without overflow, or `0x` and hexadecimal digits that wrap), then
as a double (`strToFloat`: digits with a point and an exponent, in base 10 or 16). `toInteger`
is what a bitwise operation does with its operands: a double has to be integral and in range.

The second part computes `tonumber` on texts of small hexadecimal digits (`HexText`). Whether
such a text is a number depends on how its decimal digits and letters follow each other
(`DecimalLike`, `tonumber_of_not_decimalLike`).
-/

namespace LunarOS.Logic.Lua

inductive Number
  | int (n : BitVec 64)
  | float (x : Double)
  deriving DecidableEq

/-! ## `tonumber` -/

/-- `isspace` -/
def isSpace (c : Char) : Bool := c == ' ' || ('\t' ≤ c && c ≤ '\r')

def isDigit (c : Char) : Bool := digitOf c < 10

def isXDigit (c : Char) : Bool := digitOf c < 16

/-- An optional sign, and what follows it. -/
def sign : List Char → Bool × List Char
  | '-' :: s => (true, s)
  | '+' :: s => (false, s)
  | s => (false, s)

/-- What follows `0x`. -/
def afterHexMark : List Char → Option (List Char)
  | '0' :: 'x' :: s => some s
  | '0' :: 'X' :: s => some s
  | _ => none

/-- `l_str2int`: digits between blanks. A decimal number that does not fit is not accepted. -/
def strToInt (s : List Char) : Option (BitVec 64) :=
  let (negative, s) := sign (s.dropWhile isSpace)
  let value (n : Nat) : BitVec 64 := if negative then -BitVec.ofNat 64 n else BitVec.ofNat 64 n
  match afterHexMark s with
  | some s =>
    if s.takeWhile isXDigit ≠ [] ∧ (s.dropWhile isXDigit).all isSpace then
      some (value (readDigits 16 (s.takeWhile isXDigit)))
    else none
  | none =>
    let n := readDigits 10 (s.takeWhile isDigit)
    if s.takeWhile isDigit ≠ [] ∧ (s.dropWhile isDigit).all isSpace ∧
        n ≤ 2 ^ 63 - 1 + (if negative then 1 else 0) then
      some (value n)
    else none

/-- Digits with an optional point: those before it, those after it, and the rest. -/
def mantissa (digit : Char → Bool) (s : List Char) : List Char × List Char × List Char :=
  match s.dropWhile digit with
  | '.' :: rest => (s.takeWhile digit, rest.takeWhile digit, rest.dropWhile digit)
  | rest => (s.takeWhile digit, [], rest)

/-- The exponent after its letter, and the rest. Without digits there is no exponent. -/
def exponent (mark : Char → Bool) : List Char → ℤ × List Char
  | [] => (0, [])
  | c :: s =>
    let (negative, ds) := sign s
    if mark c ∧ ds.takeWhile isDigit ≠ [] then
      let e : ℤ := readDigits 10 (ds.takeWhile isDigit)
      (if negative then -e else e, ds.dropWhile isDigit)
    else (0, c :: s)

/-- A number in base `base` with an exponent of `radix`, and the rest; no number without a
digit. -/
def scanFloat (base radix : Nat) (digit mark : Char → Bool) (negative : Bool) (s : List Char) :
    Option (Double × List Char) :=
  let (whole, frac, rest) := mantissa digit s
  if whole ++ frac = [] then none
  else
    let (e, rest) := exponent mark rest
    let q : ℚ := readDigits base (whole ++ frac) / (base : ℚ) ^ frac.length * (radix : ℚ) ^ e
    some (roundDouble negative q, rest)

/-- `strtod`, without the infinities and `nan`, whose names `l_str2d` rejects by their `n`. -/
def strtod (s : List Char) : Option (Double × List Char) :=
  let (negative, s) := sign (s.dropWhile isSpace)
  let hex := (afterHexMark s).bind fun s =>
    scanFloat 16 2 isXDigit (fun c => c = 'p' || c = 'P') negative s
  -- after a mark without digits only the `0` is a number
  hex <|> scanFloat 10 10 isDigit (fun c => c = 'e' || c = 'E') negative s

/-- `l_str2d`: a number and blanks. -/
def strToFloat (s : List Char) : Option Double :=
  match strtod s with
  | some (x, rest) => if rest.all isSpace then some x else none
  | none => none

def tonumber (s : List Char) : Option Number :=
  match strToInt s with
  | some n => some (.int n)
  | none => (strToFloat s).map .float

/-! ## Operations -/

/-- The integer that a bitwise operation computes with. -/
def toInteger : Number → Option (BitVec 64)
  | .int n => some n
  | .float (.finite q) =>
    if q.den = 1 ∧ -2 ^ 63 ≤ q.num ∧ q.num < 2 ^ 63 then some (BitVec.ofInt 64 q.num) else none
  | .float (.inf _) => none

/-- `string.format("%x", n)` -/
def formatHex (n : BitVec 64) : List Char := Nat.toDigits 16 n.toNat

/-- `tostring(n)` of an integer -/
def intText (n : BitVec 64) : List Char :=
  (if n.toInt < 0 then ['-'] else []) ++ Nat.toDigits 10 n.toInt.natAbs

theorem toInteger_natCast {n : Nat} (h : n < 2 ^ 63) :
    toInteger (.float (.finite n)) = some (BitVec.ofNat 64 n) := by
  have hRange : -2 ^ 63 ≤ (n : ℤ) ∧ (n : ℤ) < 2 ^ 63 := by omega
  simp only [toInteger, Rat.den_natCast, Rat.num_natCast]
  rw [if_pos ⟨trivial, hRange⟩, BitVec.ofInt_natCast]

/-! ## Texts of hexadecimal digits -/

/-- Digits and the letters from `a` to `f`. -/
def HexText (s : List Char) : Prop := ∀ c ∈ s, ∃ d, d < 16 ∧ c = Nat.digitChar d

/-- What the hexadecimal digits are not. -/
theorem hexDigit_plain {d : Nat} (h : d < 16) :
    isSpace (Nat.digitChar d) = false ∧ isXDigit (Nat.digitChar d) = true ∧
      Nat.digitChar d ∉ ['-', '+', '.', 'x', 'X', 'E'] := by
  revert h d
  decide

theorem hexText_toDigits (n : Nat) : HexText (Nat.toDigits 16 n) :=
  fun _ hc => mem_toDigits (by omega) hc

namespace HexText

variable {s t : List Char} {c : Char}

theorem append (hs : HexText s) (ht : HexText t) : HexText (s ++ t) := by
  intro c hc
  rcases List.mem_append.mp hc with hc | hc
  · exact hs c hc
  · exact ht c hc

theorem right (h : HexText (s ++ t)) : HexText t := fun c hc => h c (List.mem_append_right _ hc)

theorem tail (h : HexText (c :: s)) : HexText s := fun d hd => h d (List.mem_cons_of_mem _ hd)

theorem head (h : HexText (c :: s)) : isSpace c = false ∧ isXDigit c = true ∧
    c ∉ ['-', '+', '.', 'x', 'X', 'E'] := by
  obtain ⟨d, hd, rfl⟩ := h c List.mem_cons_self
  exact hexDigit_plain hd

theorem no_blanks (h : HexText s) : s.dropWhile isSpace = s := by
  cases s with
  | nil => rfl
  | cons c s => rw [List.dropWhile_cons, h.head.1]; rfl

theorem no_sign (h : HexText s) : sign s = (false, s) := by
  cases s with
  | nil => rfl
  | cons c s =>
    have hPlain := h.head.2.2
    unfold sign
    split
    · next hMinus => simp [(List.cons.inj hMinus).1] at hPlain
    · next hPlus => simp [(List.cons.inj hPlus).1] at hPlain
    · rfl

theorem no_mark (h : HexText s) : afterHexMark s = none := by
  unfold afterHexMark
  split
  · have hPlain := h.tail.head.2.2
    simp at hPlain
  · have hPlain := h.tail.head.2.2
    simp at hPlain
  · rfl

theorem all_space_iff (h : HexText s) : s.all isSpace = true ↔ s = [] := by
  cases s with
  | nil => simp
  | cons c s => simp [h.head.1]

theorem all_xdigit (h : HexText s) : s.takeWhile isXDigit = s ∧ s.dropWhile isXDigit = [] := by
  have hAll : ∀ c ∈ s, isXDigit c = true := by
    intro c hc
    obtain ⟨d, hd, rfl⟩ := h c hc
    exact (hexDigit_plain hd).2.1
  constructor
  · rw [List.takeWhile_eq_self_iff]
    exact hAll
  · rw [List.dropWhile_eq_nil_iff]
    exact hAll

end HexText

theorem takeWhile_split {p : Char → Bool} {m : List Char} (hm : ∀ c ∈ m, p c = true) {c : Char}
    (hc : p c = false) (k : List Char) :
    (m ++ c :: k).takeWhile p = m ∧ (m ++ c :: k).dropWhile p = c :: k := by
  rw [List.takeWhile_append_of_pos hm, List.dropWhile_append_of_pos hm]
  simp [hc]

theorem takeWhile_all {p : Char → Bool} {m : List Char} (hm : ∀ c ∈ m, p c = true) :
    m.takeWhile p = m ∧ m.dropWhile p = [] :=
  ⟨List.takeWhile_eq_self_iff.mpr hm, List.dropWhile_eq_nil_iff.mpr hm⟩

/-- A text is read to its first character that is no digit. -/
theorem digits_or_split (s : List Char) :
    (∀ c ∈ s, isDigit c = true) ∨
      ∃ m c k, s = m ++ c :: k ∧ (∀ c ∈ m, isDigit c = true) ∧ isDigit c = false := by
  induction s with
  | nil => simp
  | cons c s ih =>
    cases hc : isDigit c with
    | false => exact Or.inr ⟨[], c, s, rfl, by simp, hc⟩
    | true =>
      rcases ih with hAll | ⟨m, d, k, rfl, hm, hd⟩
      · left
        simpa [hc] using hAll
      · right
        exact ⟨c :: m, d, k, rfl, by simpa [hc] using hm, hd⟩

/-- Digits alone are an integer. -/
theorem tonumber_digits {s : List Char} (h : HexText s) (hDigits : ∀ c ∈ s, isDigit c = true)
    (hSome : s ≠ []) (hFits : readDigits 10 s < 2 ^ 63) :
    tonumber s = some (.int (BitVec.ofNat 64 (readDigits 10 s))) := by
  obtain ⟨hTake, hDrop⟩ := takeWhile_all hDigits
  have hInt : strToInt s = some (BitVec.ofNat 64 (readDigits 10 s)) := by
    unfold strToInt
    simp only [h.no_blanks, h.no_sign, h.no_mark, hTake, hDrop]
    rw [if_pos ⟨hSome, rfl, by omega⟩]
    rfl
  unfold tonumber
  rw [hInt]

/-- A text of hexadecimal digits is an integer after `0x`. -/
theorem tonumber_hex {s : List Char} (h : HexText s) (hSome : s ≠ []) :
    tonumber ('0' :: 'x' :: s) = some (.int (BitVec.ofNat 64 (readDigits 16 s))) := by
  obtain ⟨hTake, hDrop⟩ := h.all_xdigit
  have hInt : strToInt ('0' :: 'x' :: s) = some (BitVec.ofNat 64 (readDigits 16 s)) := by
    have hBlank : ('0' :: 'x' :: s).dropWhile isSpace = '0' :: 'x' :: s := rfl
    have hSign : sign ('0' :: 'x' :: s) = (false, '0' :: 'x' :: s) := rfl
    have hMark : afterHexMark ('0' :: 'x' :: s) = some s := rfl
    unfold strToInt
    simp only [hBlank, hSign, hMark, hTake, hDrop]
    rw [if_pos ⟨hSome, rfl⟩]
    rfl
  unfold tonumber
  rw [hInt]

section Split

variable {m k : List Char} {c : Char} (h : HexText (m ++ c :: k))
  (hm : ∀ c ∈ m, isDigit c = true) (hc : isDigit c = false)
include h hm hc

/-- With a letter in it the text is no integer. -/
theorem strToInt_split : strToInt (m ++ c :: k) = none := by
  obtain ⟨hTake, hDrop⟩ := takeWhile_split hm hc k
  have hRest : ¬ (c :: k).all isSpace = true := by
    rw [h.right.all_space_iff]
    simp
  unfold strToInt
  simp only [h.no_blanks, h.no_sign, h.no_mark, hTake, hDrop]
  rw [if_neg fun hAll => hRest hAll.2.1]

/-- `strtod` reads the digits and, after an `e`, the exponent. -/
theorem strtod_split : strtod (m ++ c :: k) =
    if m = [] then none
    else if c = 'e' ∧ k.takeWhile isDigit ≠ [] then
      some (roundDouble false (readDigits 10 m * 10 ^ readDigits 10 (k.takeWhile isDigit)),
        k.dropWhile isDigit)
    else some (roundDouble false (readDigits 10 m), c :: k) := by
  obtain ⟨hTake, hDrop⟩ := takeWhile_split hm hc k
  have hPlain := h.right.head.2.2
  have hMantissa : mantissa isDigit (m ++ c :: k) = (m, [], c :: k) := by
    unfold mantissa
    rw [hTake, hDrop]
    split
    · next hDot => simp [(List.cons.inj hDot).1] at hPlain
    · rfl
  have hMark : ((c = 'e' || c = 'E') : Bool) = decide (c = 'e') := by
    have hCapital : c ≠ 'E' := by
      rintro rfl
      simp at hPlain
    simp [hCapital]
  unfold strtod
  simp only [h.no_blanks, h.no_sign, h.no_mark, Option.bind_none, Option.orElse_eq_orElse,
    Option.orElse_none, scanFloat, hMantissa, List.append_nil, exponent,
    h.right.tail.no_sign, hMark, decide_eq_true_eq]
  split
  · rfl
  · split
    · simp [zpow_natCast]
    · simp

/-- The letter is no `e` after digits, or there is another one. -/
theorem tonumber_stuck (hStuck : m = [] ∨ c ≠ 'e' ∨ ∃ x ∈ k, isDigit x = false) :
    tonumber (m ++ c :: k) = none := by
  have hFloat : strToFloat (m ++ c :: k) = none := by
    unfold strToFloat
    rw [strtod_split h hm hc]
    by_cases hEmpty : m = []
    · rw [if_pos hEmpty]
    · rw [if_neg hEmpty]
      by_cases hExp : c = 'e' ∧ k.takeWhile isDigit ≠ []
      · rcases hStuck with hNone | hOther | ⟨x, hx, hLetter⟩
        · exact absurd hNone hEmpty
        · exact absurd hExp.1 hOther
        · have hText : HexText (k.dropWhile isDigit) := fun y hy =>
            h.right.tail y (List.dropWhile_subset _ hy)
          have hRest : ¬ (k.dropWhile isDigit).all isSpace = true := by
            rw [hText.all_space_iff, List.dropWhile_eq_nil_iff]
            intro hAll
            rw [hAll x hx] at hLetter
            cases hLetter
          rw [if_pos hExp]
          exact if_neg hRest
      · have hRest : ¬ (c :: k).all isSpace = true := by
          rw [h.right.all_space_iff]
          simp
        rw [if_neg hExp]
        exact if_neg hRest
  unfold tonumber
  rw [strToInt_split h hm hc, hFloat]
  rfl

end Split

/-- Digits, an `e` and digits are a double. -/
theorem tonumber_exponent {m k : List Char} (h : HexText (m ++ 'e' :: k))
    (hm : ∀ c ∈ m, isDigit c = true) (hk : ∀ c ∈ k, isDigit c = true) (hSome : m ≠ [])
    (hExp : k ≠ []) : tonumber (m ++ 'e' :: k) =
      some (.float (roundDouble false (readDigits 10 m * 10 ^ readDigits 10 k))) := by
  have hLetter : isDigit 'e' = false := by decide
  obtain ⟨hTake, hDrop⟩ := takeWhile_all hk
  have hFloat : strToFloat (m ++ 'e' :: k) =
      some (roundDouble false (readDigits 10 m * 10 ^ readDigits 10 k)) := by
    unfold strToFloat
    rw [strtod_split h hm hLetter, if_neg hSome, hTake, if_pos ⟨rfl, hExp⟩, hDrop]
    rfl
  unfold tonumber
  rw [strToInt_split h hm hLetter, hFloat]
  rfl

/-- Digits, and possibly an `e` and more digits. -/
def DecimalLike (s : List Char) : Prop :=
  ∃ m k, m ≠ [] ∧ (∀ c ∈ m, isDigit c = true) ∧ (∀ c ∈ k, isDigit c = true) ∧
    (s = m ∨ s = m ++ 'e' :: k)

/-- Digits at the end do not make a number of what is none. -/
theorem tonumber_of_not_decimalLike {s t : List Char} (h : HexText (s ++ t)) (hSome : s ≠ [])
    (hNot : ¬ DecimalLike s) : tonumber (s ++ t) = none := by
  rcases digits_or_split s with hAll | ⟨m, c, k, rfl, hm, hc⟩
  · exact absurd ⟨s, [], hSome, hAll, by simp, Or.inl rfl⟩ hNot
  · rw [List.append_assoc, List.cons_append] at h ⊢
    apply tonumber_stuck h hm hc
    by_cases hEmpty : m = []
    · exact Or.inl hEmpty
    · by_cases hLetter : c = 'e'
      · subst hLetter
        right; right
        by_contra hNone
        apply hNot
        refine ⟨m, k, hEmpty, hm, ?_, Or.inr rfl⟩
        intro x hx
        by_contra hx'
        exact hNone ⟨x, List.mem_append_left _ hx, by simpa using hx'⟩
      · exact Or.inr (Or.inl hLetter)

end LunarOS.Logic.Lua
