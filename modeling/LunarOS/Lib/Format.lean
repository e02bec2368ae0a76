import Mathlib.Data.List.Basic
import LunarOS.Lib.Printf

/-!
# The format language of `vprintf`

A format is a list of pieces (`Piece`): literal characters, `%s`, the number directives with
`l`, `ll` or neither, and `%` before any other character. `format` spells it and `render` is
what it asks for. `vprintf_format` computes what `vprintf` puts: the conversion character of a
directive with one `l` appears after its number, so the two agree only without such directives
(`vprintf_iff`).
-/

namespace LunarOS

inductive Length
  | int | long | longLong
  deriving DecidableEq, Repr

inductive Conversion
  | d | i | o | x | u
  deriving DecidableEq, Repr

namespace Conversion

def char : Conversion → Char
  | d => 'd' | i => 'i' | o => 'o' | x => 'x' | u => 'u'

def signed : Conversion → Bool
  | d | i => true
  | o | x | u => false

def base : Conversion → Nat
  | o => 8
  | x => 16
  | d | i | u => 10

/-- What stands before the digits. -/
def mark : Conversion → List Char
  | o => ['0']
  | x => ['0', 'x']
  | d | i | u => []

end Conversion

/-- The characters `vprintf` has a case for, and the terminator. -/
def directiveChars : List Char := ['l', 's', 'd', 'i', 'o', 'x', 'u', '\x00']

inductive Piece
  | lit (c : Char) (hc : c ≠ '%' ∧ c ≠ '\x00')
  | str
  | num (length : Length) (conv : Conversion)
  | other (c : Char) (hc : c ∉ directiveChars)

namespace Length

def chars : Length → List Char
  | int => []
  | long => ['l']
  | longLong => ['l', 'l']

def bits : Length → Nat
  | int => 32
  | long | longLong => 64

end Length

/-- The number in a slot. -/
def slotValue (length : Length) (conv : Conversion) (slot : Nat) : Int :=
  if conv.signed then (slot : Int).bmod (2 ^ length.bits) else slot % 2 ^ length.bits

def renderNumber (length : Length) (conv : Conversion) (slot : Nat) : List Char :=
  let value := slotValue length conv slot
  (if value < 0 then ['-'] else []) ++ conv.mark ++ Nat.toDigits conv.base value.natAbs

namespace Piece

def chars : Piece → List Char
  | lit c _ => [c]
  | str => ['%', 's']
  | num length conv => '%' :: (length.chars ++ [conv.char])
  | other c _ => ['%', c]

/-- The argument is of the type the piece reads. -/
inductive Takes : Piece → List Arg → Prop
  | lit (c : Char) (hc : c ≠ '%' ∧ c ≠ '\x00') : Takes (lit c hc) []
  | other (c : Char) (hc : c ∉ directiveChars) : Takes (other c hc) []
  | str (p : Option (List Char)) : Takes str [.str p]
  | num (length : Length) (conv : Conversion) (slot : Nat) : Takes (num length conv) [.num slot]

def render : Piece → List Arg → List Char
  | lit c _, _ => [c]
  | other c _, _ => [c]
  | str, [.str p] => p.getD "(null)".toList
  | num length conv, [.num slot] => renderNumber length conv slot
  | _, _ => []

/-- Characters of the piece that appear in the output after its rendering. -/
def echo : Piece → List Char
  | num .long conv => [conv.char]
  | _ => []

end Piece

/-- A piece and the arguments it reads. -/
structure Item where
  piece : Piece
  args : List Arg
  takes : piece.Takes args

namespace Item

def num (length : Length) (conv : Conversion) (slot : Nat) : Item :=
  ⟨.num length conv, [.num slot], .num length conv slot⟩

def str (p : Option (List Char)) : Item := ⟨.str, [.str p], .str p⟩

/-- A text that prints as itself. -/
def plain (text : String) : Bool := text.toList.all fun c => c != '%' && c != '\x00'

theorem ne_of_plain {text : String} (h : plain text = true) {c : Char} (hc : c ∈ text.toList) :
    c ≠ '%' ∧ c ≠ '\x00' := by
  have hBoth := List.all_eq_true.mp h c hc
  simpa only [Bool.and_eq_true, bne_iff_ne] using hBoth

/-- The characters of a text without directives. -/
def lits (text : String) (h : plain text = true := by rfl) : List Item :=
  text.toList.pmap (fun c hc => ⟨.lit c hc, [], .lit c hc⟩) fun _ => ne_of_plain h

end Item

def format (items : List Item) : List Char := items.flatMap fun it => it.piece.chars

def arguments (items : List Item) : List Arg := items.flatMap Item.args

def render (items : List Item) : List Char := items.flatMap fun it => it.piece.render it.args

/-- No directive has a single `l`. -/
def NoLong (items : List Item) : Prop := ∀ it ∈ items, ∀ conv, it.piece ≠ .num .long conv

/-! ## `uitoa` writes the digits of the number -/

theorem swapChars_length (buf : List Char) (i : Nat) : (swapChars buf i).length = buf.length := by
  simp only [swapChars, List.length_set]

theorem swapFold_length (buf : List Char) (is : List Nat) :
    (is.foldl swapChars buf).length = buf.length := by
  induction is generalizing buf with
  | nil => rfl
  | cons i is ih => rw [List.foldl_cons, ih, swapChars_length]

theorem swapChars_getElem? (buf : List Char) {i : Nat} (hi : i < buf.length / 2) (j : Nat) :
    (swapChars buf i)[j]? = if buf.length - i - 1 = j then buf[i]?
      else if i = j then buf[buf.length - i - 1]? else buf[j]? := by
  have hFirst := List.getElem?_eq_getElem (by omega : i < buf.length)
  have hLast := List.getElem?_eq_getElem (by omega : buf.length - i - 1 < buf.length)
  simp only [swapChars, List.getElem?_set, List.length_set, List.getD_eq_getElem?_getD, hFirst,
    hLast, Option.getD_some]
  rw [if_pos (by omega : buf.length - i - 1 < buf.length), if_pos (by omega : i < buf.length)]

/-- After `k` turns the first and the last `k` characters are in place. -/
theorem swapFold_getElem? (buf : List Char) {k : Nat} (hk : k ≤ buf.length / 2) (j : Nat) :
    ((List.range k).foldl swapChars buf)[j]? =
      if j < k ∨ buf.length - k ≤ j then buf.reverse[j]? else buf[j]? := by
  induction k generalizing j with
  | zero =>
    by_cases hj : buf.length ≤ j
    · simp [hj]
    · simp [hj]
  | succ k ih =>
    have hLength := swapFold_length buf (List.range k)
    have hFirst := ih (by omega) k
    have hLast := ih (by omega) (buf.length - k - 1)
    rw [if_neg (by omega)] at hFirst hLast
    rw [List.range_succ, List.foldl_append, List.foldl_cons, List.foldl_nil,
      swapChars_getElem? _ (by omega), hLength, hFirst, hLast]
    by_cases hEnd : buf.length - k - 1 = j
    · subst hEnd
      rw [if_pos rfl, if_pos (by omega), List.getElem?_reverse (by omega)]
      congr 1
      omega
    · by_cases hStart : k = j
      · subst hStart
        rw [if_neg hEnd, if_pos rfl, if_pos (by omega), List.getElem?_reverse (by omega)]
        congr 1
        omega
      · rw [if_neg hEnd, if_neg hStart, ih (by omega)]
        congr 1
        apply propext
        omega

theorem swapAll_eq_reverse (buf : List Char) :
    (List.range (buf.length / 2)).foldl swapChars buf = buf.reverse := by
  apply List.ext_getElem?
  intro j
  rw [swapFold_getElem? buf (Nat.le_refl _)]
  split
  · rfl
  · -- the middle character of an odd number
    have hMiddle : buf.length - 1 - j = j := by omega
    rw [List.getElem?_reverse (by omega), hMiddle]

theorem digits_getD {n : Nat} (h : n < 16) : digits.getD n '0' = Nat.digitChar n := by
  revert h n
  decide

/-- One more turn of the `do` loop has a digit left. -/
theorem div_lt_base_pow {base fuel value : Nat} (hBase : 1 < base) (hMore : base ≤ value)
    (hFuel : value < base ^ (fuel + 1)) :
    value / base ≠ 0 ∧ value / base < base ^ fuel ∧ 0 < fuel := by
  have hLeft : value / base ≠ 0 := (Nat.div_pos hMore (by omega)).ne'
  have hRest : value / base < base ^ fuel := by
    apply Nat.div_lt_of_lt_mul
    rwa [← Nat.pow_succ']
  refine ⟨hLeft, hRest, ?_⟩
  cases fuel with
  | zero => exact absurd (Nat.lt_one_iff.mp hRest) hLeft
  | succ fuel => exact Nat.succ_pos fuel

theorem uitoaDigits_eq {base fuel value : Nat} (hBase : 1 < base) (hLow : base ≤ 16)
    (hFuel : value < base ^ fuel) (hPos : 0 < fuel) :
    (uitoaDigits base fuel value).reverse = Nat.toDigits base value := by
  induction fuel generalizing value with
  | zero => omega
  | succ fuel ih =>
    have hDigit := digits_getD (n := value % base)
      (Nat.lt_of_lt_of_le (Nat.mod_lt _ (by omega)) hLow)
    unfold uitoaDigits
    rw [Nat.toDigits_eq_if hBase, hDigit]
    by_cases hLess : value < base
    · rw [if_pos hLess, Nat.div_eq_of_lt hLess, Nat.mod_eq_of_lt hLess]
      rfl
    · obtain ⟨hMore, hRest, hMoreFuel⟩ := div_lt_base_pow hBase (Nat.le_of_not_lt hLess) hFuel
      rw [if_neg hLess, if_neg hMore, List.reverse_cons, ih hRest hMoreFuel]

theorem uitoa_eq {base value : Nat} (hBase : 1 < base) (hLow : base ≤ 16)
    (hValue : value < wordSize) : uitoa value base = Nat.toDigits base value := by
  have hFits : value < base ^ 64 := Nat.lt_of_lt_of_le hValue (Nat.pow_le_pow_left hBase 64)
  unfold uitoa
  rw [swapAll_eq_reverse, uitoaDigits_eq hBase hLow hFits (by omega)]

/-! ## Number directives -/

theorem fmtnum_unsigned (conv : Conversion) {value : Nat} (hValue : value < wordSize) :
    fmtnum value conv.base false = conv.mark ++ Nat.toDigits conv.base value := by
  unfold fmtnum
  cases conv <;> simp [Conversion.base, Conversion.mark, uitoa_eq, hValue]

theorem fmtnum_signed {value : Nat} (hValue : value < wordSize) {n : Int}
    (hn : (value : Int).bmod wordSize = n) :
    fmtnum value 10 true = (if n < 0 then ['-'] else []) ++ Nat.toDigits 10 n.natAbs := by
  subst hn
  unfold fmtnum
  unfold wordSize at hValue
  have hDef := Int.bmod_def value wordSize
  unfold wordSize at hDef ⊢
  by_cases hNeg : 2 ^ 63 ≤ value
  · have hAbs : sub64 0 value = ((value : Int).bmod (2 ^ 64 : Nat)).natAbs := by
      rw [sub64_borrow (by omega) (by unfold wordSize; omega)]
      unfold wordSize
      omega
    have hSign : (value : Int).bmod (2 ^ 64 : Nat) < 0 := by omega
    rw [if_pos ⟨rfl, hNeg⟩, if_pos hSign, ← hAbs, uitoa_eq (by omega) (by omega) (sub64_lt _ _)]
    rfl
  · have hAbs : value = ((value : Int).bmod (2 ^ 64 : Nat)).natAbs := by omega
    have hSign : ¬ (value : Int).bmod (2 ^ 64 : Nat) < 0 := by omega
    rw [if_neg fun h => hNeg h.2, if_neg hSign, ← hAbs, uitoa_eq (by omega) (by omega) hValue]
    rfl

theorem renderNumber_signed {length : Length} {conv : Conversion} (hConv : conv.signed = true)
    (slot : Nat) : renderNumber length conv slot =
      (if (slot : Int).bmod (2 ^ length.bits) < 0 then ['-'] else []) ++
        Nat.toDigits 10 ((slot : Int).bmod (2 ^ length.bits)).natAbs := by
  cases conv <;> simp [Conversion.signed] at hConv <;>
    simp [renderNumber, slotValue, Conversion.signed, Conversion.base, Conversion.mark]

theorem renderNumber_unsigned {length : Length} {conv : Conversion} (hConv : conv.signed = false)
    (slot : Nat) : renderNumber length conv slot =
      conv.mark ++ Nat.toDigits conv.base (slot % 2 ^ length.bits) := by
  have hPos : ¬ ((slot % 2 ^ length.bits : Nat) : Int) < 0 := by omega
  have hValue : slotValue length conv slot = ((slot % 2 ^ length.bits : Nat) : Int) := by
    simp [slotValue, hConv]
  unfold renderNumber
  dsimp only
  rw [hValue, if_neg hPos]
  rfl

/-- A function that reads an argument of the width gives the rendering of it. -/
theorem fmtDirective_eq {length : Length} {signed unsigned : List Arg → Outcome (Nat × List Arg)}
    {args rest : List Arg} {slot s : Nat} (hSigned : signed args = .ok (s, rest))
    (hs : s < wordSize) (hValue : (s : Int).bmod wordSize = (slot : Int).bmod (2 ^ length.bits))
    (hUnsigned : unsigned args = .ok (slot % 2 ^ length.bits, rest))
    (hFits : slot % 2 ^ length.bits < wordSize) (conv : Conversion) (fmt : List Char) :
    fmtDirective putnum signed unsigned (conv.char :: fmt) args =
      .ok (renderNumber length conv slot, rest) := by
  have hLow := fmtnum_unsigned conv hFits
  unfold fmtDirective
  cases conv with
  | d | i =>
    rw [renderNumber_signed rfl, ← fmtnum_signed hs hValue]
    simp only [Conversion.char, List.headD_cons, hSigned]
    rfl
  | o | x | u =>
    rw [renderNumber_unsigned rfl, ← hLow]
    simp only [Conversion.char, List.headD_cons, hUnsigned]
    rfl

theorem fmtnum64_eq {length : Length} (hLong : length.bits = 64) (conv : Conversion)
    (fmt : List Char) (slot : Nat) (args : List Arg) :
    fmtnum64 (conv.char :: fmt) (.num slot :: args) =
      .ok (renderNumber length conv slot, args) := by
  have hRead : vaArg64 (.num slot :: args) = .ok (slot % 2 ^ length.bits, args) := by
    rw [hLong]
    rfl
  have hFits : slot % 2 ^ length.bits < wordSize := by
    rw [hLong]
    exact Nat.mod_lt _ (by decide)
  refine fmtDirective_eq hRead hFits ?_ hRead hFits conv fmt
  rw [hLong, Int.bmod_def, Int.bmod_def]
  unfold wordSize
  omega

theorem fmtnum32_eq (conv : Conversion) (fmt : List Char) (slot : Nat) (args : List Arg) :
    fmtnum32 (conv.char :: fmt) (.num slot :: args) = .ok (renderNumber .int conv slot, args) := by
  have hLow : slot % wordSize % 2 ^ 32 = slot % 2 ^ 32 := by
    unfold wordSize
    omega
  have hSigned : vaArgI32 (.num slot :: args) = .ok (sext32 (slot % wordSize), args) := rfl
  have hUnsigned : vaArgU32 (.num slot :: args) = .ok (slot % 2 ^ 32, args) := by
    rw [← hLow]
    rfl
  have hFits : sext32 (slot % wordSize) < wordSize := by
    unfold sext32
    rw [hLow]
    unfold wordSize
    split <;> omega
  refine fmtDirective_eq hSigned hFits ?_ hUnsigned ?_ conv fmt
  · unfold sext32
    rw [hLow, Int.bmod_def, Int.bmod_def]
    simp only [Length.bits]
    unfold wordSize
    split <;> omega
  · simp only [Length.bits]
    unfold wordSize
    omega

/-! ## The loop of `vprintf` -/

theorem emit_emit (cs cs' : List Char) (rest : Printed) :
    emit cs (emit cs' rest) = emit (cs ++ cs') rest := by
  unfold emit
  cases rest with
  | error e => rfl
  | ok r => simp [ok_bind_eq, List.append_assoc, pure, Except.pure]

theorem andThen_ok (cs : List Char) (args : List Arg) (rest : List Arg → Printed) :
    andThen (.ok (cs, args)) rest = emit cs (rest args) := rfl

theorem vprintf_lit {c : Char} (hc : c ≠ '%') (fmt : List Char) (args : List Arg) :
    vprintf (c :: fmt) args = emit [c] (vprintf fmt args) := by
  rw [vprintf.eq_def]
  exact if_pos hc

theorem vprintf_str (p : Option (List Char)) (fmt : List Char) (args : List Arg) :
    vprintf ('%' :: 's' :: fmt) (.str p :: args) =
      emit (p.getD "(null)".toList) (vprintf fmt args) := by
  rw [vprintf.eq_def]
  rfl

/-- `fmtnum32(fmt++, args)` -/
theorem vprintf_int (conv : Conversion) (fmt : List Char) (slot : Nat) (args : List Arg) :
    vprintf ('%' :: conv.char :: fmt) (.num slot :: args) =
      emit (renderNumber .int conv slot) (vprintf fmt args) := by
  rw [← andThen_ok, ← fmtnum32_eq conv fmt slot args]
  cases conv <;> exact vprintf.eq_def _ _

/-- `fmtnum64(++fmt, args)` leaves `fmt` at the conversion character. -/
theorem vprintf_long (conv : Conversion) (fmt : List Char) (slot : Nat) (args : List Arg) :
    vprintf ('%' :: 'l' :: conv.char :: fmt) (.num slot :: args) =
      emit (renderNumber .long conv slot) (vprintf (conv.char :: fmt) args) := by
  rw [← andThen_ok, ← fmtnum64_eq rfl conv fmt slot args]
  cases conv <;> exact vprintf.eq_def _ _

/-- `fmtnum64(fmt++, args)` after `fmt += 2` -/
theorem vprintf_longLong (conv : Conversion) (fmt : List Char) (slot : Nat) (args : List Arg) :
    vprintf ('%' :: 'l' :: 'l' :: conv.char :: fmt) (.num slot :: args) =
      emit (renderNumber .longLong conv slot) (vprintf fmt args) := by
  rw [← andThen_ok, ← fmtnum64_eq rfl conv fmt slot args]
  cases conv <;> exact vprintf.eq_def _ _

/-- `fmtnum32(fmt++, args)` and `putchar(*fmt++)` -/
theorem vprintf_short {c : Char} (hl : c ≠ 'l') (hs : c ≠ 's') (fmt : List Char)
    (args : List Arg) :
    vprintf ('%' :: c :: fmt) args =
      if c = 'd' ∨ c = 'i' ∨ c = 'o' ∨ c = 'x' ∨ c = 'u' then
        andThen (fmtnum32 [c] args) fun args => vprintf fmt args
      else emit [c] (vprintf fmt args) := by
  rw [vprintf.eq_def]
  dsimp only
  rw [if_neg (by decide)]
  split
  · next h => cases h
  · next h => exact absurd (List.cons.inj h).1 hl
  · next h => exact absurd (List.cons.inj h).1 hs
  · next h =>
    obtain ⟨rfl, rfl⟩ := List.cons.inj h
    rfl

theorem vprintf_other {c : Char} (hc : c ∉ directiveChars) (fmt : List Char) (args : List Arg) :
    vprintf ('%' :: c :: fmt) args = emit [c] (vprintf fmt args) := by
  simp only [directiveChars, List.mem_cons, List.not_mem_nil, or_false, not_or] at hc
  obtain ⟨hl, hs, hd, hi, ho, hx, hu, -⟩ := hc
  rw [vprintf_short hl hs]
  simp only [hd, hi, ho, hx, hu, or_self, if_false]

theorem vprintf_item (it : Item) (fmt : List Char) (args : List Arg) :
    vprintf (it.piece.chars ++ fmt) (it.args ++ args) =
      emit (it.piece.render it.args ++ it.piece.echo) (vprintf fmt args) := by
  obtain ⟨piece, own, hTakes⟩ := it
  cases hTakes with
  | lit c hc => exact vprintf_lit hc.1 fmt args
  | other c hc => exact vprintf_other hc fmt args
  | str p =>
    simp only [Piece.render, Piece.echo, List.append_nil]
    exact vprintf_str p fmt args
  | num length conv slot =>
    cases length with
    | int =>
      simp only [Piece.render, Piece.echo, List.append_nil]
      exact vprintf_int conv fmt slot args
    | longLong =>
      simp only [Piece.render, Piece.echo, List.append_nil]
      exact vprintf_longLong conv fmt slot args
    | long =>
      -- the conversion character is read again, as a literal
      have hLit : conv.char ≠ '%' := by cases conv <;> decide
      simp only [Piece.render, Piece.echo]
      rw [← emit_emit, ← vprintf_lit hLit]
      exact vprintf_long conv fmt slot args

/-- What `vprintf` puts for any format of the language. -/
theorem vprintf_format (items : List Item) (args : List Arg) :
    vprintf (format items) (arguments items ++ args) =
      .ok (items.flatMap fun it => it.piece.render it.args ++ it.piece.echo, args) := by
  induction items with
  | nil => rfl
  | cons it items ih =>
    have hArgs : arguments (it :: items) ++ args = it.args ++ (arguments items ++ args) := by
      simp only [arguments, List.flatMap_cons, List.append_assoc]
    have hFormat : format (it :: items) = it.piece.chars ++ format items := List.flatMap_cons ..
    rw [hArgs, hFormat, vprintf_item, ih]
    rfl

/-- Characters too many: one for each directive with a single `l`. -/
theorem length_echo (items : List Item) :
    (items.flatMap fun it => it.piece.render it.args ++ it.piece.echo).length =
      (render items).length + (items.flatMap fun it => it.piece.echo).length := by
  induction items with
  | nil => rfl
  | cons it items ih =>
    simp only [render, List.flatMap_cons, List.length_append] at ih ⊢
    omega

theorem echo_eq_nil_iff (piece : Piece) :
    piece.echo = [] ↔ ∀ conv, piece ≠ .num .long conv := by
  cases piece with
  | num length conv => cases length <;> simp [Piece.echo]
  | lit | str | other => simp [Piece.echo]

/-- Without a single `l` nothing is put but what the pieces ask for. -/
theorem render_eq {items : List Item} (h : NoLong items) :
    (items.flatMap fun it => it.piece.render it.args ++ it.piece.echo) = render items := by
  unfold render
  apply List.flatMap_congr
  intro it hit
  rw [(echo_eq_nil_iff _).mpr (h it hit), List.append_nil]

theorem vprintf_iff (items : List Item) (args : List Arg) :
    vprintf (format items) (arguments items ++ args) = .ok (render items, args) ↔
      NoLong items := by
  rw [vprintf_format]
  constructor
  · intro h it hit conv hLong
    have hOut : (items.flatMap fun it => it.piece.render it.args ++ it.piece.echo) =
        render items := congrArg Prod.fst (Except.ok.inj h)
    have hLength := length_echo items
    rw [hOut] at hLength
    have hNone : (items.flatMap fun it => it.piece.echo) = [] :=
      List.length_eq_zero_iff.mp (by omega)
    have hEcho : it.piece.echo = [] := List.flatMap_eq_nil_iff.mp hNone it hit
    exact (echo_eq_nil_iff _).mp hEcho conv hLong
  · intro h
    rw [render_eq h]

/-- `printf("%ld", 5)` prints `5d`. -/
theorem single_long_echoes : format [.num .long .d 5] = ['%', 'l', 'd'] ∧
    arguments [.num .long .d 5] = [.num 5] ∧ render [.num .long .d 5] = ['5'] ∧
    vprintf ['%', 'l', 'd'] [.num 5] = .ok (['5', 'd'], []) := by
  refine ⟨rfl, rfl, ?_, ?_⟩
  · decide +kernel
  · decide +kernel

end LunarOS
