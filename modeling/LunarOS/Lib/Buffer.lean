import LunarOS.Lib.Format
import LunarOS.Logic.Numeral

/-!
# `uitoa` and `fmtnum` on their buffer

Here the digits go to a `char` array of a given length, and an access outside it is a fault.
`uitoa_spec` says what `uitoa` leaves in the array and returns, and `fmtnum_eq` that the 64
characters of `fmtnum` are enough for the bases it is called with, so that what it puts is the
list that `LunarOS.fmtnum` gives. `number_printing` is the outcome for the callers: every
integer argument is shown as the number its directive says, sign and prefix included.
-/

namespace LunarOS.Buffer

open Logic

/-! ## The code -/

/-- `buf[i]` -/
def fetch (buf : List Char) (i : Nat) : Outcome Char :=
  match buf[i]? with
  | some c => .ok c
  | none => .error (.fault (.buffer i))

/-- `buf[i] = c` -/
def store (buf : List Char) (i : Nat) (c : Char) : Outcome (List Char) :=
  if i < buf.length then .ok (buf.set i c) else .error (.fault (.buffer i))

/-- The `do` loop of `uitoa`. -/
def putDigits (base : Nat) : Nat → Nat → Nat → List Char → Outcome (Nat × List Char)
  | 0, _, _, _ => .error .fuel
  | fuel + 1, value, pos, buf => do
    -- the array ends with a `NUL`
    let buf ← store buf pos (← fetch (digits ++ ['\x00']) (value % base))
    if value / base = 0 then pure (pos + 1, buf)
    else putDigits base fuel (value / base) (pos + 1) buf

/-- One turn of the loop that reverses the string. -/
def swap (pos : Nat) (buf : List Char) (i : Nat) : Outcome (List Char) := do
  let tmp ← fetch buf i
  let buf ← store buf i (← fetch buf (pos - i - 1))
  store buf (pos - i - 1) tmp

def uitoa (fuel value : Nat) (buf : List Char) (base : Nat) : Outcome (Nat × List Char) := do
  let (pos, buf) ← putDigits base fuel value 0 buf
  let buf ← (List.range (pos / 2)).foldlM (swap pos) buf
  let buf ← store buf pos '\x00'
  pure (pos, buf)

/-- What `puts` puts of an array. -/
def puts (buf : List Char) : Outcome (List Char) :=
  if '\x00' ∈ buf then .ok (buf.takeWhile (· ≠ '\x00'))
  else .error (.fault (.buffer buf.length))

/-- `buffer` is what the array holds before. -/
def fmtnum (fuel : Nat) (buffer : List Char) (value base : Nat) (issigned : Bool) :
    Outcome (List Char) := do
  let basePrefix := if base = 8 then ['0'] else if base = 16 then ['0', 'x'] else []
  if issigned ∧ 2 ^ 63 ≤ value then
    let (_, buffer) ← uitoa fuel (sub64 0 value) buffer base
    pure ('-' :: (basePrefix ++ (← puts buffer)))
  else
    let (_, buffer) ← uitoa fuel value buffer base
    pure (basePrefix ++ (← puts buffer))

def fmtnum64 (fuel : Nat) (buffer : List Char) : List Char → List Arg → Printed :=
  fmtDirective (fmtnum fuel buffer) vaArg64 vaArg64

def fmtnum32 (fuel : Nat) (buffer : List Char) : List Char → List Arg → Printed :=
  fmtDirective (fmtnum fuel buffer) vaArgI32 vaArgU32

/-! ## The loops of `uitoa` -/

theorem fetch_append_left {buf : List Char} {i : Nat} (h : i < buf.length) (rest : List Char) :
    fetch (buf ++ rest) i = .ok (buf.getD i '0') := by
  unfold fetch
  rw [List.getElem?_append_left h, List.getD_eq_getElem?_getD, List.getElem?_eq_getElem h]
  rfl

theorem store_append_left {buf : List Char} {i : Nat} (h : i < buf.length) (rest : List Char)
    (c : Char) : store (buf ++ rest) i c = .ok (buf.set i c ++ rest) := by
  have hLength : i < (buf ++ rest).length := by
    rw [List.length_append]
    omega
  unfold store
  rw [if_pos hLength, List.set_append_left _ _ h]

theorem store_at (pre post : List Char) (c d : Char) :
    store (pre ++ c :: post) pre.length d = .ok (pre ++ d :: post) := by
  have hLength : pre.length < (pre ++ c :: post).length := by simp
  unfold store
  rw [if_pos hLength, List.set_append_right _ _ (Nat.le_refl _), Nat.sub_self, List.set_cons_zero]

/-- `old` is overwritten with the digits, the last one first. -/
theorem putDigits_eq {base : Nat} (hBase : 1 < base) (hLow : base ≤ 16) {fuel value : Nat}
    (hFuel : value < base ^ fuel) (hPos : 0 < fuel) (pre old post : List Char)
    (hOld : old.length = (Nat.toDigits base value).length) :
    putDigits base fuel value pre.length (pre ++ (old ++ post)) =
      .ok (pre.length + old.length, pre ++ ((Nat.toDigits base value).reverse ++ post)) := by
  induction fuel generalizing value pre old with
  | zero => omega
  | succ fuel ih =>
    have hMod : value % base < 16 := Nat.lt_of_lt_of_le (Nat.mod_lt _ (by omega)) hLow
    have hDigit : fetch (digits ++ ['\x00']) (value % base) =
        .ok (Nat.digitChar (value % base)) := by
      rw [fetch_append_left hMod, digits_getD hMod]
    cases old with
    | nil => exact absurd hOld.symm Nat.length_toDigits_pos.ne'
    | cons c old =>
      unfold putDigits
      rw [hDigit, ok_bind_eq, List.cons_append, store_at, ok_bind_eq]
      by_cases hLess : value < base
      · rw [Nat.toDigits_of_lt_base hLess, List.length_singleton, List.length_cons] at hOld
        have hNone : old = [] := List.length_eq_zero_iff.mp (by omega)
        subst hNone
        rw [if_pos (Nat.div_eq_of_lt hLess), Nat.mod_eq_of_lt hLess,
          Nat.toDigits_of_lt_base hLess]
        rfl
      · obtain ⟨hMore, hRest, hMoreFuel⟩ := div_lt_base_pow hBase (Nat.le_of_not_lt hLess) hFuel
        have hSplit := Nat.toDigits_of_base_le hBase (Nat.le_of_not_lt hLess)
        rw [hSplit, List.length_append, List.length_cons, List.length_singleton] at hOld
        have hTurn := ih hRest hMoreFuel (pre ++ [Nat.digitChar (value % base)]) old (by omega)
        rw [if_neg hMore, hSplit, List.reverse_append]
        simp only [List.length_append, List.length_cons, List.length_nil, List.append_assoc,
          List.reverse_singleton, List.cons_append, List.nil_append, Nat.zero_add]
          at hTurn ⊢
        rw [hTurn]
        congr 2
        omega

/-- One turn exchanges two characters of the string. -/
theorem swap_eq {cs : List Char} {i : Nat} (h : i < cs.length / 2) (rest : List Char) :
    swap cs.length (cs ++ rest) i = .ok (swapChars cs i ++ rest) := by
  have hLength : (cs.set i (cs.getD (cs.length - i - 1) '0')).length = cs.length :=
    List.length_set
  unfold swap
  rw [fetch_append_left (by omega), ok_bind_eq, fetch_append_left (by omega), ok_bind_eq,
    store_append_left (by omega), ok_bind_eq, store_append_left (by omega)]
  rfl

theorem swaps_eq (cs : List Char) (is : List Nat) (h : ∀ i ∈ is, i < cs.length / 2)
    (rest : List Char) :
    is.foldlM (swap cs.length) (cs ++ rest) = .ok (is.foldl swapChars cs ++ rest) := by
  induction is generalizing cs with
  | nil => rfl
  | cons i is ih =>
    have hLength := swapChars_length cs i
    have hNext : ∀ j ∈ is, j < (swapChars cs i).length / 2 := by
      intro j hj
      rw [hLength]
      exact h j (List.mem_cons_of_mem _ hj)
    have hTurn := ih (swapChars cs i) hNext
    rw [List.foldlM_cons, swap_eq (h i List.mem_cons_self), ok_bind_eq, List.foldl_cons]
    rwa [hLength] at hTurn

/-- The digits, a `NUL`, and the rest of the array as it was. -/
theorem uitoa_spec {base : Nat} (hBase : 1 < base) (hLow : base ≤ 16) {fuel value : Nat}
    (hFuel : value < base ^ fuel) (hPos : 0 < fuel) {buf : List Char} {len : Nat}
    (hLen : (Nat.toDigits base value).length = len) (hRoom : len < buf.length) :
    uitoa fuel value buf base =
      .ok (len, Nat.toDigits base value ++ '\x00' :: buf.drop (len + 1)) := by
  have hBuf : buf = buf.take len ++ buf[len] :: buf.drop (len + 1) := by
    rw [← List.drop_eq_getElem_cons hRoom, List.take_append_drop]
  have hOld : (buf.take len).length = len := List.length_take_of_le hRoom.le
  have hDigits := putDigits_eq hBase hLow hFuel hPos [] (buf.take len)
    (buf[len] :: buf.drop (len + 1)) (hOld.trans hLen.symm)
  simp only [List.nil_append, List.length_nil, Nat.zero_add, ← hBuf, hOld] at hDigits
  have hReverse := swaps_eq (Nat.toDigits base value).reverse
    (List.range ((Nat.toDigits base value).reverse.length / 2)) (fun i => List.mem_range.mp)
    (buf[len] :: buf.drop (len + 1))
  rw [swapAll_eq_reverse, List.reverse_reverse, List.length_reverse, hLen] at hReverse
  have hEnd := store_at (Nat.toDigits base value) (buf.drop (len + 1)) buf[len] '\x00'
  rw [hLen] at hEnd
  unfold uitoa
  rw [hDigits, ok_bind_eq]
  dsimp only
  rw [hReverse, ok_bind_eq, hEnd]
  rfl

/-- `64` turns are enough for every value. -/
theorem lt_base_pow {base fuel value : Nat} (hBase : 1 < base) (hValue : value < wordSize)
    (hFuel : 64 ≤ fuel) : value < base ^ fuel :=
  calc value < 2 ^ 64 := hValue
    _ ≤ base ^ 64 := Nat.pow_le_pow_left hBase 64
    _ ≤ base ^ fuel := Nat.pow_le_pow_right (by omega) hFuel

/-! ## The buffer of `fmtnum` -/

theorem digits_length_lt {base value : Nat} (hBase : 8 ≤ base) (hValue : value < wordSize) :
    (Nat.toDigits base value).length < 64 := by
  have hFits : (Nat.toDigits base value).length ≤ 22 := by
    rw [Nat.length_toDigits_le_iff (by omega) (by omega)]
    calc value < 8 ^ 22 := Nat.lt_of_lt_of_le hValue (by unfold wordSize; omega)
      _ ≤ base ^ 22 := Nat.pow_le_pow_left hBase 22
  omega

theorem puts_eq {cs : List Char} (h : '\x00' ∉ cs) (rest : List Char) :
    puts (cs ++ '\x00' :: rest) = .ok cs := by
  have hEnds : '\x00' ∈ cs ++ '\x00' :: rest := by simp
  have hAll : ∀ c ∈ cs, decide (c ≠ '\x00') = true := by
    intro c hc
    exact decide_eq_true fun hNul => h (hNul ▸ hc)
  unfold puts
  rw [if_pos hEnds, List.takeWhile_append_of_pos hAll]
  simp

theorem nul_not_digit {base : Nat} (hBase : 1 < base) (hLow : base ≤ 16) (n : Nat) :
    '\x00' ∉ Nat.toDigits base n := (numeral_toDigits hBase hLow n).not_mem hLow (by decide)

/-- What `fmtnum` puts after `uitoa` filled its buffer. -/
theorem uitoa_puts {base : Nat} (hBase : 8 ≤ base) (hLow : base ≤ 16) {fuel value : Nat}
    (hFuel : 64 ≤ fuel) (hValue : value < wordSize) {buffer : List Char}
    (hBuffer : buffer.length = 64) {α : Type} (rest : List Char → Outcome α) :
    (uitoa fuel value buffer base >>= fun r => puts r.2 >>= rest) =
      rest (LunarOS.uitoa value base) := by
  have hRoom : (Nat.toDigits base value).length < buffer.length := by
    rw [hBuffer]
    exact digits_length_lt hBase hValue
  rw [uitoa_spec (by omega) hLow (lt_base_pow (by omega) hValue hFuel) (by omega) rfl hRoom,
    ok_bind_eq, puts_eq (nul_not_digit (by omega) hLow _), ok_bind_eq,
    uitoa_eq (by omega) hLow hValue]

theorem fmtnum_eq {base : Nat} (hBase : 8 ≤ base) (hLow : base ≤ 16) {fuel value : Nat}
    (hFuel : 64 ≤ fuel) (hValue : value < wordSize) {buffer : List Char}
    (hBuffer : buffer.length = 64) (issigned : Bool) :
    fmtnum fuel buffer value base issigned = .ok (LunarOS.fmtnum value base issigned) := by
  unfold fmtnum LunarOS.fmtnum
  dsimp only
  split
  · exact uitoa_puts hBase hLow hFuel (sub64_lt _ _) hBuffer _
  · exact uitoa_puts hBase hLow hFuel hValue hBuffer _

/-- The bases of the directives are 8, 10 and 16. -/
theorem fmtDirective_buffer {fuel : Nat} (hFuel : 64 ≤ fuel) {buffer : List Char}
    (hBuffer : buffer.length = 64) {signed unsigned : List Arg → Outcome (Nat × List Arg)}
    (hSigned : ∀ args r, signed args = .ok r → r.1 < wordSize)
    (hUnsigned : ∀ args r, unsigned args = .ok r → r.1 < wordSize) (fmt : List Char)
    (args : List Arg) :
    fmtDirective (fmtnum fuel buffer) signed unsigned fmt args =
      fmtDirective putnum signed unsigned fmt args := by
  have hRead (read : List Arg → Outcome (Nat × List Arg))
      (hFits : ∀ args r, read args = .ok r → r.1 < wordSize) (base : Nat) (issigned : Bool)
      (hBase : 8 ≤ base) (hLow : base ≤ 16) :
      (read args >>= fun r => fmtnum fuel buffer r.1 base issigned >>= fun out =>
        pure (out, r.2) : Printed) =
      (read args >>= fun r => putnum r.1 base issigned >>= fun out => pure (out, r.2)) := by
    cases h : read args with
    | error e => rfl
    | ok r =>
      rw [ok_bind_eq, ok_bind_eq, fmtnum_eq hBase hLow hFuel (hFits _ _ h) hBuffer]
      rfl
  unfold fmtDirective
  generalize fmt.headD '\x00' = directive
  split
  · exact hRead signed hSigned 10 true (by omega) (by omega)
  · exact hRead signed hSigned 10 true (by omega) (by omega)
  · exact hRead unsigned hUnsigned 8 false (by omega) (by omega)
  · exact hRead unsigned hUnsigned 16 false (by omega) (by omega)
  · exact hRead unsigned hUnsigned 10 false (by omega) (by omega)
  · rfl

theorem fmtnum64_list {fuel : Nat} (hFuel : 64 ≤ fuel) {buffer : List Char}
    (hBuffer : buffer.length = 64) (fmt : List Char) (args : List Arg) :
    fmtnum64 fuel buffer fmt args = LunarOS.fmtnum64 fmt args := by
  have hFits : ∀ args r, vaArg64 args = .ok r → r.1 < wordSize := by
    intro args r h
    cases args with
    | nil => cases h
    | cons a args =>
      cases a with
      | str p => cases h
      | num slot =>
        cases h
        exact Nat.mod_lt _ (by decide)
  exact fmtDirective_buffer hFuel hBuffer hFits hFits fmt args

theorem fmtnum32_list {fuel : Nat} (hFuel : 64 ≤ fuel) {buffer : List Char}
    (hBuffer : buffer.length = 64) (fmt : List Char) (args : List Arg) :
    fmtnum32 fuel buffer fmt args = LunarOS.fmtnum32 fmt args := by
  have hLow (n : Nat) : n % 2 ^ 32 < 2 ^ 32 := Nat.mod_lt _ (by omega)
  have hSigned : ∀ args r, vaArgI32 args = .ok r → r.1 < wordSize := by
    intro args r h
    obtain ⟨⟨slot, rest⟩, -, hr⟩ := bind_eq_ok.mp h
    cases hr
    have hSlot := hLow slot
    show sext32 slot < wordSize
    unfold sext32 wordSize
    split <;> omega
  have hUnsigned : ∀ args r, vaArgU32 args = .ok r → r.1 < wordSize := by
    intro args r h
    obtain ⟨⟨slot, rest⟩, -, hr⟩ := bind_eq_ok.mp h
    cases hr
    exact Nat.lt_trans (hLow slot) (by decide)
  exact fmtDirective_buffer hFuel hBuffer hSigned hUnsigned fmt args

/-! ## What the characters denote -/

/-- The characters are the sign, the prefix of the base and the digits of the number. -/
def Shows (conv : Conversion) (n : Int) (out : List Char) : Prop :=
  ∃ ds, Numeral conv.base n.natAbs ds ∧
    out = (if n < 0 then ['-'] else []) ++ conv.mark ++ ds

theorem base_le (conv : Conversion) : conv.base ≤ 16 := by cases conv <;> decide

namespace Shows

theorem minus_iff {conv : Conversion} {n : Int} {out : List Char} (h : Shows conv n out) :
    '-' ∈ out ↔ n < 0 := by
  obtain ⟨ds, hds, rfl⟩ := h
  have hDigits := hds.not_mem (base_le conv) (c := '-') (by decide)
  have hMark : '-' ∉ conv.mark := by cases conv <;> decide
  split
  · next hNeg => simp [hNeg]
  · next hNeg => simp [hNeg, hMark, hDigits]

/-- Two numbers are not shown alike. -/
theorem inj {conv : Conversion} {n m : Int} {out : List Char} (hn : Shows conv n out)
    (hm : Shows conv m out) : n = m := by
  have hSign : n < 0 ↔ m < 0 := hn.minus_iff.symm.trans hm.minus_iff
  obtain ⟨ds, hds, rfl⟩ := hn
  obtain ⟨es, hes, hOut⟩ := hm
  have hSame : ds = es := by
    simp only [hSign] at hOut
    exact List.append_cancel_left hOut
  subst hSame
  have hAbs : n.natAbs = m.natAbs := hds.reads.symm.trans hes.reads
  omega

end Shows

theorem shows_renderNumber (length : Length) (conv : Conversion) (slot : Nat) :
    Shows conv (slotValue length conv slot) (renderNumber length conv slot) := by
  have hBase : 1 < conv.base := by cases conv <;> decide
  exact ⟨_, numeral_toDigits hBase (base_le conv) _, rfl⟩

/-- `uitoa` in an array with room for the digits and the `NUL`, and the two functions that pass
it their 64 characters. -/
theorem number_printing :
    (∀ value < wordSize, ∀ base ≥ 2, base ≤ 16 → ∀ buf : List Char,
      Nat.log base value + 1 < buf.length → ∀ fuel ≥ 64, ∃ r ds,
        uitoa fuel value buf base = .ok (r, ds ++ '\x00' :: buf.drop (r + 1)) ∧
          ds.length = r ∧ '\x00' ∉ ds ∧ Numeral base value ds) ∧
    (∀ buffer : List Char, buffer.length = 64 → ∀ fuel ≥ 64, ∀ conv slot fmt args,
      (∃ out, fmtnum64 fuel buffer (conv.char :: fmt) (.num slot :: args) = .ok (out, args) ∧
        ∀ n, Shows conv n out ↔ n = slotValue .longLong conv slot) ∧
      (∃ out, fmtnum32 fuel buffer (conv.char :: fmt) (.num slot :: args) = .ok (out, args) ∧
        ∀ n, Shows conv n out ↔ n = slotValue .int conv slot)) := by
  have hExact (length : Length) (conv : Conversion) (slot : Nat) (n : Int) :
      Shows conv n (renderNumber length conv slot) ↔ n = slotValue length conv slot := by
    constructor
    · intro h
      exact h.inj (shows_renderNumber length conv slot)
    · rintro rfl
      exact shows_renderNumber length conv slot
  constructor
  · intro value hValue base hBase hLow buf hRoom fuel hFuel
    rw [← toDigits_length hBase] at hRoom
    exact ⟨_, Nat.toDigits base value,
      uitoa_spec hBase hLow (lt_base_pow hBase hValue hFuel) (by omega) rfl hRoom, rfl,
      nul_not_digit hBase hLow value, numeral_toDigits hBase hLow value⟩
  · intro buffer hBuffer fuel hFuel conv slot fmt args
    constructor
    · refine ⟨_, ?_, hExact .longLong conv slot⟩
      rw [fmtnum64_list hFuel hBuffer]
      exact fmtnum64_eq rfl conv fmt slot args
    · refine ⟨_, ?_, hExact .int conv slot⟩
      rw [fmtnum32_list hFuel hBuffer]
      exact fmtnum32_eq conv fmt slot args

/-- The largest value in base 2, and the least 64-bit number. -/
theorem number_printing_sample :
    (∃ r ds, uitoa 64 (wordSize - 1) (List.replicate 65 'z') 2 =
        .ok (r, ds ++ '\x00' :: (List.replicate 65 'z').drop (r + 1)) ∧
      ds.length = r ∧ '\x00' ∉ ds ∧ Numeral 2 (wordSize - 1) ds) ∧
    ∃ out, fmtnum64 64 (List.replicate 64 'z') ['d'] [.num (2 ^ 63)] = .ok (out, []) ∧
      ∀ n, Shows .d n out ↔ n = slotValue .longLong .d (2 ^ 63) := by
  have hRoom : Nat.log 2 (wordSize - 1) + 1 < (List.replicate 65 'z').length := by
    rw [List.length_replicate]
    have hLog : Nat.log 2 (wordSize - 1) < 64 :=
      Nat.log_lt_of_lt_pow' (by decide) (Nat.sub_lt (by decide) (by decide))
    omega
  exact ⟨number_printing.1 _ (Nat.sub_lt (by decide) (by decide)) 2 (by decide) (by decide) _
      hRoom 64 (by decide),
    (number_printing.2 _ List.length_replicate 64 (by decide) .d (2 ^ 63) [] []).1⟩

end LunarOS.Buffer
