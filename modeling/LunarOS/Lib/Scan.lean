import LunarOS.Lib.Format
import LunarOS.Logic.Loop

/-!
# What `vprintf` reads of its format

`vprintfTurn` is one turn of the loop of `vprintf`, over a memory in which the format stands with
its terminator and anything behind it. A `Scan` records every position that was read and every
character of the format that was put. The arguments never run out: `VaList` has a slot for every
read, and a string for every address. `scanned_iff` gives the formats that are read up to the
terminator and no further; on these the output is the one of `vprintf` on lists (`scan_unbroken`).
-/

namespace LunarOS

open Logic

/-- The slots of the arguments, and the strings in memory by their address. -/
structure VaList where
  slot : Nat → Nat
  string : Nat → List Char

/-- The loop of `vprintf` before a turn; positions are counted from the start of the format. -/
structure Scan where
  fmt : Nat := 0
  slots : Nat := 0
  out : List Char := []
  copied : List Char := []
  reads : List Nat := []

namespace Scan

/-- `*(fmt + k)` -/
def read (s : Scan) (k : Nat) : Scan := { s with reads := s.reads ++ [s.fmt + k] }

def step (s : Scan) (k : Nat) : Scan := { s with fmt := s.fmt + k }

/-- `putchar` of a character of the format -/
def copy (s : Scan) (c : Char) : Scan := { s with out := s.out ++ [c], copied := s.copied ++ [c] }

/-- A call of `fmtnum64` or `fmtnum32` with the directive `d`. -/
def number (fmtnum : List Char → List Arg → Printed) (va : VaList) (s : Scan) (d : Char) : Scan :=
  match fmtnum [d] [.num (va.slot s.slots)] with
  | .ok (cs, rest) => { s with out := s.out ++ cs, slots := s.slots + (1 - rest.length) }
  | .error _ => s

/-- `puts` of the argument of `%s` -/
def string (va : VaList) (s : Scan) : Scan :=
  let p := va.slot s.slots
  { s with
    out := s.out ++ if p = 0 then "(null)".toList else va.string p
    slots := s.slots + 1 }

end Scan

/-- One turn of the loop. -/
def vprintfTurn (text : Nat → Char) (va : VaList) (s : Scan) : Scan ⊕ Scan :=
  let c := text s.fmt
  let s := (s.read 0).step 1
  if c = '\x00' then .inr s
  else if c ≠ '%' then .inl (s.copy c)
  else
    let d := text s.fmt
    let s := s.read 0
    if d = 'l' then
      let s := s.read 1
      if text (s.fmt + 1) ≠ 'l' then
        let s := s.step 1
        .inl ((s.read 0).number fmtnum64 va (text s.fmt))
      else
        let s := s.step 2
        .inl (((s.read 0).number fmtnum64 va (text s.fmt)).step 1)
    else if d = 's' then .inl ((s.string va).step 1)
    else if d = 'd' ∨ d = 'i' ∨ d = 'o' ∨ d = 'x' ∨ d = 'u' then
      .inl (((s.read 0).number fmtnum32 va (text s.fmt)).step 1)
    else .inl (((s.read 0).copy (text s.fmt)).step 1)

/-- The format stands at position `i` and ends with a terminator. -/
def Spells (text : Nat → Char) : Nat → List Char → Prop
  | i, [] => text i = '\x00'
  | i, c :: rest => text i = c ∧ c ≠ '\x00' ∧ Spells text (i + 1) rest

/-- The call returns, has read nothing behind the terminator at position `n` and has put no
terminator. -/
def Scanned (text : Nat → Char) (va : VaList) (n : Nat) : Prop :=
  ∃ fuel s, Loop.run (vprintfTurn text va) fuel {} = some s ∧ (∀ r ∈ s.reads, r ≤ n) ∧
    '\x00' ∉ s.copied

/-- No directive is cut off behind `%` or `%ll`. -/
def Unbroken : List Char → Bool
  | [] => true
  | c :: rest =>
    if c ≠ '%' then Unbroken rest
    else
      match rest with
      | [] => false
      | 'l' :: rest =>
        if rest.headD '\x00' ≠ 'l' then Unbroken rest
        else
          match rest with
          | _ :: _ :: rest => Unbroken rest
          | _ => false
      | _ :: rest => Unbroken rest

example : Unbroken ['5', '%', '%'] = true := by decide
example : Unbroken ['5', '%'] = false := by decide

/-! ## One turn -/

section

variable {text : Nat → Char} {va : VaList} {s : Scan}

theorem Spells.head {i : Nat} {l : List Char} (h : Spells text i l) : text i = l.headD '\x00' := by
  cases l with
  | nil => exact h
  | cons c rest => exact h.1

/-- A directive reads one slot or none, and the rest of the arguments does not matter. -/
theorem fmtDirective_slot {signed unsigned : List Arg → Outcome (Nat × List Arg)} {a : Arg}
    {x y : Nat} (hSigned : ∀ args, signed (a :: args) = .ok (x, args))
    (hUnsigned : ∀ args, unsigned (a :: args) = .ok (y, args)) (d : Char) :
    (∃ cs, ∀ args, fmtDirective putnum signed unsigned [d] (a :: args) = .ok (cs, args)) ∨
      ∀ args, fmtDirective putnum signed unsigned [d] args = .ok ([], args) := by
  unfold fmtDirective
  simp only [List.headD_cons]
  split
  · exact Or.inl ⟨fmtnum x 10 true, fun args => by rw [hSigned]; rfl⟩
  · exact Or.inl ⟨fmtnum x 10 true, fun args => by rw [hSigned]; rfl⟩
  · exact Or.inl ⟨fmtnum y 8 false, fun args => by rw [hUnsigned]; rfl⟩
  · exact Or.inl ⟨fmtnum y 16 false, fun args => by rw [hUnsigned]; rfl⟩
  · exact Or.inl ⟨fmtnum y 10 false, fun args => by rw [hUnsigned]; rfl⟩
  · exact Or.inr fun _ => rfl

theorem vaArg64_num (slot : Nat) (args : List Arg) :
    vaArg64 (.num slot :: args) = .ok (slot % wordSize, args) := by
  unfold vaArg64
  rfl

theorem vaArgI32_num (slot : Nat) (args : List Arg) :
    vaArgI32 (.num slot :: args) = .ok (sext32 (slot % wordSize), args) := by
  unfold vaArgI32
  rw [vaArg64_num, ok_bind_eq]
  rfl

theorem vaArgU32_num (slot : Nat) (args : List Arg) :
    vaArgU32 (.num slot :: args) = .ok (slot % wordSize % 2 ^ 32, args) := by
  unfold vaArgU32
  rw [vaArg64_num, ok_bind_eq]
  rfl

/-- What `number` puts is what the directive puts on fitting arguments. -/
theorem number_puts (va : VaList) {fmtnum : List Char → List Arg → Printed}
    (hFmt : fmtnum = fmtnum64 ∨ fmtnum = fmtnum32) (s : Scan) (d : Char) :
    ∃ cs slots, s.number fmtnum va d = { s with out := s.out ++ cs, slots := slots } ∧
      ∀ args, ∃ args', fmtnum [d] args' = .ok (cs, args) := by
  have hSlot : (∃ cs, ∀ args, fmtnum [d] (.num (va.slot s.slots) :: args) = .ok (cs, args)) ∨
      ∀ args, fmtnum [d] args = .ok ([], args) := by
    rcases hFmt with rfl | rfl
    · exact fmtDirective_slot (vaArg64_num _) (vaArg64_num _) d
    · exact fmtDirective_slot (vaArgI32_num _) (vaArgU32_num _) d
  unfold Scan.number
  rcases hSlot with ⟨cs, hReads⟩ | hNothing
  · rw [hReads []]
    exact ⟨cs, _, rfl, fun args => ⟨_, hReads args⟩⟩
  · rw [hNothing]
    exact ⟨[], _, rfl, fun args => ⟨args, hNothing args⟩⟩

/-- The string that `%s` finds in memory, as an argument. -/
theorem string_puts (va : VaList) (s : Scan) : ∃ p : Option (List Char),
    s.string va = { s with out := s.out ++ p.getD "(null)".toList, slots := s.slots + 1 } := by
  unfold Scan.string
  dsimp only
  split
  · exact ⟨none, rfl⟩
  · exact ⟨some (va.string (va.slot s.slots)), rfl⟩

/-- A turn that stays inside the format: what is left of it, and what `vprintf` does on lists. -/
structure Inside (text : Nat → Char) (l : List Char) (s s' : Scan) (l' : List Char) : Prop where
  shorter : l'.length < l.length
  spells : Spells text s'.fmt l'
  place : s'.fmt + l'.length = s.fmt + l.length
  unbroken : Unbroken l = Unbroken l'
  reads : ∃ more, s'.reads = s.reads ++ more ∧ ∀ r ∈ more, r ≤ s.fmt + l.length
  copied : ∃ more, s'.copied = s.copied ++ more ∧ '\x00' ∉ more
  puts : ∃ cs, s'.out = s.out ++ cs ∧ ∀ args o, vprintf l' args = .ok (o, []) →
    ∃ args', vprintf l args' = .ok (cs ++ o, [])

/-- A turn that steps over the terminator. -/
structure Outside (l : List Char) (s s' : Scan) : Prop where
  unbroken : Unbroken l = false
  place : s'.fmt = s.fmt + l.length + 1
  reads : s.reads ⊆ s'.reads

/-! ### `vprintf` on lists, directive by directive -/

theorem andThen_returns {fmtnum : List Char → List Arg → Printed} {fmt l : List Char}
    {args args' : List Arg} {cs o : List Char} (hFirst : fmtnum fmt args' = .ok (cs, args))
    (hRest : vprintf l args = .ok (o, [])) :
    (andThen (fmtnum fmt args') fun args => vprintf l args) = .ok (cs ++ o, []) := by
  rw [hFirst, andThen_ok, hRest]
  rfl

theorem emit_returns {cs o : List Char} {l : List Char} {args : List Arg}
    (hRest : vprintf l args = .ok (o, [])) : emit cs (vprintf l args) = .ok (cs ++ o, []) := by
  rw [hRest]
  rfl

/-- `fmtnum64(++fmt, args)`, whatever the directive. -/
theorem vprintf_one_l {fmt : List Char} (hOne : fmt.headD '\x00' ≠ 'l') (args : List Arg) :
    vprintf ('%' :: 'l' :: fmt) args =
      andThen (fmtnum64 [fmt.headD '\x00'] args) fun args => vprintf fmt args := by
  rw [vprintf.eq_def]
  exact if_pos hOne

/-- `fmtnum64(fmt++, args)` after `fmt += 2`, whatever the directive. -/
theorem vprintf_two_l (d : Char) (fmt : List Char) (args : List Arg) :
    vprintf ('%' :: 'l' :: 'l' :: d :: fmt) args =
      andThen (fmtnum64 [d] args) fun args => vprintf fmt args := by
  rw [vprintf.eq_def]
  rfl

/-! ### `Unbroken`, directive by directive -/

theorem unbroken_lit {c : Char} (hc : c ≠ '%') (rest : List Char) :
    Unbroken (c :: rest) = Unbroken rest := by
  rw [Unbroken.eq_def]
  exact if_pos hc

theorem unbroken_one_l {rest : List Char} (hOne : rest.headD '\x00' ≠ 'l') :
    Unbroken ('%' :: 'l' :: rest) = Unbroken rest := by
  rw [Unbroken.eq_def]
  exact if_pos hOne

theorem unbroken_two_l (rest : List Char) : Unbroken ('%' :: 'l' :: 'l' :: rest) =
    match rest with
    | [] => false
    | _ :: rest => Unbroken rest := by
  rw [Unbroken.eq_def]
  cases rest <;> rfl

theorem unbroken_short {c : Char} (hl : c ≠ 'l') (rest : List Char) :
    Unbroken ('%' :: c :: rest) = Unbroken rest := by
  rw [Unbroken.eq_def]
  dsimp only
  rw [if_neg (by decide)]
  split
  · next h => cases h
  · next h => exact absurd (List.cons.inj h).1 hl
  · next h =>
    obtain ⟨rfl, rfl⟩ := List.cons.inj h
    rfl

/-! ### Cases of a turn -/

/-- What a turn at the start of `l` can do. -/
def Turns (text : Nat → Char) (va : VaList) (s : Scan) (l : List Char) : Prop :=
  ∃ s', vprintfTurn text va s = .inl s' ∧ ((∃ l', Inside text l s s' l') ∨ Outside l s s')

/-- The turn has consumed `pre`, read the characters `os` behind its start and copied some. -/
theorem Inside.of_consumed {s s' : Scan} {rest : List Char} (pre : List Char) (os : List Nat)
    (copied : List Char) (hSome : 0 < pre.length) (hRest : Spells text s'.fmt rest)
    (hPlace : s'.fmt = s.fmt + pre.length) (hUnbroken : Unbroken (pre ++ rest) = Unbroken rest)
    (hReads : s'.reads = s.reads ++ os.map (s.fmt + ·)) (hOs : ∀ o ∈ os, o ≤ pre.length)
    (hCopied : s'.copied = s.copied ++ copied) (hNul : '\x00' ∉ copied)
    (hPuts : ∃ cs, s'.out = s.out ++ cs ∧ ∀ args o, vprintf rest args = .ok (o, []) →
      ∃ args', vprintf (pre ++ rest) args' = .ok (cs ++ o, [])) :
    Inside text (pre ++ rest) s s' rest where
  shorter := by
    rw [List.length_append]
    omega
  spells := hRest
  place := by
    rw [hPlace, List.length_append]
    omega
  unbroken := hUnbroken
  reads := by
    refine ⟨_, hReads, ?_⟩
    intro r hr
    obtain ⟨o, ho, rfl⟩ := List.mem_map.mp hr
    have hBelow := hOs o ho
    rw [List.length_append]
    omega
  copied := ⟨copied, hCopied, hNul⟩
  puts := hPuts

theorem turns_lit {c : Char} {rest : List Char} (hc : c ≠ '%')
    (h : Spells text s.fmt (c :: rest)) : Turns text va s (c :: rest) := by
  obtain ⟨hText, hNul, hRest⟩ := h
  refine ⟨((s.read 0).step 1).copy c, ?_, Or.inl ⟨rest, .of_consumed [c] [0] [c] Nat.one_pos hRest
    rfl (unbroken_lit hc rest) rfl (by simp) rfl ?_ ⟨[c], rfl, ?_⟩⟩⟩
  · unfold vprintfTurn
    dsimp only
    rw [hText, if_neg hNul, if_pos hc]
  · simpa using Ne.symm hNul
  · intro args o hOk
    exact ⟨args, (vprintf_lit hc rest args).trans (emit_returns hOk)⟩

/-- The format ends with `%`: the terminator is put and stepped over. -/
theorem turns_percent (h : Spells text s.fmt ['%']) : Turns text va s ['%'] := by
  obtain ⟨hText, -, hEnd⟩ := h
  have hEnd : text (s.fmt + 1) = '\x00' := hEnd
  refine ⟨((((s.read 0).step 1).read 0).read 0 |>.copy '\x00').step 1, ?_,
    Or.inr ⟨by decide, ?_, ?_⟩⟩
  · unfold vprintfTurn
    simp only [Scan.read, Scan.step, hText, hEnd]
    rw [if_neg (by decide), if_neg (by decide), if_neg (by decide), if_neg (by decide),
      if_neg (by decide)]
  · rfl
  · intro r hr
    simp [Scan.step, Scan.copy, Scan.read, hr]

/-- `%l` -/
theorem turns_one_l {rest : List Char} (hOne : rest.headD '\x00' ≠ 'l')
    (h : Spells text s.fmt ('%' :: 'l' :: rest)) : Turns text va s ('%' :: 'l' :: rest) := by
  obtain ⟨hText, -, hNext, -, hRest⟩ := h
  have hRest : Spells text (s.fmt + 1 + 1) rest := hRest
  have hDirective := hRest.head
  have hTurn : vprintfTurn text va s = .inl (Scan.number fmtnum64 va
      ((((((s.read 0).step 1).read 0).read 1).step 1).read 0) (rest.headD '\x00')) := by
    unfold vprintfTurn
    dsimp only [Scan.read, Scan.step]
    rw [hText, if_neg (by decide), if_neg (by decide), hNext, if_pos rfl, hDirective, if_pos hOne]
  obtain ⟨cs, slots, hNumber, hPuts⟩ := number_puts va (Or.inl rfl)
    ((((((s.read 0).step 1).read 0).read 1).step 1).read 0) (rest.headD '\x00')
  rw [hNumber] at hTurn
  refine ⟨_, hTurn, Or.inl ⟨rest, .of_consumed ['%', 'l'] [0, 1, 2, 2] [] Nat.two_pos hRest rfl
    (unbroken_one_l hOne) ?_ (by simp) ?_ (by simp) ⟨cs, rfl, ?_⟩⟩⟩
  · simp [Scan.read, Scan.step, Nat.add_assoc]
  · simp [Scan.read, Scan.step]
  · intro args o hOk
    obtain ⟨args', hFirst⟩ := hPuts args
    exact ⟨args', (vprintf_one_l hOne args').trans (andThen_returns hFirst hOk)⟩

/-- `%ll`; at the end of the format the terminator is stepped over. -/
theorem turns_two_l {rest : List Char} (h : Spells text s.fmt ('%' :: 'l' :: 'l' :: rest)) :
    Turns text va s ('%' :: 'l' :: 'l' :: rest) := by
  obtain ⟨hText, -, hNext, -, hLast, -, hRest⟩ := h
  have hRest : Spells text (s.fmt + 1 + 2) rest := hRest
  have hDirective := hRest.head
  have hTurn : vprintfTurn text va s = .inl ((Scan.number fmtnum64 va
      ((((((s.read 0).step 1).read 0).read 1).step 2).read 0) (rest.headD '\x00')).step 1) := by
    unfold vprintfTurn
    dsimp only [Scan.read, Scan.step]
    rw [hText, if_neg (by decide), if_neg (by decide), hNext, if_pos rfl, hLast,
      if_neg (by decide), hDirective]
  obtain ⟨cs, slots, hNumber, hPuts⟩ := number_puts va (Or.inl rfl)
    ((((((s.read 0).step 1).read 0).read 1).step 2).read 0) (rest.headD '\x00')
  rw [hNumber] at hTurn
  refine ⟨_, hTurn, ?_⟩
  cases rest with
  | nil =>
    refine Or.inr ⟨by decide, rfl, ?_⟩
    intro r hr
    simp [Scan.read, Scan.step, hr]
  | cons d rest =>
    refine Or.inl ⟨rest, .of_consumed ['%', 'l', 'l', d] [0, 1, 2, 3] [] (by simp) hRest.2.2 rfl
      (unbroken_two_l (d :: rest)) ?_ (by simp) ?_ (by simp) ⟨cs, rfl, ?_⟩⟩
    · simp [Scan.read, Scan.step, Nat.add_assoc]
    · simp [Scan.read, Scan.step]
    · intro args o hOk
      obtain ⟨args', hFirst⟩ := hPuts args
      exact ⟨args', (vprintf_two_l d rest args').trans (andThen_returns hFirst hOk)⟩

theorem turns_str {rest : List Char} (h : Spells text s.fmt ('%' :: 's' :: rest)) :
    Turns text va s ('%' :: 's' :: rest) := by
  obtain ⟨hText, -, hNext, -, hRest⟩ := h
  have hTurn : vprintfTurn text va s =
      .inl ((Scan.string va (((s.read 0).step 1).read 0)).step 1) := by
    unfold vprintfTurn
    dsimp only [Scan.read, Scan.step]
    rw [hText, if_neg (by decide), if_neg (by decide), hNext, if_neg (by decide), if_pos rfl]
  obtain ⟨p, hString⟩ := string_puts va (((s.read 0).step 1).read 0)
  rw [hString] at hTurn
  refine ⟨_, hTurn, Or.inl ⟨rest, .of_consumed ['%', 's'] [0, 1] [] Nat.two_pos hRest rfl
    (unbroken_short (by decide) rest) ?_ (by simp) ?_ (by simp)
    ⟨p.getD "(null)".toList, rfl, ?_⟩⟩⟩
  · simp [Scan.read, Scan.step]
  · simp [Scan.read, Scan.step]
  · intro args o hOk
    exact ⟨.str p :: args, (vprintf_str p rest args).trans (emit_returns hOk)⟩

/-- Every other directive. -/
theorem turns_short {c : Char} {rest : List Char} (hl : c ≠ 'l') (hs : c ≠ 's')
    (h : Spells text s.fmt ('%' :: c :: rest)) : Turns text va s ('%' :: c :: rest) := by
  obtain ⟨hText, -, hNext, hNul, hRest⟩ := h
  have hTurn : vprintfTurn text va s =
      if c = 'd' ∨ c = 'i' ∨ c = 'o' ∨ c = 'x' ∨ c = 'u' then
        .inl ((((((s.read 0).step 1).read 0).read 0).number fmtnum32 va c).step 1)
      else .inl ((((((s.read 0).step 1).read 0).read 0).copy c).step 1) := by
    unfold vprintfTurn
    dsimp only [Scan.read, Scan.step]
    rw [hText, if_neg (by decide), if_neg (by decide), hNext, if_neg hl, if_neg hs]
  by_cases hInt : c = 'd' ∨ c = 'i' ∨ c = 'o' ∨ c = 'x' ∨ c = 'u'
  · obtain ⟨cs, slots, hNumber, hPuts⟩ := number_puts va (Or.inr rfl)
      ((((s.read 0).step 1).read 0).read 0) c
    rw [if_pos hInt, hNumber] at hTurn
    refine ⟨_, hTurn, Or.inl ⟨rest, .of_consumed ['%', c] [0, 1, 1] [] Nat.two_pos hRest rfl
      (unbroken_short hl rest) ?_ (by simp) ?_ (by simp) ⟨cs, rfl, ?_⟩⟩⟩
    · simp [Scan.read, Scan.step]
    · simp [Scan.read, Scan.step]
    · intro args o hOk
      obtain ⟨args', hFirst⟩ := hPuts args
      have hShort := (vprintf_short hl hs rest args').trans (if_pos hInt)
      exact ⟨args', hShort.trans (andThen_returns hFirst hOk)⟩
  · rw [if_neg hInt] at hTurn
    refine ⟨_, hTurn, Or.inl ⟨rest, .of_consumed ['%', c] [0, 1, 1] [c] Nat.two_pos hRest rfl
      (unbroken_short hl rest) ?_ (by simp) ?_ ?_ ⟨[c], rfl, ?_⟩⟩⟩
    · simp [Scan.read, Scan.step, Scan.copy]
    · simp [Scan.read, Scan.step, Scan.copy]
    · simpa using Ne.symm hNul
    · intro args o hOk
      have hShort := (vprintf_short hl hs rest args).trans (if_neg hInt)
      exact ⟨args, hShort.trans (emit_returns hOk)⟩

theorem turns (va : VaList) {c : Char} {rest : List Char} (h : Spells text s.fmt (c :: rest)) :
    Turns text va s (c :: rest) := by
  by_cases hc : c = '%'
  · subst hc
    cases rest with
    | nil => exact turns_percent h
    | cons d rest =>
      by_cases hl : d = 'l'
      · subst hl
        by_cases hOne : rest.headD '\x00' = 'l'
        · cases rest with
          | nil => exact absurd hOne (by decide)
          | cons e rest =>
            obtain rfl : e = 'l' := hOne
            exact turns_two_l h
        · exact turns_one_l hOne h
      · by_cases hs : d = 's'
        · subst hs
          exact turns_str h
        · exact turns_short hl hs h
  · exact turns_lit hc h

/-! ## Whole formats -/

theorem turn_end (hEnd : text s.fmt = '\x00') :
    vprintfTurn text va s = .inr ((s.read 0).step 1) := by
  unfold vprintfTurn
  dsimp only
  rw [if_pos hEnd]

theorem number_reads (fmtnum : List Char → List Arg → Printed) (va : VaList) (s : Scan) (d : Char) :
    (s.number fmtnum va d).reads = s.reads := by
  unfold Scan.number
  split <;> rfl

/-- Every turn reads the character at its position, and the record is never cut. -/
theorem turn_reads {s' : Scan} (hTurn : vprintfTurn text va s = .inl s' ∨
    vprintfTurn text va s = .inr s') : s.fmt ∈ s'.reads ∧ s.reads ⊆ s'.reads := by
  have hGrows : ∃ more, s'.reads = s.reads ++ s.fmt :: more := by
    unfold vprintfTurn at hTurn
    dsimp only at hTurn
    rcases hTurn with hTurn | hTurn <;> split at hTurn
    · cases hTurn
    · split at hTurn
      · cases hTurn
        exact ⟨[], rfl⟩
      · split at hTurn
        · split at hTurn <;> cases hTurn <;>
            exact ⟨_, by simp only [Scan.step, number_reads, Scan.read, List.append_assoc]; rfl⟩
        · split at hTurn
          · cases hTurn
            exact ⟨_, by simp only [Scan.step, Scan.string, Scan.read, List.append_assoc]; rfl⟩
          · split at hTurn <;> cases hTurn <;>
              exact ⟨_, by
                simp only [Scan.step, number_reads, Scan.copy, Scan.read, List.append_assoc]; rfl⟩
    · cases hTurn
      exact ⟨[], rfl⟩
    · split at hTurn
      · cases hTurn
      · split at hTurn
        · split at hTurn <;> cases hTurn
        · split at hTurn
          · cases hTurn
          · split at hTurn <;> cases hTurn
  obtain ⟨more, hMore⟩ := hGrows
  rw [hMore]
  exact ⟨by simp, by simp⟩

/-- Whatever was read is in the record when the call returns. -/
theorem run_reads {fuel : Nat} {s' : Scan}
    (hRun : Loop.run (vprintfTurn text va) fuel s = some s') :
    s.fmt ∈ s'.reads ∧ s.reads ⊆ s'.reads := by
  induction fuel generalizing s with
  | zero =>
    cases hTurn : vprintfTurn text va s with
    | inl s1 => simp [Loop.run, hTurn] at hRun
    | inr s1 =>
      obtain rfl : s1 = s' := by simpa [Loop.run, hTurn] using hRun
      exact turn_reads (Or.inr hTurn)
  | succ fuel ih =>
    cases hTurn : vprintfTurn text va s with
    | inl s1 =>
      rw [Loop.run_succ_of_inl hTurn] at hRun
      obtain ⟨-, hKept⟩ := ih hRun
      obtain ⟨hRead, hFirst⟩ := turn_reads (Or.inl hTurn)
      exact ⟨hKept hRead, fun r hr => hKept (hFirst hr)⟩
    | inr s1 =>
      obtain rfl : s1 = s' := by simpa [Loop.run, hTurn] using hRun
      exact turn_reads (Or.inr hTurn)

/-- An unbroken format is read up to its terminator, and the output is that of `vprintf`. -/
theorem scan_unbroken (va : VaList) {l : List Char} (h : Spells text s.fmt l)
    (hWhole : Unbroken l = true) :
    ∃ fuel s', Loop.run (vprintfTurn text va) fuel s = some s' ∧
      (∃ more, s'.reads = s.reads ++ more ∧ ∀ r ∈ more, r ≤ s.fmt + l.length) ∧
      (∃ more, s'.copied = s.copied ++ more ∧ '\x00' ∉ more) ∧
      ∃ args o, vprintf l args = .ok (o, []) ∧ s'.out = s.out ++ o := by
  induction hLength : l.length using Nat.strong_induction_on generalizing l s with
  | _ n ih =>
    subst hLength
    cases l with
    | nil =>
      refine ⟨0, _, Loop.run_of_inr (turn_end h) 0, ⟨[s.fmt], rfl, ?_⟩, ⟨[], ?_, by simp⟩,
        ⟨[], [], rfl, ?_⟩⟩
      · intro r hr
        rw [List.mem_singleton.mp hr]
        omega
      · simp [Scan.step, Scan.read]
      · simp [Scan.step, Scan.read]
    | cons c rest =>
      obtain ⟨s1, hTurn, ⟨l', hIn⟩ | hOut⟩ := turns va h
      · obtain ⟨fuel, s', hRun, ⟨reads, hReads, hLe⟩, ⟨copied, hCopied, hNul⟩, args, o, hOk, hPut⟩ :=
          ih l'.length hIn.shorter hIn.spells (hIn.unbroken ▸ hWhole) rfl
        obtain ⟨reads', hReads', hLe'⟩ := hIn.reads
        obtain ⟨copied', hCopied', hNul'⟩ := hIn.copied
        obtain ⟨cs, hPut', hFirst⟩ := hIn.puts
        obtain ⟨args', hOk'⟩ := hFirst args o hOk
        refine ⟨fuel + 1, s', ?_, ⟨reads' ++ reads, ?_, ?_⟩, ⟨copied' ++ copied, ?_, ?_⟩,
          ⟨args', cs ++ o, hOk', ?_⟩⟩
        · rw [Loop.run_succ_of_inl hTurn, hRun]
        · rw [hReads, hReads', List.append_assoc]
        · intro r hr
          rcases List.mem_append.mp hr with hOld | hNew
          · exact hLe' r hOld
          · exact (hLe r hNew).trans (Nat.le_of_eq hIn.place)
        · rw [hCopied, hCopied', List.append_assoc]
        · simp [hNul, hNul']
        · rw [hPut, hPut', List.append_assoc]
      · rw [hOut.unbroken] at hWhole
        cases hWhole

/-- Any other format is read past its terminator, whatever stands there. -/
theorem scan_broken {l : List Char} (h : Spells text s.fmt l) (hBroken : Unbroken l = false)
    {fuel : Nat} {s' : Scan} (hRun : Loop.run (vprintfTurn text va) fuel s = some s') :
    s.fmt + l.length + 1 ∈ s'.reads := by
  induction hLength : l.length using Nat.strong_induction_on generalizing l s fuel with
  | _ n ih =>
    subst hLength
    cases l with
    | nil => cases hBroken
    | cons c rest =>
      obtain ⟨s1, hTurn, hCases⟩ := turns va h
      have hRest : ∃ less, Loop.run (vprintfTurn text va) less s1 = some s' := by
        cases fuel with
        | zero => simp [Loop.run, hTurn] at hRun
        | succ fuel => exact ⟨fuel, by rwa [Loop.run_succ_of_inl hTurn] at hRun⟩
      obtain ⟨less, hRest⟩ := hRest
      rcases hCases with ⟨l', hIn⟩ | hOut
      · rw [← hIn.place]
        exact ih l'.length hIn.shorter hIn.spells (hIn.unbroken ▸ hBroken) hRest rfl
      · rw [← hOut.place]
        exact (run_reads hRest).1

end

/-- `vprintf` stays inside its format exactly when no directive is cut off behind `%` or `%ll`. -/
theorem scanned_iff {text : Nat → Char} {l : List Char} (h : Spells text 0 l) (va : VaList) :
    Scanned text va l.length ↔ Unbroken l = true := by
  constructor
  · rintro ⟨fuel, s, hRun, hReads, -⟩
    by_contra hBroken
    have hPast := hReads _ (scan_broken (s := {}) h (by simpa using hBroken) hRun)
    simp at hPast
  · intro hWhole
    obtain ⟨fuel, s, hRun, ⟨reads, hReads, hLe⟩, ⟨copied, hCopied, hNul⟩, -⟩ :=
      scan_unbroken (s := {}) va h hWhole
    refine ⟨fuel, s, hRun, ?_, ?_⟩
    · intro r hr
      have hMore : r ∈ reads := by simpa [hReads] using hr
      simpa using hLe r hMore
    · simpa [hCopied] using hNul

theorem scanned_sample :
    Scanned (fun i => ['%', 'd', '%', '%', '\x00'].getD i 'x') ⟨fun _ => 7, fun _ => []⟩ 4 := by
  have hText : Spells (fun i => ['%', 'd', '%', '%', '\x00'].getD i 'x') 0 ['%', 'd', '%', '%'] :=
    ⟨rfl, by decide, rfl, by decide, rfl, by decide, rfl, by decide, rfl⟩
  exact (scanned_iff hText _).mpr (by decide)

/-- The format `%` has its terminator at position 1: the scan puts it and reads position 2. -/
theorem percent_reads_on : Spells (fun i => if i = 0 then '%' else '\x00') 0 ['%'] ∧
    (∃ s, Loop.run (vprintfTurn (fun i => if i = 0 then '%' else '\x00')
        ⟨fun _ => 0, fun _ => []⟩) 4 {} = some s ∧ s.reads = [0, 1, 1, 2] ∧
        s.copied = ['\x00']) ∧
    ¬ Scanned (fun i => if i = 0 then '%' else '\x00') ⟨fun _ => 0, fun _ => []⟩ 1 := by
  have hText : Spells (fun i => if i = 0 then '%' else '\x00') 0 ['%'] := by
    refine ⟨rfl, by decide, rfl⟩
  refine ⟨hText, ⟨_, rfl, rfl, rfl⟩, fun hScanned => ?_⟩
  have hWhole := (scanned_iff hText _).mp hScanned
  cases hWhole

end LunarOS
