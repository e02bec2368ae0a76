import LunarOS.Logic.Run
import LunarOS.Logic.Terminal
import LunarOS.Machine.Stop

/-!
# The text console (`tty.c`, `puts.c`)

`putchar` composes a cell from a `char`, which is signed, so a byte from `0x80` on carries its
sign into the attribute. `console_iff` compares the console with a reference terminal call by
call: they agree at every moment exactly when no such byte is left on the screen.
-/

namespace LunarOS

open Logic

def TTY_MAX_WIDTH : Nat := 80

def TTY_MAX_HEIGHT : Nat := 24

/-- White foreground, black background. -/
def DEFAULT_COLOR : BitVec 8 := 0x0F

/-- The video memory in cells, and the two `int32_t` cursor variables. -/
structure Tty where
  video : Nat → BitVec 16
  columns : Int := 0
  lines : Int := 0

namespace Tty

/-- `c | (DEFAULT_COLOR << 8)`: the operands are promoted to `int`, the store keeps 16 bits. -/
def compose (c : BitVec 8) : BitVec 16 :=
  (c.signExtend 32 ||| DEFAULT_COLOR.setWidth 32 <<< 8).setWidth 16

/-- `video[idx] = v` -/
def store (tty : Tty) (idx : Nat) (v : BitVec 16) : Outcome Tty :=
  if idx < TTY_MAX_HEIGHT * TTY_MAX_WIDTH then
    .ok { tty with video := Function.update tty.video idx v }
  else .error (.fault (.cell idx))

def cls (tty : Tty) : Outcome Tty :=
  (List.range (TTY_MAX_HEIGHT * TTY_MAX_WIDTH)).foldlM
    (fun tty i => tty.store i (compose 0x20)) tty

def newline (tty : Tty) : Outcome Tty :=
  let tty := { tty with columns := 0, lines := tty.lines + 1 }
  if (TTY_MAX_HEIGHT : Int) ≤ tty.lines then cls { tty with lines := 0 } else pure tty

def putchar (tty : Tty) (c : BitVec 8) : Outcome Tty :=
  if c = 0x0A ∨ c = 0x0D then tty.newline
  else do
    -- an `int`, converted to `size_t`
    let idx := ((tty.lines * TTY_MAX_WIDTH + tty.columns) % 2 ^ 64).toNat
    let tty ← tty.store idx (compose c)
    let tty := { tty with columns := tty.columns + 1 }
    if (TTY_MAX_WIDTH : Int) ≤ tty.columns then tty.newline else pure tty

/-- `puts`, on the bytes of an array whose last byte, a `NUL`, is left out. -/
def puts (tty : Tty) : List (BitVec 8) → Outcome Tty
  | [] => pure tty
  | c :: s => if c = 0 then pure tty else do puts (← tty.putchar c) s

end Tty

/-! ## The reference terminal -/

/-- A cell holds the byte that was put there. -/
abbrev Screen := Terminal TTY_MAX_HEIGHT TTY_MAX_WIDTH (BitVec 8)

/-- A byte as it is shown, in the default colour. -/
def shown (c : BitVec 8) : BitVec 16 := DEFAULT_COLOR ++ c

namespace Screen

/-- A blank screen with the cursor at home. -/
def home : Screen where
  cell := fun _ _ => 0x20
  row := ⟨0, by decide⟩
  column := ⟨0, by decide⟩

def write (t : Screen) (c : BitVec 8) : Screen :=
  if c = 0x0A ∨ c = 0x0D then t.newline 0x20 else t.put 0x20 c

end Screen

/-! ## Calls -/

/-- The calls that change the screen. -/
inductive TtyCall
  | putchar (c : BitVec 8)
  | cls
  deriving DecidableEq, Repr

def TtyCall.run (tty : Tty) : TtyCall → Outcome Tty
  | .putchar c => tty.putchar c
  | .cls => tty.cls

def TtyCall.act (t : Screen) : TtyCall → Screen
  | .putchar c => t.write c
  | .cls => t.clear 0x20

theorem run_newline {c : BitVec 8} (h : c = 0x0A ∨ c = 0x0D) (tty : Tty) :
    (TtyCall.putchar c).run tty = tty.newline := if_pos h

theorem act_newline {c : BitVec 8} (h : c = 0x0A ∨ c = 0x0D) (t : Screen) :
    (TtyCall.putchar c).act t = t.newline 0x20 := if_pos h

theorem act_put {c : BitVec 8} (h : ¬ (c = 0x0A ∨ c = 0x0D)) (t : Screen) :
    (TtyCall.putchar c).act t = t.put 0x20 c := if_neg h

/-- The operations on the console. -/
inductive TtyOp
  | putchar (c : BitVec 8)
  | puts (s : List (BitVec 8))
  | cls
  deriving DecidableEq, Repr

def TtyOp.run (tty : Tty) : TtyOp → Outcome Tty
  | .putchar c => tty.putchar c
  | .puts s => tty.puts s
  | .cls => tty.cls

/-- The calls an operation makes, one after the other. -/
def TtyOp.calls : TtyOp → List TtyCall
  | .putchar c => [.putchar c]
  | .puts s => (s.takeWhile (· ≠ 0)).map .putchar
  | .cls => [.cls]

theorem puts_calls (tty : Tty) (s : List (BitVec 8)) :
    tty.puts s = (TtyOp.puts s).calls.foldlM TtyCall.run tty := by
  induction s generalizing tty with
  | nil => rfl
  | cons c s ih =>
    unfold Tty.puts
    by_cases hNul : c = 0
    · simp [TtyOp.calls, hNul]
    · rw [if_neg hNul]
      have hCalls : (TtyOp.puts (c :: s)).calls = .putchar c :: (TtyOp.puts s).calls := by
        simp only [TtyOp.calls]
        rw [List.takeWhile_cons_of_pos (by simpa using hNul), List.map_cons]
      rw [hCalls, List.foldlM_cons]
      congr 1
      funext tty'
      exact ih tty'

theorem run_calls (tty : Tty) (op : TtyOp) : op.run tty = op.calls.foldlM TtyCall.run tty := by
  cases op with
  | putchar c => simp [TtyOp.run, TtyOp.calls, TtyCall.run]
  | puts s => exact puts_calls tty s
  | cls => simp [TtyOp.run, TtyOp.calls, TtyCall.run]

/-- A run of operations is the run of their calls. -/
theorem ops_calls (tty : Tty) (ops : List TtyOp) :
    ops.foldlM TtyOp.run tty = (ops.flatMap TtyOp.calls).foldlM TtyCall.run tty := by
  induction ops generalizing tty with
  | nil => rfl
  | cons op ops ih =>
    rw [List.foldlM_cons, List.flatMap_cons, List.foldlM_append, run_calls]
    congr 1
    funext tty'
    exact ih tty'

/-! ## What each call does -/

/-- The attribute is the default one for a byte without the sign bit, and only for those. -/
theorem compose_eq_shown (c : BitVec 8) : Tty.compose c = shown c ↔ c.toNat < 0x80 := by
  revert c
  decide +kernel

theorem store_eq {tty : Tty} {idx : Nat} (h : idx < TTY_MAX_HEIGHT * TTY_MAX_WIDTH)
    (v : BitVec 16) :
    tty.store idx v = .ok { tty with video := Function.update tty.video idx v } := if_pos h

/-- The loop of `cls` after its first `n` rounds. -/
theorem clsLoop_eq (tty : Tty) {n : Nat} (hn : n ≤ TTY_MAX_HEIGHT * TTY_MAX_WIDTH) :
    (List.range n).foldlM (fun tty i => tty.store i (Tty.compose 0x20)) tty =
      .ok { tty with video := fun i => if i < n then shown 0x20 else tty.video i } := by
  induction n with
  | zero => simp [pure, Except.pure]
  | succ n ih =>
    rw [List.range_succ, List.foldlM_append, ih (by omega), ok_bind_eq]
    simp only [List.foldlM_cons, List.foldlM_nil]
    rw [store_eq (by omega), ok_bind_eq, (compose_eq_shown 0x20).mpr (by decide)]
    simp only [pure, Except.pure]
    congr 2
    funext i
    rcases Nat.lt_trichotomy i n with hLt | rfl | hGt
    · simp [Function.update_of_ne (Nat.ne_of_lt hLt), hLt, Nat.lt_succ_of_lt hLt]
    · simp
    · rw [Function.update_of_ne (Nat.ne_of_gt hGt), if_neg (by omega), if_neg (by omega)]

theorem cls_eq (tty : Tty) : tty.cls = .ok { tty with
    video := fun i => if i < TTY_MAX_HEIGHT * TTY_MAX_WIDTH then shown 0x20 else tty.video i } :=
  clsLoop_eq tty (Nat.le_refl _)

/-- The cursor variables are those of the terminal. -/
structure CursorAt (tty : Tty) (t : Screen) : Prop where
  columns : tty.columns = (t.column : Nat)
  lines : tty.lines = (t.row : Nat)

abbrev Tty.Holds (tty : Tty) (t : Screen) : Prop := t.Rendered shown tty.video

theorem home_cursor (video : Nat → BitVec 16) : CursorAt { video := video } Screen.home := ⟨rfl, rfl⟩

theorem cls_holds {tty : Tty} {t : Screen} (h : CursorAt tty t) :
    ∃ tty', tty.cls = .ok tty' ∧ CursorAt tty' (t.clear 0x20) ∧ tty'.Holds (t.clear 0x20) := by
  refine ⟨_, cls_eq tty, ⟨h.columns, h.lines⟩, ?_⟩
  exact Terminal.Rendered.blank (fun i hi => if_pos hi) fun _ _ => rfl

/-- `newline` only moves the cursor, except off the last line, where the screen is blanked. -/
theorem newline_placed {tty : Tty} {t : Screen} (h : tty.lines = (t.row : Nat)) :
    ∃ tty', tty.newline = .ok tty' ∧ CursorAt tty' (t.newline 0x20) ∧
      (t.row + 1 < TTY_MAX_HEIGHT → tty'.video = tty.video) ∧
      (¬ t.row + 1 < TTY_MAX_HEIGHT → tty'.Holds (t.newline 0x20)) := by
  unfold Tty.newline
  dsimp only
  rw [h]
  by_cases hRow : t.row + 1 < TTY_MAX_HEIGHT
  · rw [if_neg (by omega), Terminal.newline_below hRow]
    exact ⟨_, rfl, ⟨rfl, by push_cast; rfl⟩, fun _ => rfl, fun hElse => absurd hRow hElse⟩
  · rw [if_pos (by omega), cls_eq, Terminal.newline_off hRow]
    refine ⟨_, rfl, ⟨rfl, rfl⟩, fun hElse => absurd hElse hRow, fun _ => ?_⟩
    exact Terminal.Rendered.blank (fun i hi => if_pos hi) fun _ _ => rfl

/-- A byte that is not a line break is stored at the cursor. The screen is left as the store
makes it, or blanked when the cursor was on the last cell. -/
theorem putchar_placed {tty : Tty} {t : Screen} (h : CursorAt tty t) {c : BitVec 8}
    (hBreak : ¬ (c = 0x0A ∨ c = 0x0D)) :
    ∃ tty', tty.putchar c = .ok tty' ∧ CursorAt tty' (t.put 0x20 c) ∧
      (¬ t.Last → tty'.video =
        Function.update tty.video (Terminal.place t.row t.column) (Tty.compose c)) ∧
      (t.Last → tty'.Holds (t.put 0x20 c)) := by
  have hPlace := Terminal.place_lt t.row t.column
  have hIdx : ((tty.lines * TTY_MAX_WIDTH + tty.columns) % 2 ^ 64).toNat =
      Terminal.place t.row t.column := by
    rw [h.lines, h.columns]
    unfold Terminal.place at hPlace ⊢
    unfold TTY_MAX_HEIGHT at hPlace
    unfold TTY_MAX_WIDTH at hPlace ⊢
    omega
  unfold Tty.putchar Terminal.put
  rw [if_neg hBreak]
  dsimp only
  rw [hIdx, store_eq hPlace, ok_bind_eq]
  dsimp only
  rw [h.columns]
  have hColumnLt := t.column.isLt
  by_cases hColumn : t.column + 1 < TTY_MAX_WIDTH
  · rw [if_neg (by omega), Terminal.advance_right (t := t.set c) hColumn]
    refine ⟨_, rfl, ⟨by push_cast; rfl, h.lines⟩, fun _ => rfl, fun hLast => ?_⟩
    exact absurd hLast.2 (by omega)
  · rw [if_pos (by omega), Terminal.advance_wrap (t := t.set c) hColumn]
    obtain ⟨tty', hRun, hPlaced, hBelow, hOff⟩ := newline_placed (t := t.set c)
      (show ({ tty with
        video := Function.update tty.video (Terminal.place t.row t.column) (Tty.compose c)
        columns := (t.column : Nat) + 1 } : Tty).lines = (t.row : Nat) from h.lines)
    refine ⟨tty', hRun, hPlaced, fun hInside => hBelow ?_, fun hLast => hOff ?_⟩
    · have hRowLt := t.row.isLt
      change (t.row : Nat) + 1 < TTY_MAX_HEIGHT
      by_contra hRow
      exact hInside ⟨by omega, by omega⟩
    · change ¬ (t.row : Nat) + 1 < TTY_MAX_HEIGHT
      have := hLast.1
      omega

/-- Whatever the bytes are, a call completes and moves the cursor as the terminal does. -/
theorem call_placed {tty : Tty} {t : Screen} (h : CursorAt tty t) (call : TtyCall) :
    ∃ tty', call.run tty = .ok tty' ∧ CursorAt tty' (call.act t) := by
  cases call with
  | putchar c =>
    by_cases hBreak : c = 0x0A ∨ c = 0x0D
    · obtain ⟨tty', hRun, hPlaced, -⟩ := newline_placed h.lines
      rw [run_newline hBreak, act_newline hBreak]
      exact ⟨tty', hRun, hPlaced⟩
    · obtain ⟨tty', hRun, hPlaced, -⟩ := putchar_placed h hBreak
      rw [act_put hBreak]
      exact ⟨tty', hRun, hPlaced⟩
  | cls =>
    obtain ⟨tty', hRun, hPlaced, -⟩ := cls_holds h
    exact ⟨tty', hRun, hPlaced⟩

/-! ## Refinement -/

/-- The console beside the reference terminal; a call moves both. -/
structure TtyPair where
  tty : Tty
  screen : Screen

def TtyStep (s : TtyPair) (call : TtyCall) (s' : TtyPair) : Prop :=
  call.run s.tty = .ok s'.tty ∧ s'.screen = call.act s.screen

/-- The console shows what the terminal does, inside the video memory and in its colour. -/
structure Refines (s : TtyPair) : Prop where
  columns : 0 ≤ s.tty.columns ∧ s.tty.columns < TTY_MAX_WIDTH
  lines : 0 ≤ s.tty.lines ∧ s.tty.lines < TTY_MAX_HEIGHT
  cursor : CursorAt s.tty s.screen
  stores : ∀ call index, TtyCall.run s.tty call ≠ .error (.fault (.cell index))
  screen : s.tty.Holds s.screen
  colour : ∀ i < TTY_MAX_HEIGHT * TTY_MAX_WIDTH,
    (s.tty.video i).extractLsb' 8 8 = DEFAULT_COLOR

/-- The attribute of `c` is right, or `c` is blanked as soon as it is stored. -/
def Showable (s : TtyPair) : TtyCall → Prop
  | .putchar c => c.toNat < 0x80 ∨ s.screen.Last
  | .cls => True

theorem refines_of_holds {s : TtyPair} (hPlaced : CursorAt s.tty s.screen)
    (hHolds : s.tty.Holds s.screen) : Refines s where
  columns := by
    rw [hPlaced.columns]
    have := s.screen.column.isLt
    omega
  lines := by
    rw [hPlaced.lines]
    have := s.screen.row.isLt
    omega
  cursor := hPlaced
  stores := by
    intro call index hFault
    obtain ⟨tty', hRun, -⟩ := call_placed hPlaced call
    rw [hRun] at hFault
    cases hFault
  screen := hHolds
  colour := by
    intro i hi
    obtain ⟨r, c, rfl⟩ := Terminal.exists_place hi
    rw [hHolds r c]
    exact BitVec.extractLsb'_append_eq_left

/-- Under `Showable` a call keeps the two screens equal. -/
theorem step_refines {s s' : TtyPair} {call : TtyCall} (h : Refines s) (hCond : Showable s call)
    (hStep : TtyStep s call s') : Refines s' := by
  obtain ⟨hRun, hScreen⟩ := hStep
  obtain ⟨tty', hRun', hPlaced⟩ := call_placed h.cursor call
  obtain rfl := Except.ok.inj (hRun.symm.trans hRun')
  apply refines_of_holds (hScreen.symm ▸ hPlaced)
  rw [hScreen]
  cases call with
  | putchar c =>
    by_cases hBreak : c = 0x0A ∨ c = 0x0D
    · obtain ⟨tty', hNewline, -, hBelow, hOff⟩ := newline_placed h.cursor.lines
      rw [run_newline hBreak, hNewline] at hRun
      obtain rfl := Except.ok.inj hRun
      rw [act_newline hBreak]
      by_cases hRow : s.screen.row + 1 < TTY_MAX_HEIGHT
      · unfold Tty.Holds
        rw [hBelow hRow, Terminal.newline_below hRow]
        exact h.screen
      · exact hOff hRow
    · obtain ⟨tty', hPut, -, hInside, hLast⟩ := putchar_placed h.cursor hBreak
      obtain rfl := Except.ok.inj (hPut.symm.trans hRun)
      rw [act_put hBreak]
      by_cases hEnd : s.screen.Last
      · exact hLast hEnd
      · have hByte : c.toNat < 0x80 := hCond.resolve_right hEnd
        intro r k
        rw [hInside hEnd, (compose_eq_shown c).mpr hByte]
        unfold Terminal.put
        rw [Terminal.advance_cell (t := s.screen.set c) hEnd]
        exact Terminal.Rendered.set h.screen c r k
  | cls =>
    obtain ⟨tty', hCls, -, hHolds⟩ := cls_holds h.cursor
    obtain rfl := Except.ok.inj (hCls.symm.trans hRun)
    exact hHolds

/-- A byte with the sign bit that stays on the screen has the wrong attribute. -/
theorem step_breaks {s : TtyPair} {call : TtyCall} (h : Refines s) (hCond : ¬ Showable s call) :
    ∃ s', TtyStep s call s' ∧ ¬ Refines s' := by
  cases call with
  | cls => exact absurd trivial hCond
  | putchar c =>
    unfold Showable at hCond
    push Not at hCond
    obtain ⟨hByte, hEnd⟩ := hCond
    have hBreak : ¬ (c = 0x0A ∨ c = 0x0D) := by
      rintro (rfl | rfl) <;> exact absurd hByte (by decide)
    obtain ⟨tty', hPut, -, hInside, -⟩ := putchar_placed h.cursor hBreak
    refine ⟨⟨tty', s.screen.put 0x20 c⟩, ⟨hPut, (act_put hBreak _).symm⟩, fun hRefines => ?_⟩
    · have hAfter : (s.screen.set c).Rendered shown (Function.update s.tty.video
          (Terminal.place s.screen.row s.screen.column) (Tty.compose c)) := by
        intro r k
        have hHere := hRefines.screen r k
        dsimp only at hHere
        rw [hInside hEnd] at hHere
        unfold Terminal.put at hHere
        rwa [Terminal.advance_cell (t := s.screen.set c) hEnd] at hHere
      have hSign := (compose_eq_shown c).mp hAfter.set_inv
      omega

/-! ## Runs -/

/-- The calls of a run complete, and after each of them the console shows what the terminal
does. -/
structure Mirrors (tty : Tty) (ops : List TtyOp) : Prop where
  moments : Throughout TtyStep Refines ⟨tty, Screen.home⟩ (ops.flatMap TtyOp.calls)
  result : ∃ s', ops.foldlM TtyOp.run tty = .ok s'.tty ∧
    Run TtyStep ⟨tty, Screen.home⟩ (ops.flatMap TtyOp.calls) s'

/-- `main` clears the screen before anything is written. -/
theorem boot_refines {video : Nat → BitVec 16} {tty : Tty}
    (hBoot : Tty.cls { video := video } = .ok tty) : Refines ⟨tty, Screen.home⟩ := by
  rw [cls_eq] at hBoot
  obtain rfl := Except.ok.inj hBoot
  exact refines_of_holds ⟨rfl, rfl⟩ (Terminal.Rendered.blank (fun i hi => if_pos hi) fun _ _ => rfl)

/-- Every run of calls completes. -/
theorem calls_complete {tty : Tty} {t : Screen} (h : CursorAt tty t) (calls : List TtyCall) :
    ∃ s', calls.foldlM TtyCall.run tty = .ok s'.tty ∧ Run TtyStep ⟨tty, t⟩ calls s' := by
  induction calls generalizing tty t with
  | nil => exact ⟨⟨tty, t⟩, rfl, Run.nil⟩
  | cons call calls ih =>
    obtain ⟨tty', hCall, hPlaced⟩ := call_placed h call
    obtain ⟨s', hRest, hRun⟩ := ih hPlaced
    refine ⟨s', ?_, ?_⟩
    · rw [List.foldlM_cons, hCall, ok_bind_eq]
      exact hRest
    · exact (Run.one ⟨hCall, rfl⟩ : Run TtyStep ⟨tty, t⟩ [call] ⟨tty', call.act t⟩).trans hRun

/-- The console is the reference terminal exactly as long as no byte from `0x80` on is put on
a cell that keeps it. -/
theorem console_iff {video : Nat → BitVec 16} {tty : Tty}
    (hBoot : Tty.cls { video := video } = .ok tty) (ops : List TtyOp) :
    Mirrors tty ops ↔
      Meets TtyStep Showable ⟨tty, Screen.home⟩ (ops.flatMap TtyOp.calls) := by
  have hStart := boot_refines hBoot
  have hExact : Throughout TtyStep Refines ⟨tty, Screen.home⟩ (ops.flatMap TtyOp.calls) ↔
      Meets TtyStep Showable ⟨tty, Screen.home⟩ (ops.flatMap TtyOp.calls) :=
    throughout_iff_meets Refines (fun _ h => h)
      (fun _ _ _ h hCond hStep => step_refines h hCond hStep)
      (fun _ _ h hCond => step_breaks h hCond) hStart _
  constructor
  · intro hMirrors
    exact hExact.mp hMirrors.moments
  · intro hMeets
    obtain ⟨s', hCalls, hRun⟩ := calls_complete hStart.cursor (ops.flatMap TtyOp.calls)
    refine ⟨hExact.mpr hMeets, s', ?_, hRun⟩
    rw [ops_calls]
    exact hCalls

/-- Seven-bit text is always shown right. -/
theorem meets_of_ascii {s : TtyPair} {calls : List TtyCall}
    (h : ∀ c, .putchar c ∈ calls → c.toNat < 0x80) : Meets TtyStep Showable s calls := by
  intro pre call s' hPre _
  cases call with
  | putchar c => exact Or.inl (h c (hPre.subset (by simp)))
  | cls => trivial

/-- `puts("Hi\n")` and a `putchar` on the next line. -/
theorem console_sample : ∃ tty, Tty.cls { video := fun _ => 0 } = .ok tty ∧
    Mirrors tty [.puts [0x48, 0x69, 0x0A], .putchar 0x21] := by
  obtain ⟨tty, hBoot, -⟩ := cls_holds (home_cursor fun _ => 0)
  refine ⟨tty, hBoot, (console_iff hBoot _).mpr (meets_of_ascii ?_)⟩
  intro c hc
  have hBytes : c ∈ [0x48, 0x69, 0x0A, 0x21] := by
    simpa [TtyOp.calls] using hc
  revert c
  decide

/-- `0x80` is shown in the colour `0xFF`. -/
theorem sign_colours : ∃ tty tty', Tty.cls { video := fun _ => 0 } = .ok tty ∧
    tty.putchar 0x80 = .ok tty' ∧ tty'.video 0 = 0xFF80 ∧ ¬ Mirrors tty [.putchar 0x80] := by
  obtain ⟨tty, hBoot, -⟩ := cls_holds (home_cursor fun _ => 0)
  have hShown : ((Tty.cls { video := fun _ => 0 }).toOption.bind fun tty =>
      (tty.putchar 0x80).toOption.map (·.video 0)) = some 0xFF80 := by decide +kernel
  rw [hBoot] at hShown
  obtain ⟨tty', hPut, hVideo⟩ := Option.map_eq_some_iff.mp hShown
  refine ⟨tty, tty', hBoot, toOption_eq_some.mp hPut, hVideo, fun h => ?_⟩
  have hMeets := (console_iff hBoot [.putchar 0x80]).mp h
  have hFirst : Showable ⟨tty, Screen.home⟩ (.putchar 0x80) := meets_singleton.mp hMeets
  rcases hFirst with hByte | hLast
  · exact absurd hByte (by decide)
  · have hRow : 0 + 1 = TTY_MAX_HEIGHT := hLast.1
    exact absurd hRow (by decide)

end LunarOS
