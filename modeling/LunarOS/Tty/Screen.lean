import LunarOS.Lib.Log
import LunarOS.Tty.Console

/-!
# Messages on the screen

`vprintf` and the markers of `pr.c` decide the characters, `putchar` decides the cells. Put
together, a sequence of messages shows the text that their formats ask for (`messages_shown`):
after every character the screen is the one of a reference terminal that is given this text.
-/

namespace LunarOS

open Logic

/-- The byte of a character. -/
def byteOf (c : Char) : BitVec 8 := .ofNat 8 c.toNat

/-- The calls on the console. -/
def putchars (out : List Char) : List TtyCall := out.map fun c => .putchar (byteOf c)

/-- The terminal after a text. -/
def Screen.type (t : Screen) (out : List Char) : Screen := out.foldl (fun t c => t.write (byteOf c)) t

/-- A text that is put on a console beside the terminal. -/
structure Shown (s : TtyPair) (out : List Char) : Prop where
  moments : Throughout TtyStep Refines s (putchars out)
  result : ∃ tty, (putchars out).foldlM TtyCall.run s.tty = .ok tty ∧
    Refines ⟨tty, s.screen.type out⟩

theorem screen_of_run {s s' : TtyPair} {calls : List TtyCall} (h : Run TtyStep s calls s') :
    s'.screen = calls.foldl TtyCall.act s.screen := by
  induction h with
  | nil => rfl
  | snoc _ hStep ih =>
    rw [List.foldl_append, hStep.2, ih]
    rfl

theorem type_eq (t : Screen) (out : List Char) : (putchars out).foldl TtyCall.act t = t.type out := by
  unfold putchars Screen.type
  rw [List.foldl_map]
  rfl

theorem byteOf_sevenBit {c : Char} (h : SevenBit c) : (byteOf c).toNat < 0x80 := by
  unfold SevenBit at h
  unfold byteOf
  rw [BitVec.toNat_ofNat]
  omega

/-- Seven-bit text is shown as it is, after every character. -/
theorem shown_of_sevenBit {s : TtyPair} (h : Refines s) {out : List Char}
    (hText : ∀ c ∈ out, SevenBit c) : Shown s out := by
  have hMeets : Meets TtyStep Showable s (putchars out) := by
    apply meets_of_ascii
    intro c hc
    obtain ⟨c', hc', hEq⟩ := List.mem_map.mp hc
    cases hEq
    exact byteOf_sevenBit (hText c' hc')
  have hMoments : Throughout TtyStep Refines s (putchars out) :=
    (throughout_iff_meets Refines (fun _ h => h)
      (fun _ _ _ h hCond hStep => step_refines h hCond hStep)
      (fun _ _ h hCond => step_breaks h hCond) h _).mpr hMeets
  obtain ⟨s', hCalls, hRun⟩ := calls_complete h.cursor (putchars out)
  refine ⟨hMoments, s'.tty, hCalls, ?_⟩
  have hLast := hMoments _ s' (List.prefix_refl _) hRun
  rw [← type_eq, ← screen_of_run hRun]
  exact hLast

/-! ## Messages -/

/-- The functions that print a format. -/
inductive Printer
  | printf | prDebug | prWarn | prErr
  deriving DecidableEq, Repr

structure Message where
  printer : Printer
  items : List Item

namespace Printer

def run : Printer → String → List Arg → Logged Unit
  | printf => Logged.printf
  | prDebug => Logged.prDebug
  | prWarn => Logged.prWarn
  | prErr => Logged.prErr

def marker : Printer → List Char
  | printf => []
  | prDebug => "[DEBUG] ".toList
  | prWarn => "[WARNING] ".toList
  | prErr => "[ERROR] ".toList

end Printer

namespace Message

def run (m : Message) : Logged Unit := m.printer.run (.ofList (format m.items)) (arguments m.items)

/-- What is asked for. -/
def text (m : Message) : List Char := m.printer.marker ++ render m.items

theorem run_eq {m : Message} (h : NoLong m.items) : m.run = .tell m.text := by
  obtain ⟨printer, items⟩ := m
  have hItems : Logged.vprintf (String.ofList (format items)).toList (arguments items) =
      .tell (render items) := Logged.vprintf_items items h (String.toList_ofList) rfl
  unfold run text
  cases printer with
  | printf => exact hItems
  | prDebug | prWarn | prErr =>
    change (Logged.puts _ >>= fun _ => Logged.vprintf _ _) = _
    rw [hItems]
    exact Writer.tell_bind ..

theorem text_sevenBit {m : Message} (h : ∀ it ∈ m.items, it.SevenBit) : ∀ c ∈ m.text, SevenBit c := by
  intro c hc
  have hMarker : ∀ c ∈ m.printer.marker, SevenBit c := by
    apply sevenBit_of_all
    cases m.printer <;> decide
  exact (List.mem_append.mp hc).elim (hMarker c) (sevenBit_render h c)

end Message

/-- One message after the other. -/
def messages : List Message → Logged Unit
  | [] => pure ()
  | m :: ms => do
    m.run
    messages ms

theorem messages_eq {ms : List Message} (h : ∀ m ∈ ms, NoLong m.items) :
    messages ms = .tell (ms.flatMap Message.text) := by
  induction ms with
  | nil => rfl
  | cons m ms ih =>
    have hRest : ∀ m ∈ ms, NoLong m.items := fun m hm => h m (List.mem_cons_of_mem _ hm)
    unfold messages
    rw [Message.run_eq (h m List.mem_cons_self), Writer.tell_bind, ih hRest]
    rfl

/-- The screen keeps up with the messages. -/
structure Display (tty : Tty) (ms : List Message) : Prop where
  returns : (messages ms).result = .ok ()
  text : (messages ms).out = ms.flatMap Message.text
  shown : Shown ⟨tty, Screen.home⟩ (messages ms).out

theorem messages_shown {video : Nat → BitVec 16} {tty : Tty}
    (hBoot : Tty.cls { video := video } = .ok tty) {ms : List Message}
    (hLong : ∀ m ∈ ms, NoLong m.items) (hText : ∀ m ∈ ms, ∀ it ∈ m.items, it.SevenBit) :
    Display tty ms := by
  have hRun := messages_eq hLong
  refine ⟨by rw [hRun]; rfl, by rw [hRun]; rfl, shown_of_sevenBit (boot_refines hBoot) ?_⟩
  rw [hRun]
  intro c hc
  obtain ⟨m, hm, hc⟩ := List.mem_flatMap.mp hc
  exact m.text_sevenBit (hText m hm) c hc

/-- `pr_debug("%d pages available\n", 262144)` and `printf("%llx", 0xFEE00000)`. -/
def sampleMessages : List Message :=
  [⟨.prDebug, Item.num .int .d 262144 :: Item.lits " pages available\n"⟩,
    ⟨.printf, [Item.num .longLong .x 0xFEE00000]⟩]

theorem messages_sample : ∃ tty, Tty.cls { video := fun _ => 0 } = .ok tty ∧
    Display tty sampleMessages := by
  obtain ⟨tty, hBoot, -⟩ := cls_holds (home_cursor fun _ => 0)
  refine ⟨tty, hBoot, messages_shown hBoot ?_ ?_⟩
  · simpa [sampleMessages] using noLong_lits _
  · have hText : ∀ it ∈ Item.lits " pages available\n", it.SevenBit :=
      sevenBit_lits _ (sevenBit_of_all (by decide))
    simpa [sampleMessages] using hText

end LunarOS
