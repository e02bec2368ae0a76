import LunarOS.Lib.Format
import LunarOS.Logic.Numeral
import LunarOS.Logic.Writer

/-!
# Messages (`pr.c`, `printf.c`, `puts.c`, `panic.c`)

A function that prints is a `Logged` computation: the characters given to `putchar`, in order,
and how it ended. `panic` prints and stays in a loop with the interrupts off, so its message is
the last thing that is written (`panic_eq`). The default `CFLAGS` define `__DEBUG__`.
-/

namespace LunarOS

open Logic

/-- The machine does not come back from these. -/
inductive Halt
  | stop (e : Stop)
  /-- a general protection fault, for which there is no handler -/
  | protection
  deriving DecidableEq, Repr

abbrev Logged (α : Type) := Writer Char Halt α

namespace Logged

variable {α : Type}

def puts (s : String) : Logged Unit := .tell s.toList

/-- What a call with a missing argument puts before it reads it is left out. -/
def vprintf (fmt : List Char) (args : List Arg) : Logged Unit :=
  match LunarOS.vprintf fmt args with
  | .ok (out, _) => .tell out
  | .error e => .fail (.stop e)

def printf (fmt : String) (args : List Arg) : Logged Unit := vprintf fmt.toList args

def prDebug (fmt : String) (args : List Arg) : Logged Unit := do
  puts "[DEBUG] "
  vprintf fmt.toList args

def prWarn (fmt : String) (args : List Arg) : Logged Unit := do
  puts "[WARNING] "
  vprintf fmt.toList args

def prErr (fmt : String) (args : List Arg) : Logged Unit := do
  puts "[ERROR] "
  vprintf fmt.toList args

/-- No caller passes arguments. -/
def panic (fmt : String) : Logged α := do
  printf "[PANIC] " []
  vprintf fmt.toList []
  .fail (.stop (.panic fmt))

/-- A function that prints nothing itself, but may call `panic`. -/
def lift : Outcome α → Logged α
  | .ok a => pure a
  | .error (.panic message) => panic message
  | .error e => .fail (.stop e)

/-- `if (unlikely(!b)) panic(message)` -/
def require (b : Bool) (message : String) : Logged Unit := if b then pure () else panic message

end Logged

/-! ## What they put -/

theorem flatMap_pmap {α β γ : Type} {P : α → Prop} {f : ∀ c, P c → β} {g : β → List γ}
    {k : α → List γ} (hg : ∀ c (hc : P c), g (f c hc) = k c) (l : List α) (h : ∀ c ∈ l, P c) :
    (l.pmap f h).flatMap g = l.flatMap k := by
  induction l with
  | nil => rfl
  | cons c l ih =>
    rw [List.pmap_cons, List.flatMap_cons, List.flatMap_cons, hg, ih]

theorem render_append (items items' : List Item) :
    render (items ++ items') = render items ++ render items' := List.flatMap_append

theorem render_cons (it : Item) (items : List Item) :
    render (it :: items) = it.piece.render it.args ++ render items := List.flatMap_cons

theorem format_append (items items' : List Item) :
    format (items ++ items') = format items ++ format items' := List.flatMap_append

theorem format_cons (it : Item) (items : List Item) :
    format (it :: items) = it.piece.chars ++ format items := List.flatMap_cons

theorem arguments_append (items items' : List Item) :
    arguments (items ++ items') = arguments items ++ arguments items' := List.flatMap_append

theorem arguments_cons (it : Item) (items : List Item) :
    arguments (it :: items) = it.args ++ arguments items := List.flatMap_cons

theorem render_str (s : List Char) (items : List Item) :
    render (Item.str (some s) :: items) = s ++ render items := render_cons ..

theorem render_num (length : Length) (conv : Conversion) (slot : Nat) (items : List Item) :
    render (Item.num length conv slot :: items) =
      renderNumber length conv slot ++ render items := render_cons ..

section

variable {text : String} (h : Item.plain text = true)

theorem render_lits : render (Item.lits text h) = text.toList := by
  unfold render Item.lits
  rw [flatMap_pmap (k := fun c => [c]) fun _ _ => rfl]
  exact List.flatMap_singleton' _

theorem format_lits : format (Item.lits text h) = text.toList := by
  unfold format Item.lits
  rw [flatMap_pmap (k := fun c => [c]) fun _ _ => rfl]
  exact List.flatMap_singleton' _

theorem arguments_lits : arguments (Item.lits text h) = [] := by
  unfold arguments Item.lits
  rw [flatMap_pmap (k := fun _ => []) fun _ _ => rfl]
  simp

theorem noLong_lits : NoLong (Item.lits text h) := by
  intro it hit conv
  unfold Item.lits at hit
  obtain ⟨c, hc, rfl⟩ := List.mem_pmap.mp hit
  simp

end

@[simp]
theorem noLong_append {items items' : List Item} :
    NoLong (items ++ items') ↔ NoLong items ∧ NoLong items' := List.forall_mem_append

@[simp]
theorem noLong_cons {it : Item} {items : List Item} :
    NoLong (it :: items) ↔ (∀ conv, it.piece ≠ .num .long conv) ∧ NoLong items :=
  List.forall_mem_cons

@[simp]
theorem noLong_nil : NoLong [] := fun _ h => absurd h List.not_mem_nil

@[simp]
theorem Item.piece_num (length : Length) (conv : Conversion) (slot : Nat) :
    (Item.num length conv slot).piece = .num length conv := rfl

@[simp]
theorem Item.piece_str (p : Option (List Char)) : (Item.str p).piece = .str := rfl

namespace Logged

theorem vprintf_items {fmt : List Char} {args : List Arg} (items : List Item) (h : NoLong items)
    (hFormat : fmt = format items) (hArgs : args = arguments items) :
    vprintf fmt args = .tell (render items) := by
  have hOut := vprintf_format items []
  rw [List.append_nil, render_eq h, ← hArgs, ← hFormat] at hOut
  unfold vprintf
  rw [hOut]

theorem printf_items {fmt : String} {args : List Arg} (items : List Item) (h : NoLong items)
    (hFormat : fmt.toList = format items) (hArgs : args = arguments items) :
    printf fmt args = .tell (render items) := vprintf_items items h hFormat hArgs

theorem vprintf_plain {text : String} (h : Item.plain text = true) :
    vprintf text.toList [] = puts text := by
  rw [vprintf_items (Item.lits text h) (noLong_lits h) (format_lits h).symm
    (arguments_lits h).symm, render_lits]
  rfl

theorem prDebug_items {fmt : String} {args : List Arg} (items : List Item) (h : NoLong items)
    (hFormat : fmt.toList = format items) (hArgs : args = arguments items) :
    prDebug fmt args = .tell ("[DEBUG] ".toList ++ render items) := by
  unfold prDebug
  rw [vprintf_items items h hFormat hArgs]
  exact Writer.tell_bind ..

theorem prDebug_plain {text : String} (h : Item.plain text = true) :
    prDebug text [] = .tell ("[DEBUG] ".toList ++ text.toList) := by
  unfold prDebug
  rw [vprintf_plain h]
  exact Writer.tell_bind ..

theorem prErr_plain {text : String} (h : Item.plain text = true) :
    prErr text [] = .tell ("[ERROR] ".toList ++ text.toList) := by
  unfold prErr
  rw [vprintf_plain h]
  exact Writer.tell_bind ..

variable {α : Type}

/-- The message is the last thing that is written. -/
theorem panic_eq {message : String} (h : Item.plain message = true) :
    (panic message : Logged α) =
      ⟨"[PANIC] ".toList ++ message.toList, .error (.stop (.panic message))⟩ := by
  unfold panic printf
  rw [vprintf_plain rfl, vprintf_plain h]
  unfold puts
  rw [Writer.tell_bind, Writer.tell_bind]
  simp [Writer.fail]

/-- `out` was written, then the message of a panic. -/
def panicked (out : List Char) (message : String) : Logged α :=
  ⟨out ++ ("[PANIC] ".toList ++ message.toList), .error (.stop (.panic message))⟩

theorem tell_panic {message : String} (h : Item.plain message = true) (out : List Char) :
    (Writer.tell out >>= fun _ => (panic message : Logged α)) = panicked out message := by
  rw [Writer.tell_bind, panic_eq h]
  rfl

theorem lift_ok (a : α) : lift (.ok a) = pure a := rfl

theorem lift_panic {message : String} (h : Item.plain message = true) :
    (lift (.error (.panic message)) : Logged α) = panicked [] message := panic_eq h

theorem panicked_bind {β : Type} (out : List Char) (message : String) (f : α → Logged β) :
    panicked out message >>= f = panicked out message := Writer.bind_of_error rfl f

theorem tell_panicked (out out' : List Char) (message : String) :
    (Writer.tell out >>= fun _ => (panicked out' message : Logged α)) =
      panicked (out ++ out') message := by
  rw [Writer.tell_bind]
  unfold panicked
  rw [List.append_assoc]

/-- What has been printed when an access outside an object ends the run. -/
def faulted (out : List Char) (f : Fault) : Logged α := ⟨out, .error (.stop (.fault f))⟩

theorem lift_fault (f : Fault) : (lift (.error (.fault f)) : Logged α) = faulted [] f := rfl

theorem faulted_bind {β : Type} (out : List Char) (f : Fault) (g : α → Logged β) :
    faulted out f >>= g = faulted out f := Writer.bind_of_error rfl g

theorem tell_faulted (out out' : List Char) (f : Fault) :
    (Writer.tell out >>= fun _ => (faulted out' f : Logged α)) = faulted (out ++ out') f :=
  Writer.tell_bind ..

end Logged

/-! ## Seven-bit text -/

def SevenBit (c : Char) : Prop := c.toNat < 0x80

instance : DecidablePred SevenBit := fun c => inferInstanceAs (Decidable (c.toNat < 0x80))

/-- The characters that are copied. -/
def Item.SevenBit (it : Item) : Prop :=
  match it.piece, it.args with
  | .lit c _, _ => LunarOS.SevenBit c
  | .other c _, _ => LunarOS.SevenBit c
  | .str, [.str (some s)] => ∀ c ∈ s, LunarOS.SevenBit c
  | _, _ => True

/-- The characters of a fixed text, checked one by one. -/
theorem sevenBit_of_all {text : List Char} (h : text.all (fun c => decide (SevenBit c)) = true) :
    ∀ c ∈ text, SevenBit c := fun c hc => of_decide_eq_true (List.all_eq_true.mp h c hc)

theorem sevenBit_digitChar {d : Nat} (hd : d < 16) : SevenBit (Nat.digitChar d) := by
  revert d
  decide

theorem sevenBit_renderNumber (length : Length) (conv : Conversion) (slot : Nat) :
    ∀ c ∈ renderNumber length conv slot, SevenBit c := by
  intro c hc
  unfold renderNumber at hc
  rw [List.mem_append, List.mem_append] at hc
  rcases hc with (hSign | hMark) | hDigit
  · split at hSign
    · rw [List.mem_singleton.mp hSign]
      decide
    · exact absurd hSign List.not_mem_nil
  · have hMarks : ∀ c ∈ conv.mark, SevenBit c := by
      apply sevenBit_of_all
      cases conv <;> decide
    exact hMarks c hMark
  · have hBase : 1 < conv.base ∧ conv.base ≤ 16 := by
      cases conv <;> decide
    obtain ⟨d, hd, rfl⟩ := mem_toDigits hBase.1 hDigit
    exact sevenBit_digitChar (Nat.lt_of_lt_of_le hd hBase.2)

theorem Item.sevenBit_render {it : Item} (h : it.SevenBit) :
    ∀ c ∈ it.piece.render it.args, LunarOS.SevenBit c := by
  obtain ⟨piece, args, hTakes⟩ := it
  cases hTakes with
  | lit c hc =>
    intro c' hc'
    rw [List.mem_singleton.mp hc']
    exact h
  | other c hc =>
    intro c' hc'
    rw [List.mem_singleton.mp hc']
    exact h
  | num length conv slot => exact sevenBit_renderNumber length conv slot
  | str p =>
    cases p with
    | none => exact sevenBit_of_all (by decide)
    | some s => exact h

@[simp]
theorem Item.sevenBit_num (length : Length) (conv : Conversion) (slot : Nat) :
    (Item.num length conv slot).SevenBit := trivial

theorem sevenBit_lits {text : String} (h : Item.plain text = true)
    (hText : ∀ c ∈ text.toList, SevenBit c) : ∀ it ∈ Item.lits text h, it.SevenBit := by
  intro it hit
  obtain ⟨c, hc, rfl⟩ := List.mem_pmap.mp hit
  exact hText c hc

theorem sevenBit_render {items : List Item} (h : ∀ it ∈ items, it.SevenBit) :
    ∀ c ∈ render items, SevenBit c := by
  intro c hc
  obtain ⟨it, hit, hc⟩ := List.mem_flatMap.mp hc
  exact it.sevenBit_render (h it hit) c hc

end LunarOS
