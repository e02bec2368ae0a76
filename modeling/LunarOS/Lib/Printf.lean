import LunarOS.Machine.Stop

/-!
# Formatted output (`uitoa.c`, `vprintf.c`)

A C string is the list of its characters before the terminator, and a pointer into one is the
part of the list from there on. What is modelled of a call is the list of characters given to
`putchar`, in order. `va_list` is the list of the arguments still to be read: an integer is
the 8-byte slot it is passed in, of which a 32-bit directive reads the low half.
-/

namespace LunarOS

/-! ## `uitoa` -/

def digits : List Char := "0123456789abcdef".toList

/-- The `do` loop of `uitoa`; the characters from `buf[pos]` on. The buffer of the only caller
has `fuel` characters. -/
def uitoaDigits (base : Nat) : Nat → Nat → List Char
  | 0, _ => []
  | fuel + 1, value =>
    let c := digits.getD (value % base) '0'
    if value / base = 0 then [c] else c :: uitoaDigits base fuel (value / base)

/-- One turn of the second loop of `uitoa`. -/
def swapChars (buf : List Char) (i : Nat) : List Char :=
  let j := buf.length - i - 1
  (buf.set i (buf.getD j '0')).set j (buf.getD i '0')

def uitoa (value base : Nat) : List Char :=
  let buf := uitoaDigits base 64 value
  (List.range (buf.length / 2)).foldl swapChars buf

/-! ## `vprintf` -/

inductive Arg
  | num (slot : Nat)
  | str (p : Option (List Char))
  deriving DecidableEq, Repr

/-- Characters that were put, and the arguments left. -/
abbrev Printed := Outcome (List Char × List Arg)

/-- Put `cs` before anything else. -/
def emit (cs : List Char) (rest : Printed) : Printed := do
  let (out, args) ← rest
  pure (cs ++ out, args)

def fmtnum (value base : Nat) (issigned : Bool) : List Char :=
  let basePrefix := if base = 8 then ['0'] else if base = 16 then ['0', 'x'] else []
  if issigned ∧ 2 ^ 63 ≤ value then '-' :: (basePrefix ++ uitoa (sub64 0 value) base)
  else basePrefix ++ uitoa value base

/-- `va_arg` of 8 bytes -/
def vaArg64 : List Arg → Outcome (Nat × List Arg)
  | .num slot :: args => .ok (slot % wordSize, args)
  | _ => .error (.fault .argument)

/-- `va_arg(args, uint32_t)` -/
def vaArgU32 (args : List Arg) : Outcome (Nat × List Arg) := do
  let (slot, args) ← vaArg64 args
  pure (slot % 2 ^ 32, args)

/-- `va_arg(args, int32_t)`, converted to the parameter of `fmtnum` -/
def vaArgI32 (args : List Arg) : Outcome (Nat × List Arg) := do
  let (slot, args) ← vaArg64 args
  pure (sext32 slot, args)

/-- `va_arg(args, char *)` -/
def vaArgStr : List Arg → Outcome (Option (List Char) × List Arg)
  | .str p :: args => .ok (p, args)
  | _ => .error (.fault .argument)

/-- The switch that `fmtnum64` and `fmtnum32` share, over `fmtnum` and the way they read an
argument. The directive is the character that `fmt` points to, `NUL` at the end of the string. -/
def fmtDirective (number : Nat → Nat → Bool → Outcome (List Char))
    (signed unsigned : List Arg → Outcome (Nat × List Arg)) (fmt : List Char)
    (args : List Arg) : Printed :=
  match fmt.headD '\x00' with
  | 'd' | 'i' => do
    let (value, args) ← signed args
    pure (← number value 10 true, args)
  | 'o' => do
    let (value, args) ← unsigned args
    pure (← number value 8 false, args)
  | 'x' => do
    let (value, args) ← unsigned args
    pure (← number value 16 false, args)
  | 'u' => do
    let (value, args) ← unsigned args
    pure (← number value 10 false, args)
  | _ => pure ([], args)

/-- `fmtnum` as the switch calls it: there it never stops. -/
def putnum (value base : Nat) (issigned : Bool) : Outcome (List Char) :=
  .ok (fmtnum value base issigned)

def fmtnum64 : List Char → List Arg → Printed := fmtDirective putnum vaArg64 vaArg64

def fmtnum32 : List Char → List Arg → Printed := fmtDirective putnum vaArgI32 vaArgU32

/-- The rest of the loop runs on what a directive leaves. -/
def andThen (first : Printed) (rest : List Arg → Printed) : Printed := do
  let (out, args) ← first
  emit out (rest args)

def vprintf : List Char → List Arg → Printed
  | [], args => pure ([], args)
  | c :: fmt, args =>
    if c ≠ '%' then emit [c] (vprintf fmt args)
    else
      match fmt with
      | [] => .error (.fault .format)  -- `putchar(*fmt++)` steps over the terminator
      | 'l' :: fmt =>
        if fmt.headD '\x00' ≠ 'l' then andThen (fmtnum64 fmt args) fun args => vprintf fmt args
        else
          match fmt with
          | _ :: c :: fmt => andThen (fmtnum64 (c :: fmt) args) fun args => vprintf fmt args
          | _ => .error (.fault .format)  -- `fmt++` after `%ll` does
      | 's' :: fmt => do
        let (p, args) ← vaArgStr args
        emit (p.getD "(null)".toList) (vprintf fmt args)
      | c :: fmt =>
        if c = 'd' ∨ c = 'i' ∨ c = 'o' ∨ c = 'x' ∨ c = 'u' then
          andThen (fmtnum32 (c :: fmt) args) fun args => vprintf fmt args
        else emit [c] (vprintf fmt args)

def printf (fmt : String) (args : List Arg) : Printed := vprintf fmt.toList args

end LunarOS
