import LunarOS.Machine.Word

/-!
# How a computation of the kernel ends

A modelled function returns `Except Stop α`. It stops without a value when a loop is still
running after the given fuel, when the source calls `panic`, or when it touches memory
outside the object it addresses. The last case is undefined in C; on the machine it is a
page fault or a corrupted neighbour, and nothing is claimed about what follows.
-/

namespace LunarOS

/-- An access outside the addressed object. -/
inductive Fault
  /-- `list_t` at an address that holds none (`NULL` included) -/
  | list (address : Nat)
  /-- `b->freelist[index]` outside the array -/
  | bucket (index : Nat)
  /-- `b->tree[byte]` outside the array -/
  | tree (byte : Nat)
  /-- `struct page` through `NULL` or outside its map -/
  | page
  /-- an object in a page that is not mapped -/
  | unmapped (address : Nat)
  /-- `buddy_area_t` at an address that holds none -/
  | buddy (address : Nat)
  /-- `struct kmem_cache_node` outside the table -/
  | slab (address : Nat)
  /-- `struct cache` at an address that holds none (`NULL` included) -/
  | cache (address : Nat)
  /-- a format read past its terminator -/
  | format
  /-- `va_arg` of an argument that is missing or of another type -/
  | argument
  /-- a byte outside the boot information block, by its offset -/
  | block (offset : Nat)
  /-- a character cell outside the screen -/
  | cell (index : Nat)
  /-- `buf[index]` outside a `char` array -/
  | buffer (index : Nat)
  deriving DecidableEq, Repr

inductive Stop
  | fuel
  | fault (f : Fault)
  | panic (message : String)
  deriving DecidableEq, Repr

abbrev Outcome (α : Type) := Except Stop α

/-- Some amount of fuel makes the computation return `a`. -/
def Returns {α : Type} (x : Nat → Outcome α) (a : α) : Prop := ∃ fuel, x fuel = .ok a

/-- The computation stays in a loop whatever the fuel. -/
def Hangs {α : Type} (x : Nat → Outcome α) : Prop := ∀ fuel, x fuel = .error .fuel

/-- How a computation stopped, if it gave no value. -/
def stopOf {α : Type} : Outcome α → Option Stop
  | .ok _ => none
  | .error e => some e

theorem stopOf_eq {α : Type} {x : Outcome α} {e : Stop} : stopOf x = some e ↔ x = .error e := by
  cases x <;> simp [stopOf]

theorem toOption_eq_some {α : Type} {x : Outcome α} {a : α} : x.toOption = some a ↔ x = .ok a := by
  cases x <;> simp [Except.toOption]

theorem ok_bind_eq {α β : Type} (a : α) (f : α → Outcome β) : (Except.ok a >>= f) = f a := rfl

theorem error_bind_eq {α β : Type} (e : Stop) (f : α → Outcome β) :
    ((Except.error e : Outcome α) >>= f) = .error e := rfl

theorem bind_eq_ok {α β : Type} {x : Outcome α} {f : α → Outcome β} {b : β} :
    (x >>= f) = .ok b ↔ ∃ a, x = .ok a ∧ f a = .ok b := by
  cases x with
  | error e => simp [bind, Except.bind]
  | ok a => simp [bind, Except.bind]

theorem bind_eq_error {α β : Type} {x : Outcome α} {f : α → Outcome β} {e : Stop} :
    (x >>= f) = .error e ↔ x = .error e ∨ ∃ a, x = .ok a ∧ f a = .error e := by
  cases x with
  | error e => simp [bind, Except.bind]
  | ok a => simp [bind, Except.bind]

end LunarOS
