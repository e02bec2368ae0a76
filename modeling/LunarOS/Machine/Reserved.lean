import LunarOS.Machine.Word

/-!
# The reserved area (`mm_reserved_alloc`)

A bump allocator over two static pages, used before the page allocator exists. `base` and
`available` are the function's two static variables.
-/

namespace LunarOS

structure Reserved where
  base : Nat
  available : Nat := PGSIZE * 2
  deriving DecidableEq, Repr

/-- The memory handed out is zeroed. -/
def mmReservedAlloc (r : Reserved) (sz : Nat) : Option Nat × Reserved :=
  let sz := alignTo sz 8
  if r.available < sz then (none, r)
  else (some r.base, { base := add64 r.base sz, available := sub64 r.available sz })

end LunarOS
