import LunarOS.Buddy.Alloc
import LunarOS.Machine.Reserved

/-!
# The page allocator (`page.c`)

`PageState` is what `page.c` works on: the areas with their page records (in `m`), the list
nodes (in `m.heap`), the buddy structures by address, and the reserved area they are built
from. `pageInit` sets it up, `pageAlloc` and `pageFree` run on it. The traversal of
`list_for_each` takes fuel, since a damaged list need not lead back to its head.
-/

namespace LunarOS

structure PageState where
  /-- address of the array `phys_mem` -/
  physMemAt : Nat
  m : Mem
  buddies : Nat → Option BuddyArea
  reserved : Reserved
  physoff : Nat := 0
  /-- the pages, by number, that the page tables map -/
  mapped : Nat → Bool := fun _ => true

/-- Sizes of `struct page` and `mem_area_t`, and the offset of the field `buddies`. -/
def Page.size : Nat := 24
def MemArea.size : Nat := 64
def MemArea.buddiesOffset : Nat := 48

def BUDDY_MAX_SIZE : Nat := 2 ^ 19

namespace PageState

/-- `&phys_mem[i].buddies` -/
def buddiesAt (st : PageState) (i : Nat) : Nat :=
  st.physMemAt + MemArea.size * i + MemArea.buddiesOffset

def setBuddy (st : PageState) (at_ : Nat) (b : BuddyArea) : PageState :=
  { st with buddies := fun a => if a = at_ then some b else st.buddies a }

def buddy (st : PageState) (at_ : Nat) : Outcome BuddyArea :=
  match st.buddies at_ with
  | some b => .ok b
  | none => .error (.fault (.buddy at_))

/-- The `n` bytes at an address, up to a page of them, lie in mapped pages. -/
def reaches (st : PageState) (address n : Nat) : Bool :=
  st.mapped (address / PGSIZE) && st.mapped (add64 address (n - 1) / PGSIZE)

end PageState

/-! ## Allocation and release -/

/-- One turn of `list_for_each` in `page_alloc`: on to the next cursor, or the address of the
buddy that has `need` bytes available. -/
def pageAllocStep (st : PageState) (head need cursor : Nat) : Nat ⊕ Outcome (Option Nat) :=
  if cursor = head then .inr (.ok none)
  else
    let at_ := sub64 cursor BuddyArea.headOffset
    match st.buddies at_, st.m.heap cursor with
    | none, _ => .inr (.error (.fault (.buddy at_)))
    | some b, next =>
      if need ≤ b.available then .inr (.ok (some at_))
      else
        match next with
        | none => .inr (.error (.fault (.list cursor)))
        | some c => .inl c.next

/-- The buddy that serves `need` bytes, searched from area `i` on. -/
def pageAllocFind (st : PageState) (need fuel : Nat) : Nat → List MemArea → Outcome (Option Nat)
  | _, [] => .ok none
  | i, _ :: rest => do
    let head := st.buddiesAt i
    let first := (← st.m.heap.read head).next
    match Logic.Loop.run (pageAllocStep st head need) fuel first with
    | none => .error .fuel
    | some found =>
      match ← found with
      | some at_ => pure (some at_)
      | none => pageAllocFind st need fuel (i + 1) rest

def pageAlloc (st : PageState) (npages fuel : Nat) : Outcome (Option Nat × PageState) := do
  match ← pageAllocFind st (mul64 PGSIZE npages) fuel 0 st.m.physMem with
  | none => pure (none, st)
  | some at_ =>
    let (p, b, m) ← buddyAlloc (← st.buddy at_) st.m npages fuel
    let st := { st.setBuddy at_ b with m }
    match p with
    | none => pure (none, st)
    | some p =>
      match phys2page m.physMem p with
      | none => .error (.panic "Address returned by buddy has no struct page\n")
      | some page =>
        let m ← m.writePage (some page) fun page => { page with buddy := at_ }
        pure (some p, { st with m })

def pageFree (st : PageState) (addr : Nat) : Outcome PageState :=
  if addr = 0 then .ok st
  else
    match phys2page st.m.physMem addr with
    | none => .error (.panic "Address returned by buddy has no struct page\n")
    | some page => do
      let at_ := (← st.m.readPage (some page)).buddy
      let (b, m) ← buddyFree (← st.buddy at_) st.m addr
      pure { st.setBuddy at_ b with m }

/-! ## Initialisation -/

/-- The body of the first loop of `page_init`: an area at the beginning of physical memory
starts after the kernel. -/
def placeArea (poff : Nat) (area : MemArea) : MemArea :=
  if pgroundup area.addr = 0 then
    { area with addr := pgroundup poff, used := pgroundup poff }
  else area

/-- What the loop of `init_mem_map` enters in an area. -/
def mapArea (area : MemArea) : Outcome MemArea :=
  let npages := sub64 area.len area.used / PGSIZE
  let allocSz := mul64 npages Page.size
  if area.len < allocSz then .error (.panic "Cannot allocate memory map\n")
  else .ok { area with
    mapSz := npages
    map := vmmPhys2virt area.addr
    base := alignTo (add64 area.addr allocSz) 8
    used := add64 area.used allocSz }

/-- `&map[j]` -/
def MemArea.record (area : MemArea) (j : Nat) : Nat := add64 area.map (mul64 j Page.size)

/-- The loop over the records of an area: `memset` stores to each of them. -/
def clearMap (st : PageState) (area : MemArea) : Outcome Unit :=
  (List.range area.mapSz).forM fun j =>
    if st.reaches (area.record j) Page.size then .ok ()
    else .error (.fault (.unmapped (area.record j)))

/-- The body of the loop of `init_mem_map`. -/
def initArea (st : PageState) (area : MemArea) : Outcome MemArea := do
  let area ← mapArea area
  clearMap st area
  pure area

def initMemMap (st : PageState) : Outcome PageState := do
  let areas ← st.m.physMem.mapM (initArea st)
  pure { st with m := { st.m with
    physMem := areas
    page := fun ref => if InMap areas ref then {} else st.m.page ref } }

/-- The loop of `bootstrap_page_allocator`, from area `i` on. -/
def bootstrapFrom : Nat → List MemArea → PageState → Outcome PageState
  | _, [], st => .ok st
  | i, area :: rest, st =>
    if area.len < BUDDY_MAX_SIZE then bootstrapFrom (i + 1) rest st
    else do
      match ← buddyAreaInit mmReservedAlloc st.reserved st.m.heap area.base BUDDY_MAX_SIZE with
      | (none, _, _) =>
        .error (.panic "Not enough reserved memory to bootstrap the page allocator!\n")
      | (some (self, b), heap, reserved) =>
        let head := st.buddiesAt i
        let heap ← listPushback (listInit heap head) head (self + BuddyArea.headOffset)
        bootstrapFrom (i + 1) rest
          { st.setBuddy self b with m := { st.m with heap }, reserved }

def bootstrapPageAllocator (st : PageState) : Outcome PageState :=
  bootstrapFrom 0 st.m.physMem st

def pageInit (st : PageState) (areasAt : Nat) (areas : List MemArea) (poff : Nat) :
    Outcome PageState := do
  let st := { st with
    physoff := poff
    physMemAt := areasAt
    m := { st.m with physMem := areas.map (placeArea poff) } }
  bootstrapPageAllocator (← initMemMap st)

end LunarOS
