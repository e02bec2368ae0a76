import LunarOS.Page.Alloc

/-!
# The slab allocator (`slab.c`)

`slabs` is a table of nodes, one for each size class and a last one of size 0. Each node points
to a `struct cache`, which is an index and an array of objects; `Slabs.mem` holds the caches by
address. `page->slab` is the address of a node.
-/

namespace LunarOS

/-- `struct cache`; `entries` is an array of `entriesSz` pointers and goes on with the words that
memory holds behind it. -/
structure Cache where
  index : Nat
  entriesSz : Nat
  entries : Nat → Nat

/-- The column `obj_size` of the table. -/
def slabSizes : List Nat := [8, 16, 32, 64, 128, 256, 512, 1024, 0]

def objSize (i : Nat) : Nat := slabSizes.getD i 0

/-- Sizes of `struct kmem_cache_node` and of the header of `struct cache`. -/
def kmemCacheNodeSize : Nat := 24
def cacheSize : Nat := 16

structure Slabs where
  pages : PageState
  /-- address of the table -/
  slabsAt : Nat
  /-- the column `cache` of the table -/
  cache : Nat → Nat
  mem : Nat → Option Cache

namespace Slabs

/-- `&slabs[i]` -/
def nodeAt (s : Slabs) (i : Nat) : Nat := s.slabsAt + kmemCacheNodeSize * i

/-- The index of the node at an address. -/
def node (s : Slabs) (address : Nat) : Outcome Nat :=
  match (List.range slabSizes.length).find? fun i => s.nodeAt i == address with
  | some i => .ok i
  | none => .error (.fault (.slab address))

def readCache (s : Slabs) (address : Nat) : Outcome Cache :=
  match s.mem address with
  | some c => .ok c
  | none => .error (.fault (.cache address))

def writeCache (s : Slabs) (address : Nat) (c : Cache) : Slabs :=
  { s with mem := fun a => if a = address then some c else s.mem a }

end Slabs

def Cache.set (c : Cache) (i obj : Nat) : Cache :=
  { c with entries := fun k => if k = i then obj else c.entries k }

/-- The entry that `cache_get` reads, if any; `cache->entries` is an array member and never
`NULL`. The index `entries_sz` passes the test. -/
def Cache.getEntry (c : Cache) : Option Nat :=
  if c.entriesSz < c.index then none else some c.index

def cacheGet (s : Slabs) (cache : Nat) : Outcome (Nat × Slabs) := do
  let c ← s.readCache cache
  match c.getEntry with
  | none => pure (0, s)
  | some i => pure (c.entries i, s.writeCache cache { c with index := add64 i 1 })

/-- The entry that `cache_put` writes, if any. -/
def Cache.putEntry (c : Cache) : Option Nat :=
  if c.index = 0 then none else some (sub64 c.index 1)

def cachePut (s : Slabs) (cache obj : Nat) : Outcome Slabs := do
  let c ← s.readCache cache
  match c.putEntry with
  | none => .error (.panic "Spurious put in slab\n")
  | some i => pure (s.writeCache cache ({ c with index := i }.set i obj))

def kmallocIndex (size : Nat) : Nat :=
  if size ≤ 8 then 0
  else if size ≤ 16 then 1
  else if size ≤ 32 then 2
  else if size ≤ 64 then 3
  else if size ≤ 128 then 4
  else if size ≤ 256 then 5
  else if size ≤ 512 then 6
  else if size ≤ 1024 then 7
  else 8

def kmalloc (s : Slabs) (size : Nat) : Outcome (Nat × Slabs) :=
  cacheGet s (s.cache (kmallocIndex size))

/-- `page->slab` of the page that holds the address, 0 when there is none. -/
def vmmVirt2slab (m : Mem) (addr : Nat) : Outcome Nat := do
  match phys2page m.physMem (← vmmVirt2phys addr) with
  | none => pure 0
  | some page => pure (← m.readPage (some page)).slab

def kfree (s : Slabs) (ptr : Nat) : Outcome Slabs :=
  if ptr = 0 then .ok s
  else do
    let slab ← vmmVirt2slab s.pages.m ptr
    if slab = 0 then pure s
    else cachePut s (s.cache (← s.node slab)) ptr

def ksize (s : Slabs) (ptr : Nat) : Outcome Nat :=
  if ptr = 0 then .ok 0
  else do
    let slab ← vmmVirt2slab s.pages.m ptr
    if slab = 0 then pure 0
    else pure (objSize (← s.node slab))

/-! ## Initialisation -/

def allocCache (s : Slabs) (i npages fuel : Nat) : Outcome Slabs := do
  let entriesSz := mul64 npages PGSIZE / objSize i
  let allocSz := add64 cacheSize (mul64 entriesSz 8)
  let request := add64 (allocSz / PGSIZE) 1
  match ← pageAlloc s.pages request fuel with
  | (none, _) => .error (.panic "Not enough memory for SLAB allocator!")
  | (some cache, pages) => do
    let at_ ← vmmVirt2phys cache
    pure { s with pages, cache := fun j => if j = i then at_ else s.cache j }

/-- The loop of `fill_cache`; the entries are written whatever `entries_sz` holds. -/
def fillCache (s : Slabs) (i p : Nat) : Outcome Slabs := do
  let c ← s.readCache (s.cache i)
  let c := (List.range (PGSIZE / objSize i)).foldl
    (fun c k => c.set k (add64 p (k * objSize i))) c
  pure (s.writeCache (s.cache i) c)

/-- The body of the loop of `init_slab`. -/
def initClass (s : Slabs) (i fuel : Nat) : Outcome Slabs :=
  if objSize i = 0 then .ok s
  else do
    let s ← allocCache s i 1 fuel
    match ← pageAlloc s.pages 1 fuel with
    | (none, _) => .error (.panic "Not enough memory for SLAB!")
    | (some p, pages) => do
      let m ← pages.m.writePage (phys2page pages.m.physMem p) fun page =>
        { page with slab := s.nodeAt i }
      fillCache { s with pages := { pages with m } } i (vmmPhys2virt p)

def initSlab (s : Slabs) (fuel : Nat) : Outcome Slabs :=
  (List.range slabSizes.length).foldlM (fun s i => initClass s i fuel) s

end LunarOS
