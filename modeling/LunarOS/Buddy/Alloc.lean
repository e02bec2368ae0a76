import LunarOS.Buddy.Tree
import LunarOS.Logic.Loop
import LunarOS.Page.Record

/-!
# The buddy allocator (second half of `buddy.c`)

Only the loop of `buddy_find_bkt` can run for ever, so it takes fuel. The loop of
`buddy_tree_walk` recurses on the levels left below the current node and that of
`buddy_free` on a bound of the node number, which its body decreases.
-/

namespace LunarOS

/-- One turn of the loop of `buddy_find_bkt`, on the pair `(bkt, sz)`. -/
def buddyFindBktStep (requested : Nat) : Nat × Nat → (Nat × Nat) ⊕ Nat
  | (bkt, sz) =>
    if sz < requested then .inl (sub64 bkt 1, shl64 sz 1) else .inr (sub64 bkt 1)

def buddyFindBkt (fuel : Nat) (b : BuddyArea) (requested : Nat) : Option Nat :=
  Logic.Loop.run (buddyFindBktStep requested) fuel (buddyMaxBucket b, b.min)

def buddyPushback (h : Heap) (freelist addr : Nat) : Outcome Heap :=
  listPushback h freelist (vmmPhys2virt addr)

/-- The result is the popped entry, at its direct-map address. -/
def buddyPop (h : Heap) (freelist : Nat) : Outcome (Option Nat × Heap) := do
  match ← listPop h freelist with
  | (none, h) => pure (none, h)
  | (some entry, h) => pure (some entry, h.write entry ⟨0, 0⟩)

def buddyRemove (h : Heap) (addr : Nat) : Outcome Heap := do
  let ph := vmmPhys2virt addr
  let h ← listRemove h ph
  pure (h.write ph ⟨0, 0⟩)

/-- `page->order = bkt`, on a `uint8_t`. -/
def Mem.setOrder (m : Mem) (page : Option PageRef) (bkt : Nat) : Outcome Mem :=
  m.writePage page fun p => { p with order := bkt % 256 }

/-- The loop of `buddy_tree_walk` at `node`, with `levels` levels left: `walker` is
`bkt + 1 - levels`. -/
def buddyTreeWalkLoop (bkt : Nat) :
    Nat → Nat → Nat → BuddyArea → Mem → Outcome (Option Nat × BuddyArea × Mem)
  | 0, _, _, b, m => .ok (none, b, m)
  | levels + 1, node, walker, b, m => do
    if ← nodeIsSplit b node then
      buddyTreeWalkLoop bkt levels (nodeLeft node) (walker + 1) b m
    else
      let b ← nodeSetSplit b node
      let addr := node2ptr b (nodeLeft node) walker
      let heap ← buddyPushback m.heap (← freelistAt b walker) addr
      let m := { m with heap }
      if walker = bkt then
        let ret := node2ptr b (nodeRight node) bkt
        let m ← m.setOrder (phys2page m.physMem ret) bkt
        pure (some ret, b, m)
      else
        buddyTreeWalkLoop bkt levels (nodeRight node) (walker + 1) b m

def buddyTreeWalk (b : BuddyArea) (bkt : Nat) (m : Mem) :
    Outcome (Option Nat × BuddyArea × Mem) :=
  buddyTreeWalkLoop bkt bkt 0 1 b m

def buddyAlloc (b : BuddyArea) (m : Mem) (requested fuel : Nat) :
    Outcome (Option Nat × BuddyArea × Mem) :=
  match buddyFindBkt fuel b requested with
  | none => .error .fuel
  | some bkt =>
    let realsz := intShl (sub64 (log2 b.max) bkt)
    if b.available < sub64 b.available realsz then
      .ok (none, b, m)
    else do
      let b := { b with available := sub64 b.available realsz }
      let (ptr, heap) ← buddyPop m.heap (← freelistAt b bkt)
      let m := { m with heap }
      match ptr with
      | none => buddyTreeWalk b bkt m
      | some ptr =>
        let node := ptr2node b ptr bkt
        let b ← if node ≠ 0 then nodeParentFlip b node else pure b
        let m ← m.setOrder (phys2page m.physMem ptr) bkt
        pure (some ptr, b, m)

/-- The loop of `buddy_free`: the final node, level, area and heap. -/
def buddyFreeLoop :
    Nat → Nat → Nat → BuddyArea → Heap → Outcome (Nat × Nat × BuddyArea × Heap)
  | 0, node, bkt, b, h => .ok (node, bkt, b, h)
  | bound + 1, node, bkt, b, h =>
    if node = 0 then .ok (node, bkt, b, h)
    else do
      let b ← nodeParentFlip b node
      if ← nodeIsSplit b (nodeParent node) then
        pure (node, bkt, b, h)
      else
        let h ← buddyRemove h (node2ptr b (nodeSibling node) bkt)
        buddyFreeLoop bound (nodeParent node) (sub64 bkt 1) b h

def buddyFree (b : BuddyArea) (m : Mem) (ptr : Nat) : Outcome (BuddyArea × Mem) :=
  if ptr = 0 then .ok (b, m)
  else
    match phys2page m.physMem ptr with
    | none => .ok (b, m)
    | some page => do
      let bkt := (← m.readPage (some page)).order
      let node := ptr2node b ptr bkt
      let (node, bkt, b, heap) ← buddyFreeLoop node node bkt b m.heap
      let sz := intShl (sub64 (log2 b.max) bkt)
      let b := { b with available := add64 b.available sz }
      let heap ← buddyPushback heap (← freelistAt b bkt) (node2ptr b node bkt)
      let m ← { m with heap }.writePage (some page) fun _ => {}
      pure (b, m)

/-- Size of `buddy_area_t`, and the offset of its field `head`. -/
def BuddyArea.size : Nat := 64
def BuddyArea.headOffset : Nat := 48

/-- The loop that initialises `freelist[0 .. count)`. -/
def freelistInit (h : Heap) (freelist count : Nat) : Heap :=
  (List.range count).foldl (fun h i => listInit h (freelist + 16 * i)) h

/-- `alloc` is the `allocf_t` argument, with its state passed along; like
`mm_reserved_alloc` it hands out zeroed memory. The result carries the address of the new
structure. -/
def buddyAreaInit {σ : Type} (alloc : σ → Nat → Option Nat × σ) (st : σ) (h : Heap)
    (addr max : Nat) : Outcome (Option (Nat × BuddyArea) × Heap × σ) :=
  match alloc st BuddyArea.size with
  | (none, st) => .ok (none, h, st)
  | (some self, st) =>
    let b : BuddyArea :=
      { base := addr, tree := fun _ => 0, treeSz := 0, freelist := 0, min := PGSIZE, max,
        available := max }
    let treeSz := intShl (buddyMaxBucket b) / 1
    match alloc st treeSz with
    | (none, st) => .ok (none, h, st)
    | (some _, st) =>
      match alloc st (mul64 (buddyMaxBucket b) 16) with
      | (none, st) => .ok (none, h, st)
      | (some freelist, st) => do
        let b := { b with treeSz, freelist }
        let h := listInit h (self + BuddyArea.headOffset)
        let h := freelistInit h freelist (buddyMaxBucket b)
        let h ← buddyPushback h (← freelistAt b 0) addr
        pure (some (self, b), h, st)

end LunarOS
