import LunarOS.Machine.List
import LunarOS.Machine.Vmm

/-!
# The buddy area and its bit tree (`buddy.h`, first half of `buddy.c`)

An area manages `max` bytes from `base` in blocks of `max / 2^k` bytes, one bucket for each
`k`. The nodes of a binary tree, numbered level by level from the root `0`, stand for the
blocks; one bit for each internal node is packed into the bytes of `tree`.
-/

namespace LunarOS

/-- `buddy_area_t`. `tree` has `treeSz` bytes; the embedded list node `head` lives in the
heap. -/
structure BuddyArea where
  base : Nat
  tree : Nat → BitVec 8
  treeSz : Nat
  freelist : Nat
  min : Nat
  max : Nat
  available : Nat

def nodeParent (i : Nat) : Nat := sub64 i 1 / 2
def nodeLeft (i : Nat) : Nat := add64 (mul64 i 2) 1
def nodeRight (i : Nat) : Nat := add64 (mul64 i 2) 2
def nodeSibling (i : Nat) : Nat := add64 (sub64 i 1 ^^^ 1) 1

namespace BuddyArea

/-- The bit of `node`, wherever it lies. -/
def bit (b : BuddyArea) (node : Nat) : Bool := (b.tree (node / 8)).getLsbD (node % 8)

/-- `tree[byte] = v` -/
def setByte (b : BuddyArea) (byte : Nat) (v : BitVec 8) : BuddyArea :=
  { b with tree := fun i => if i = byte then v else b.tree i }

end BuddyArea

def nodeIsSplit (b : BuddyArea) (node : Nat) : Outcome Bool :=
  if node / 8 < b.treeSz then .ok (b.bit node) else .error (.fault (.tree (node / 8)))

def nodeSetSplit (b : BuddyArea) (node : Nat) : Outcome BuddyArea :=
  if node / 8 < b.treeSz then
    .ok (b.setByte (node / 8) (b.tree (node / 8) ||| 1#8 <<< (node % 8)))
  else .error (.fault (.tree (node / 8)))

def nodeParentFlip (b : BuddyArea) (node : Nat) : Outcome BuddyArea :=
  let parent := nodeParent node
  if parent / 8 < b.treeSz then
    .ok (b.setByte (parent / 8) (b.tree (parent / 8) ^^^ 1#8 <<< (parent % 8)))
  else .error (.fault (.tree (parent / 8)))

def node2ptr (b : BuddyArea) (node bkt : Nat) : Nat :=
  add64 b.base (shl64 (add64 (sub64 node (intShl bkt)) 1) (sub64 (log2 b.max) bkt))

def ptr2node (b : BuddyArea) (page bkt : Nat) : Nat :=
  sub64 (add64 (shr64 (sub64 page b.base) (sub64 (log2 b.max) bkt)) (intShl bkt)) 1

def buddyMaxBucket (b : BuddyArea) : Nat := add64 (sub64 (log2 b.max) (log2 b.min)) 1

/-- `&b->freelist[bkt]` -/
def freelistAt (b : BuddyArea) (bkt : Nat) : Outcome Nat :=
  if bkt < buddyMaxBucket b then .ok (b.freelist + 16 * bkt)
  else .error (.fault (.bucket bkt))

end LunarOS
