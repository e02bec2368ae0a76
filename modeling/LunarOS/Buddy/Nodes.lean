import LunarOS.Buddy.Geometry
import LunarOS.Logic.Blocks
import Mathlib.Data.Set.Function

/-!
# Nodes and their blocks

`tree_geometry` says what the index arithmetic of `buddy.c` and the tree macros of `buddy.h`
mean on an area of `2^M` bytes, `M ≤ 42`: the nodes of a level stand for the blocks of one size
that tile the arena, and the tree of the nodes is the tree of their blocks by inclusion.
-/

namespace LunarOS

open Logic BuddyArea

/-- The nodes of a level. -/
def levelNodes (bkt : Nat) : Set Nat := Set.Ico (2 ^ bkt - 1) (2 ^ (bkt + 1) - 1)

/-- The starts of the blocks of a level. -/
def blockStarts (b : BuddyArea) (M bkt : Nat) : Set Nat :=
  {p | ∃ j < 2 ^ bkt, p = b.base + j * 2 ^ (M - bkt)}

/-- The bytes that a node of the level stands for. -/
def nodeBlock (b : BuddyArea) (M bkt node : Nat) : Span := ⟨node2ptr b node bkt, 2 ^ (M - bkt)⟩

/-- A size and a base, all that the tree arithmetic reads. -/
structure Arena (M : Nat) (b : BuddyArea) : Prop where
  order_ge : 12 ≤ M
  order_le : M ≤ 42
  max_eq : b.max = 2 ^ M
  end_le : b.base + b.max < wordSize

theorem mem_levelNodes {bkt n : Nat} :
    n ∈ levelNodes bkt ↔ ∃ j, j < 2 ^ bkt ∧ n = nodeOf bkt j := by
  constructor
  · rintro ⟨hLow, hHigh⟩
    exact exists_nodeOf hLow hHigh
  · rintro ⟨j, hj, rfl⟩
    exact ⟨Nat.le_add_right _ _, nodeOf_lt hj⟩

/-! ## The macros on the levels -/

theorem child_mem {bkt n : Nat} (hBkt : bkt ≤ 30) (hn : n ∈ levelNodes bkt) :
    nodeLeft n ∈ levelNodes (bkt + 1) ∧ nodeRight n ∈ levelNodes (bkt + 1) := by
  obtain ⟨j, hj, rfl⟩ := mem_levelNodes.mp hn
  rw [nodeLeft_eq (by omega) hj, nodeRight_eq (by omega) hj]
  rw [mem_levelNodes, mem_levelNodes, Nat.pow_succ]
  exact ⟨⟨_, by omega, rfl⟩, ⟨_, by omega, rfl⟩⟩

theorem parent_child {bkt n : Nat} (hBkt : bkt ≤ 30) (hn : n ∈ levelNodes bkt) :
    nodeParent (nodeLeft n) = n ∧ nodeParent (nodeRight n) = n := by
  obtain ⟨j, hj, rfl⟩ := mem_levelNodes.mp hn
  have hNext : 2 ^ (bkt + 1) = 2 ^ bkt * 2 := Nat.pow_succ ..
  have hHalf : (2 * j + 1) / 2 = j := by omega
  rw [nodeLeft_eq (by omega) hj, nodeRight_eq (by omega) hj,
    nodeParent_eq (by omega) (by omega), nodeParent_eq (by omega) (by omega),
    Nat.mul_div_cancel_left j (by omega), hHalf]
  exact ⟨rfl, rfl⟩

theorem sibling_child {bkt n : Nat} (hBkt : bkt ≤ 30) (hn : n ∈ levelNodes bkt) :
    nodeSibling (nodeLeft n) = nodeRight n ∧ nodeSibling (nodeRight n) = nodeLeft n := by
  obtain ⟨j, hj, rfl⟩ := mem_levelNodes.mp hn
  have hNext : 2 ^ (bkt + 1) = 2 ^ bkt * 2 := Nat.pow_succ ..
  have hLeft : 2 * j ^^^ 1 = 2 * j + 1 := by
    rw [xor_one_eq, if_pos (by omega)]
  have hRight : (2 * j + 1) ^^^ 1 = 2 * j := by
    rw [xor_one_eq, if_neg (by omega), Nat.add_sub_cancel]
  rw [nodeLeft_eq (by omega) hj, nodeRight_eq (by omega) hj,
    nodeSibling_eq (by omega) (by omega), nodeSibling_eq (by omega) (by omega), hLeft, hRight]
  exact ⟨rfl, rfl⟩

/-- `d` steps up from level `bkt + d`. -/
theorem nodeParent_iterate {bkt d j : Nat} (hBkt : bkt + d ≤ 31) (hj : j < 2 ^ (bkt + d)) :
    nodeParent^[d] (nodeOf (bkt + d) j) = nodeOf bkt (j / 2 ^ d) := by
  induction d generalizing j with
  | zero => rw [Nat.pow_zero, Nat.div_one]; rfl
  | succ d ih =>
    have hHalf : j / 2 < 2 ^ (bkt + d) := by
      rw [← Nat.add_assoc, Nat.pow_succ] at hj
      omega
    rw [Function.iterate_succ_apply, ← Nat.add_assoc,
      nodeParent_eq (k := bkt + d) (by omega) hj,
      ih (by omega) hHalf, Nat.div_div_eq_div_mul, Nat.pow_succ']

namespace Arena

variable {M : Nat} {b : BuddyArea}

/-- The tree arithmetic does not see the other fields. -/
theorem extent (h : Arena M b) :
    Extent M { b with min := PGSIZE, treeSz := intShl (M - 11) } := by
  have hLe := h.order_le
  have hEnd := h.end_le
  rw [h.max_eq] at hEnd
  exact ⟨h.order_ge, by omega, h.max_eq, rfl, rfl, hEnd.le⟩

theorem node2ptr_eq (h : Arena M b) {k j : Nat} (hk : k ≤ M - 12) (hj : j < 2 ^ k) :
    node2ptr b (nodeOf k j) k = b.base + j * 2 ^ (M - k) := by
  have hLe := h.order_le
  exact h.extent.node2ptr_eq (by omega) (by omega) hj

theorem ptr2node_eq (h : Arena M b) {k j : Nat} (hk : k ≤ M - 12) (hj : j < 2 ^ k) :
    ptr2node b (b.base + j * 2 ^ (M - k)) k = nodeOf k j := by
  have hLe := h.order_le
  exact h.extent.ptr2node_block (by omega) (by omega) hj

theorem nodeBlock_eq (h : Arena M b) {k j : Nat} (hk : k ≤ M - 12) (hj : j < 2 ^ k) :
    nodeBlock b M k (nodeOf k j) = block b.base M k j := by
  unfold nodeBlock block
  rw [h.node2ptr_eq hk hj]

theorem ptr2node_node2ptr (h : Arena M b) {bkt n : Nat} (hBkt : bkt ≤ M - 12)
    (hn : n ∈ levelNodes bkt) : ptr2node b (node2ptr b n bkt) bkt = n := by
  obtain ⟨j, hj, rfl⟩ := mem_levelNodes.mp hn
  rw [h.node2ptr_eq hBkt hj, h.ptr2node_eq hBkt hj]

theorem node2ptr_bijOn (h : Arena M b) {bkt : Nat} (hBkt : bkt ≤ M - 12) :
    Set.BijOn (fun n => node2ptr b n bkt) (levelNodes bkt) (blockStarts b M bkt) := by
  refine ⟨?_, ?_, ?_⟩
  · intro n hn
    obtain ⟨j, hj, rfl⟩ := mem_levelNodes.mp hn
    exact ⟨j, hj, h.node2ptr_eq hBkt hj⟩
  · intro n hn n' hn' hSame
    rw [← h.ptr2node_node2ptr hBkt hn, ← h.ptr2node_node2ptr hBkt hn']
    exact congrArg (ptr2node b · bkt) hSame
  · rintro p ⟨j, hj, rfl⟩
    exact ⟨nodeOf bkt j, mem_levelNodes.mpr ⟨j, hj, rfl⟩, h.node2ptr_eq hBkt hj⟩

/-- A child starts with its parent, or half a parent later. -/
theorem child_starts (h : Arena M b) {bkt n : Nat} (hBkt : bkt ≤ M - 12) (hInt : bkt + 1 ≤ 30)
    (hn : n ∈ levelNodes bkt) :
    node2ptr b (nodeLeft n) (bkt + 1) = node2ptr b n bkt ∧
      node2ptr b (nodeRight n) (bkt + 1) = node2ptr b n bkt + 2 ^ (M - bkt) / 2 := by
  have hGe := h.order_ge
  obtain ⟨j, hj, rfl⟩ := mem_levelNodes.mp hn
  have hNext : 2 ^ (bkt + 1) = 2 ^ bkt * 2 := Nat.pow_succ ..
  have hHalf : 2 ^ (M - bkt) / 2 = 2 ^ (M - (bkt + 1)) := by
    rw [half_size (by omega)]
    omega
  -- a child of the last level is no node of the tree, but its block is still defined
  have hStart {i : Nat} (hi : i < 2 ^ (bkt + 1)) :
      node2ptr b (nodeOf (bkt + 1) i) (bkt + 1) = (block b.base M (bkt + 1) i).start :=
    h.extent.node2ptr_eq (by omega) hInt hi
  rw [nodeLeft_eq (by omega) hj, nodeRight_eq (by omega) hj, hStart (by omega),
    hStart (by omega), h.node2ptr_eq hBkt hj, hHalf]
  exact ⟨block_left b.base (by omega) j, block_right b.base (by omega) j⟩

theorem nodeBlock_within (h : Arena M b) {bkt n : Nat} (hBkt : bkt ≤ M - 12)
    (hn : n ∈ levelNodes bkt) : (nodeBlock b M bkt n).Within ⟨b.base, b.max⟩ := by
  obtain ⟨j, hj, rfl⟩ := mem_levelNodes.mp hn
  have hEnd := block_end_le (by omega : bkt ≤ M) hj
  rw [h.nodeBlock_eq hBkt hj, h.max_eq]
  unfold Span.Within block
  dsimp only
  omega

/-- Every byte of the arena lies in the block of one node of each level. -/
theorem existsUnique_node (h : Arena M b) {bkt x : Nat} (hBkt : bkt ≤ M - 12)
    (hLow : b.base ≤ x) (hHigh : x < b.base + b.max) :
    ∃! n, n ∈ levelNodes bkt ∧ x ∈ (nodeBlock b M bkt n).bytes := by
  have hSize := Nat.two_pow_pos (M - bkt)
  have hIndex : (x - b.base) / 2 ^ (M - bkt) < 2 ^ bkt := by
    rw [Nat.div_lt_iff_lt_mul hSize, ← Nat.pow_add, Nat.add_sub_cancel' (by omega), ← h.max_eq]
    omega
  refine ⟨nodeOf bkt ((x - b.base) / 2 ^ (M - bkt)), ⟨mem_levelNodes.mpr ⟨_, hIndex, rfl⟩, ?_⟩, ?_⟩
  · have hDiv := Nat.div_add_mod' (x - b.base) (2 ^ (M - bkt))
    have hMod := Nat.mod_lt (x - b.base) hSize
    rw [h.nodeBlock_eq hBkt hIndex, Span.bytes, Finset.mem_Ico]
    unfold block
    dsimp only
    omega
  · rintro n ⟨hn, hx⟩
    obtain ⟨j, hj, rfl⟩ := mem_levelNodes.mp hn
    rw [h.nodeBlock_eq hBkt hj, Span.bytes, Finset.mem_Ico] at hx
    unfold block at hx
    dsimp only at hx
    have hSame : (x - b.base) / 2 ^ (M - bkt) = j := by
      rw [Nat.div_eq_iff hSize]
      omega
    rw [hSame]

/-- The block of a node and the one of a node on a lower level. -/
theorem nested_or_apart (h : Arena M b) {k d n n' : Nat} (hd : k + d ≤ M - 12)
    (hn : n ∈ levelNodes k) (hn' : n' ∈ levelNodes (k + d)) :
    (nodeParent^[d] n' = n ∧ (nodeBlock b M (k + d) n').Within (nodeBlock b M k n)) ∨
      (nodeBlock b M (k + d) n').Apart (nodeBlock b M k n) := by
  have hLe := h.order_le
  obtain ⟨j, hj, rfl⟩ := mem_levelNodes.mp hn
  obtain ⟨j', hj', rfl⟩ := mem_levelNodes.mp hn'
  rw [h.nodeBlock_eq (by omega) hj, h.nodeBlock_eq hd hj', nodeParent_iterate (by omega) hj']
  rcases within_or_apart b.base (by omega : k + d ≤ M) j j' with ⟨hUp, hWithin⟩ | hApart
  · exact Or.inl ⟨by rw [hUp], hWithin⟩
  · exact Or.inr hApart

/-- On `int`, `1 << 31` is negative: of an area of `2^42` bytes the last level is the only one
below which no block is asked for, and it is the level of the leaves. -/
theorem tree_geometry (h : Arena M b) :
    (∀ bkt ≤ M - 12, ∀ n ∈ levelNodes bkt,
      ptr2node b (node2ptr b n bkt) bkt = n ∧
      (nodeParent (nodeLeft n) = n ∧ nodeParent (nodeRight n) = n) ∧
      (nodeSibling (nodeLeft n) = nodeRight n ∧ nodeSibling (nodeRight n) = nodeLeft n) ∧
      (nodeLeft n ∈ levelNodes (bkt + 1) ∧ nodeRight n ∈ levelNodes (bkt + 1)) ∧
      (bkt < M - 12 ∨ M < 42 →
        node2ptr b (nodeLeft n) (bkt + 1) = node2ptr b n bkt ∧
        node2ptr b (nodeRight n) (bkt + 1) = node2ptr b n bkt + 2 ^ (M - bkt) / 2)) ∧
    (∀ bkt ≤ M - 12,
      Set.BijOn (fun n => node2ptr b n bkt) (levelNodes bkt) (blockStarts b M bkt) ∧
      (∀ n ∈ levelNodes bkt, (nodeBlock b M bkt n).Within ⟨b.base, b.max⟩) ∧
      ∀ x, b.base ≤ x → x < b.base + b.max →
        ∃! n, n ∈ levelNodes bkt ∧ x ∈ (nodeBlock b M bkt n).bytes) ∧
    (∀ k ≤ M - 12, ∀ k' ≤ M - 12, ∀ n ∈ levelNodes k, ∀ n' ∈ levelNodes k',
      (k ≤ k' ∧ nodeParent^[k' - k] n' = n ∧
        (nodeBlock b M k' n').Within (nodeBlock b M k n)) ∨
      (k' ≤ k ∧ nodeParent^[k - k'] n = n' ∧
        (nodeBlock b M k n).Within (nodeBlock b M k' n')) ∨
      (nodeBlock b M k n).Apart (nodeBlock b M k' n')) := by
  have hLe := h.order_le
  refine ⟨?_, ?_, ?_⟩
  · intro bkt hBkt n hn
    have hInt : bkt ≤ 30 := by omega
    exact ⟨h.ptr2node_node2ptr hBkt hn, parent_child hInt hn, sibling_child hInt hn,
      child_mem hInt hn, fun hLast => h.child_starts hBkt (by omega) hn⟩
  · intro bkt hBkt
    exact ⟨h.node2ptr_bijOn hBkt, fun n hn => h.nodeBlock_within hBkt hn,
      fun x hLow hHigh => h.existsUnique_node hBkt hLow hHigh⟩
  · intro k hk k' hk' n hn n' hn'
    rcases Nat.le_total k k' with hle | hle
    · obtain ⟨d, rfl⟩ := Nat.exists_eq_add_of_le hle
      rw [Nat.add_sub_cancel_left]
      rcases h.nested_or_apart hk' hn hn' with hIn | hApart
      · exact Or.inl ⟨hle, hIn⟩
      · exact Or.inr (Or.inr hApart.symm)
    · obtain ⟨d, rfl⟩ := Nat.exists_eq_add_of_le hle
      rw [Nat.add_sub_cancel_left]
      rcases h.nested_or_apart hk hn' hn with hIn | hApart
      · exact Or.inr (Or.inl ⟨hle, hIn⟩)
      · exact Or.inr (Or.inr hApart)

end Arena

/-- The largest area of the statement, 4 TiB from `2^42`. -/
def wideArea : BuddyArea where
  base := 2 ^ 42
  tree := fun _ => 0
  treeSz := 0
  freelist := 0
  min := PGSIZE
  max := 2 ^ 42
  available := 2 ^ 42

theorem tree_geometry_sample :
    ptr2node wideArea (node2ptr wideArea (2 ^ 30) 30) 30 = 2 ^ 30 ∧
      Set.BijOn (fun n => node2ptr wideArea n 30) (levelNodes 30) (blockStarts wideArea 42 30) := by
  have hArena : Arena 42 wideArea := ⟨by decide, by decide, rfl, by decide⟩
  have hNode : 2 ^ 30 ∈ levelNodes 30 := ⟨by decide, by decide⟩
  exact ⟨(hArena.tree_geometry.1 30 (by decide) _ hNode).1,
    (hArena.tree_geometry.2.1 30 (by decide)).1⟩

end LunarOS
