import LunarOS.Buddy.Alloc
import LunarOS.Logic.Dyadic

/-!
# Geometry of the buddy tree

`Extent M b` holds the constants of an area of `2^M` bytes, `Sizes M b` those of an area of at
most 4 TiB, whose tree has a bit for every node, and `Shape M b` adds where its arrays lie; no
operation changes any of them. On such an area the word arithmetic of the source agrees with the
tree order: node `nodeOf k j` stands for the block of `2^(M - k)` bytes at `base + j * 2^(M - k)`,
at every level `k ≤ 30`.
-/

namespace LunarOS

open Logic

/-! ## Bits -/

namespace BuddyArea

/-- The effect of `node_set_split`. -/
def split (b : BuddyArea) (n : Nat) : BuddyArea :=
  b.setByte (n / 8) (b.tree (n / 8) ||| 1#8 <<< (n % 8))

/-- The effect of `node_parent_flip` on the bit of the parent. -/
def flip (b : BuddyArea) (n : Nat) : BuddyArea :=
  b.setByte (n / 8) (b.tree (n / 8) ^^^ 1#8 <<< (n % 8))

end BuddyArea

theorem byte_eq_iff {x n : Nat} (h : x / 8 = n / 8) : x % 8 = n % 8 ↔ x = n := by
  constructor
  · intro h'
    omega
  · rintro rfl
    rfl

theorem getLsbD_one_shift (i j : Nat) (hi : i < 8) :
    (1#8 <<< j).getLsbD i = decide (i = j) := by
  simp only [BitVec.getLsbD_shiftLeft, BitVec.getLsbD_one, hi, decide_true, Bool.true_and]
  by_cases hlt : i < j
  · simp [hlt, hlt.ne]
  · by_cases heq : i = j
    · simp [heq]
    · have hne : i - j ≠ 0 := by omega
      simp [hne, heq]

theorem bit_split (b : BuddyArea) (n x : Nat) :
    (b.split n).bit x = (b.bit x || decide (x = n)) := by
  unfold BuddyArea.split BuddyArea.setByte BuddyArea.bit
  by_cases h : x / 8 = n / 8
  · simp only [h, if_true, BitVec.getLsbD_or, getLsbD_one_shift _ _ (Nat.mod_lt x (by omega)),
      byte_eq_iff h]
  · have hne : x ≠ n := by
      rintro rfl
      exact h rfl
    simp [h, hne]

theorem bit_split_iff (b : BuddyArea) (n x : Nat) :
    (b.split n).bit x = true ↔ b.bit x = true ∨ x = n := by
  rw [bit_split, Bool.or_eq_true, decide_eq_true_eq]

/-- The split of a node leaves the other levels alone. -/
theorem bit_split_level (b : BuddyArea) {l e k j : Nat} (he : e < 2 ^ l) (hj : j < 2 ^ k)
    (hne : k ≠ l) : (b.split (nodeOf l e)).bit (nodeOf k j) = b.bit (nodeOf k j) := by
  have hNode : nodeOf k j ≠ nodeOf l e := fun hEq => hne (nodeOf_inj hj he hEq).1
  rw [bit_split, decide_eq_false hNode, Bool.or_false]

theorem bit_flip (b : BuddyArea) (n x : Nat) :
    (b.flip n).bit x = (b.bit x ^^ decide (x = n)) := by
  unfold BuddyArea.flip BuddyArea.setByte BuddyArea.bit
  by_cases h : x / 8 = n / 8
  · simp only [h, if_true, BitVec.getLsbD_xor, getLsbD_one_shift _ _ (Nat.mod_lt x (by omega)),
      byte_eq_iff h]
  · have hne : x ≠ n := by
      rintro rfl
      exact h rfl
    simp [h, hne]

theorem bit_flip_same (b : BuddyArea) (n : Nat) : (b.flip n).bit n = !b.bit n := by
  simp [bit_flip]

theorem bit_flip_other (b : BuddyArea) {n x : Nat} (h : x ≠ n) :
    (b.flip n).bit x = b.bit x := by
  simp [bit_flip, h]

/-! ## Shape -/

/-- The constants of an area of `2^M` bytes as `buddy_area_init` sets them. The size of the tree is
`1 << buddy_max_bucket(b)` on `int`, whatever `M` is. -/
structure Extent (M : Nat) (b : BuddyArea) : Prop where
  order_ge : 12 ≤ M
  order_le : M ≤ 63
  max_eq : b.max = 2 ^ M
  min_eq : b.min = PGSIZE
  treeSz_eq : b.treeSz = intShl (M - 11)
  end_le : b.base + 2 ^ M ≤ wordSize

/-- The constants of an area whose tree is large enough: from `2^43` bytes on the shift of
`buddy_area_init` has lost the size. -/
structure Sizes (M : Nat) (b : BuddyArea) : Prop where
  order_ge : 12 ≤ M
  order_le : M ≤ 42
  max_eq : b.max = 2 ^ M
  min_eq : b.min = PGSIZE
  treeSz_eq : b.treeSz = intShl (M - 11)
  end_le : b.base + 2 ^ M ≤ 2 ^ 62

/-- The fixed part of an area whose arena and list heads lie where they should. -/
structure Shape (M : Nat) (b : BuddyArea) : Prop extends Sizes M b where
  window : b.base + 2 ^ M ≤ dmSize
  heads_ge : VMM_KERNEL_START ≤ b.freelist
  heads_le : b.freelist + 16 * (M - 11) ≤ VMM_RESERVED_DM_START

namespace BuddyArea

/-- The fields that no operation changes. -/
def SameFrame (b b' : BuddyArea) : Prop :=
  b'.base = b.base ∧ b'.treeSz = b.treeSz ∧ b'.freelist = b.freelist ∧ b'.min = b.min ∧
    b'.max = b.max

theorem SameFrame.refl (b : BuddyArea) : SameFrame b b := ⟨rfl, rfl, rfl, rfl, rfl⟩

theorem SameFrame.trans {b b' b'' : BuddyArea} (h : SameFrame b b') (h' : SameFrame b' b'') :
    SameFrame b b'' := by
  unfold SameFrame at *
  omega

theorem split_sameFrame (b : BuddyArea) (n : Nat) : SameFrame b (b.split n) :=
  ⟨rfl, rfl, rfl, rfl, rfl⟩

theorem flip_sameFrame (b : BuddyArea) (n : Nat) : SameFrame b (b.flip n) :=
  ⟨rfl, rfl, rfl, rfl, rfl⟩

/-- The address of `b->freelist[k]`. -/
def headAt (b : BuddyArea) (k : Nat) : Nat := b.freelist + 16 * k

/-- Physical address of block `j` of level `k`. -/
def blockAt (b : BuddyArea) (M k j : Nat) : Nat := b.base + j * 2 ^ (M - k)

/-- Direct-map address of block `j` of level `k`, where its list node lies. -/
def entryAt (b : BuddyArea) (M k j : Nat) : Nat := b.blockAt M k j + VMM_RESERVED_DM_START

/-- Direct-map address of `base`, where every leftmost block has its list node. -/
def baseEntry (b : BuddyArea) : Nat := b.base + VMM_RESERVED_DM_START

@[simp] theorem blockAt_zero (b : BuddyArea) (M k : Nat) : b.blockAt M k 0 = b.base := by
  simp [blockAt]
@[simp] theorem entryAt_zero (b : BuddyArea) (M k : Nat) : b.entryAt M k 0 = b.baseEntry := by
  simp [entryAt, baseEntry]
@[simp] theorem split_headAt (b : BuddyArea) (n k : Nat) : (b.split n).headAt k = b.headAt k := rfl
@[simp] theorem flip_headAt (b : BuddyArea) (n k : Nat) : (b.flip n).headAt k = b.headAt k := rfl
@[simp] theorem split_blockAt (b : BuddyArea) (n M k j : Nat) :
    (b.split n).blockAt M k j = b.blockAt M k j := rfl
@[simp] theorem flip_blockAt (b : BuddyArea) (n M k j : Nat) :
    (b.flip n).blockAt M k j = b.blockAt M k j := rfl
@[simp] theorem split_entryAt (b : BuddyArea) (n M k j : Nat) :
    (b.split n).entryAt M k j = b.entryAt M k j := rfl

theorem SameFrame.headAt_eq {b b' : BuddyArea} (h : SameFrame b b') (k : Nat) :
    b'.headAt k = b.headAt k := by
  unfold headAt
  rw [h.2.2.1]

theorem SameFrame.blockAt_eq {b b' : BuddyArea} (h : SameFrame b b') (M k j : Nat) :
    b'.blockAt M k j = b.blockAt M k j := by
  unfold blockAt
  rw [h.1]

theorem SameFrame.entryAt_eq {b b' : BuddyArea} (h : SameFrame b b') (M k j : Nat) :
    b'.entryAt M k j = b.entryAt M k j := by
  unfold entryAt
  rw [h.blockAt_eq]

theorem SameFrame.baseEntry_eq {b b' : BuddyArea} (h : SameFrame b b') :
    b'.baseEntry = b.baseEntry := by
  unfold baseEntry
  rw [h.1]

theorem headAt_inj {b : BuddyArea} {k k' : Nat} : b.headAt k = b.headAt k' ↔ k = k' := by
  unfold headAt
  omega

end BuddyArea

open BuddyArea

/-- A block inside the arena ends inside it. -/
theorem block_end_le {M k j : Nat} (hk : k ≤ M) (hj : j < 2 ^ k) :
    j * 2 ^ (M - k) + 2 ^ (M - k) ≤ 2 ^ M := by
  calc j * 2 ^ (M - k) + 2 ^ (M - k) = (j + 1) * 2 ^ (M - k) := by ring
    _ ≤ 2 ^ k * 2 ^ (M - k) := Nat.mul_le_mul_right _ hj
    _ = 2 ^ M := by rw [← Nat.pow_add, Nat.add_sub_cancel' hk]

theorem two_pow_lt_word {k : Nat} (hk : k < 64) : 2 ^ k < wordSize :=
  Nat.pow_lt_pow_right (by omega) hk

/-- The two sizes fix the number of buckets. -/
theorem buddyMaxBucket_eq {M : Nat} {b : BuddyArea} (hGe : 12 ≤ M) (hLe : M ≤ 63)
    (hMax : b.max = 2 ^ M) (hMin : b.min = PGSIZE) : buddyMaxBucket b = M - 11 := by
  have hLogMin : log2 b.min = 12 := by rw [hMin]; exact log2_two_pow (m := 12) (by omega)
  unfold buddyMaxBucket
  rw [hMax, log2_two_pow (by omega), hLogMin, sub64_eq (by omega) (by unfold wordSize; omega),
    add64_eq (by unfold wordSize; omega)]
  omega

namespace Extent

variable {M : Nat} {b b' : BuddyArea}

theorem congr (h : Extent M b) (hf : SameFrame b b') : Extent M b' := by
  obtain ⟨hBase, hTree, hFree, hMin, hMax⟩ := hf
  exact ⟨h.order_ge, h.order_le, hMax.trans h.max_eq, hMin.trans h.min_eq,
    hTree.trans h.treeSz_eq, hBase ▸ h.end_le⟩

theorem log2_max (h : Extent M b) : log2 b.max = M := by
  have := h.order_le
  rw [h.max_eq, log2_two_pow (by omega)]

theorem maxBucket_eq (h : Extent M b) : buddyMaxBucket b = M - 11 :=
  buddyMaxBucket_eq h.order_ge h.order_le h.max_eq h.min_eq

theorem freelistAt_eq (h : Extent M b) {k : Nat} (hk : k < M - 11) :
    freelistAt b k = .ok (b.headAt k) := by
  unfold freelistAt
  rw [h.maxBucket_eq, if_pos hk]
  rfl

/-- `node2ptr` gives the start of the node's block, on the levels that `1 << bkt` can count. -/
theorem node2ptr_eq (h : Extent M b) {k j : Nat} (hk : k ≤ M) (hInt : k ≤ 30) (hj : j < 2 ^ k) :
    node2ptr b (nodeOf k j) k = b.blockAt M k j := by
  have hLe := h.order_le
  have hRoom := h.end_le
  have hEnd := block_end_le hk hj
  have hSize := Nat.two_pow_pos (M - k)
  have hPos := Nat.two_pow_pos k
  have hPow : 2 ^ k ≤ 2 ^ 30 := Nat.pow_le_pow_right (by omega) hInt
  have hIndex : add64 (sub64 (nodeOf k j) (intShl k)) 1 = j := by
    rw [intShl_eq hInt]
    unfold nodeOf
    rcases Nat.eq_zero_or_pos j with rfl | hj'
    · -- `node - 2^k` borrows on the leftmost node of the level
      rw [sub64_borrow (by omega) (by unfold wordSize; omega)]
      unfold add64 wordSize
      omega
    · rw [sub64_eq (by omega) (by unfold wordSize; omega),
        add64_eq (by unfold wordSize; omega)]
      omega
  unfold node2ptr blockAt
  rw [hIndex, h.log2_max, sub64_eq hk (by unfold wordSize; omega), shl64_eq (by omega) (by omega),
    add64_eq (by omega)]

/-- `ptr2node` gives the node of level `k` whose block holds the address. -/
theorem ptr2node_eq (h : Extent M b) {k off : Nat} (hk : k ≤ M) (hInt : k ≤ 30)
    (hoff : off < 2 ^ M) : ptr2node b (b.base + off) k = nodeOf k (off / 2 ^ (M - k)) := by
  have hGe := h.order_ge
  have hLe := h.order_le
  have hRoom := h.end_le
  have hPos := Nat.two_pow_pos k
  have hPow : 2 ^ k ≤ 2 ^ 30 := Nat.pow_le_pow_right (by omega) hInt
  have hQuot : off / 2 ^ (M - k) < 2 ^ k := by
    rw [Nat.div_lt_iff_lt_mul (Nat.two_pow_pos _), ← Nat.pow_add, Nat.add_sub_cancel' hk]
    exact hoff
  unfold ptr2node nodeOf
  generalize hq : off / 2 ^ (M - k) = q at hQuot
  rw [h.log2_max, sub64_eq hk (by unfold wordSize; omega),
    sub64_eq (by omega : b.base ≤ b.base + off) (by omega), Nat.add_sub_cancel_left,
    shr64_eq (by omega), hq, intShl_eq hInt, add64_eq (by unfold wordSize; omega),
    sub64_eq (by omega) (by unfold wordSize; omega)]
  omega

theorem ptr2node_block (h : Extent M b) {k j : Nat} (hk : k ≤ M) (hInt : k ≤ 30)
    (hj : j < 2 ^ k) : ptr2node b (b.blockAt M k j) k = nodeOf k j := by
  have hEnd := block_end_le hk hj
  have hPos := Nat.two_pow_pos (M - k)
  unfold blockAt
  rw [h.ptr2node_eq hk hInt (by omega), Nat.mul_div_cancel _ hPos]

end Extent

namespace Sizes

variable {M : Nat} {b b' : BuddyArea}

theorem extent (h : Sizes M b) : Extent M b := by
  have hLe := h.order_le
  have hEnd := h.end_le
  exact ⟨h.order_ge, by omega, h.max_eq, h.min_eq, h.treeSz_eq, by unfold wordSize; omega⟩

theorem congr (h : Sizes M b) (hf : SameFrame b b') : Sizes M b' := by
  obtain ⟨hBase, hTree, hFree, hMin, hMax⟩ := hf
  exact ⟨h.order_ge, h.order_le, hMax.trans h.max_eq, hMin.trans h.min_eq,
    hTree.trans h.treeSz_eq, hBase ▸ h.end_le⟩

theorem log2_max (h : Sizes M b) : log2 b.max = M := h.extent.log2_max

theorem maxBucket_eq (h : Sizes M b) : buddyMaxBucket b = M - 11 := h.extent.maxBucket_eq

theorem freelistAt_eq (h : Sizes M b) {k : Nat} (hk : k < M - 11) :
    freelistAt b k = .ok (b.headAt k) := h.extent.freelistAt_eq hk

theorem freelistAt_error (h : Sizes M b) {k : Nat} (hk : M - 11 ≤ k) :
    freelistAt b k = .error (.fault (.bucket k)) := by
  unfold freelistAt
  rw [h.maxBucket_eq, if_neg (by omega)]

/-- In the largest area the shift gives a negative number, which is a large size. -/
theorem treeSz_ge (h : Sizes M b) : 2 ^ (M - 11) ≤ b.treeSz := by
  have hLe := h.order_le
  rw [h.treeSz_eq]
  rcases Nat.lt_or_ge (M - 11) 31 with hSmall | hLarge
  · exact (intShl_eq (by omega)).ge
  · rw [show M - 11 = 31 by omega]
    decide

/-- Every node of every level lies in the bytes of the tree. -/
theorem node_in_tree (h : Sizes M b) {k j : Nat} (hk : k ≤ M - 12) (hj : j < 2 ^ k) :
    nodeOf k j / 8 < b.treeSz := by
  have hGe := h.order_ge
  have hLt := nodeOf_lt hj
  have hPow : 2 ^ (k + 1) ≤ 2 ^ (M - 11) := Nat.pow_le_pow_right (by omega) (by omega)
  have hTree := h.treeSz_ge
  omega

theorem isSplit_eq (h : Sizes M b) {k j : Nat} (hk : k ≤ M - 12) (hj : j < 2 ^ k) :
    nodeIsSplit b (nodeOf k j) = .ok (b.bit (nodeOf k j)) := if_pos (h.node_in_tree hk hj)

theorem setSplit_eq (h : Sizes M b) {k j : Nat} (hk : k ≤ M - 12) (hj : j < 2 ^ k) :
    nodeSetSplit b (nodeOf k j) = .ok (b.split (nodeOf k j)) := if_pos (h.node_in_tree hk hj)

end Sizes

/-! ## Node numbers in machine words -/

section Words

variable {k j : Nat}

private theorem node_small (hk : k ≤ 31) (hj : j < 2 ^ k) : nodeOf k j < 2 ^ 32 := by
  have hLt := nodeOf_lt hj
  have hPow : 2 ^ (k + 1) ≤ 2 ^ 32 := Nat.pow_le_pow_right (by omega) (by omega)
  omega

theorem nodeLeft_eq (hk : k ≤ 31) (hj : j < 2 ^ k) :
    nodeLeft (nodeOf k j) = nodeOf (k + 1) (2 * j) := by
  have hSmall := node_small hk hj
  unfold nodeLeft
  rw [mul64_eq (by unfold wordSize; omega), add64_eq (by unfold wordSize; omega), nodeOf_left]

theorem nodeRight_eq (hk : k ≤ 31) (hj : j < 2 ^ k) :
    nodeRight (nodeOf k j) = nodeOf (k + 1) (2 * j + 1) := by
  have hSmall := node_small hk hj
  unfold nodeRight
  rw [mul64_eq (by unfold wordSize; omega), add64_eq (by unfold wordSize; omega), nodeOf_right]

theorem nodeParent_eq (hk : k + 1 ≤ 31) (hj : j < 2 ^ (k + 1)) :
    nodeParent (nodeOf (k + 1) j) = nodeOf k (j / 2) := by
  have hSmall := node_small hk hj
  have hPos := nodeOf_pos (by omega : 0 < k + 1) j
  unfold nodeParent
  rw [sub64_eq hPos (by unfold wordSize; omega), nodeOf_parent]

theorem nodeSibling_eq (hk : k + 1 ≤ 31) (hj : j < 2 ^ (k + 1)) :
    nodeSibling (nodeOf (k + 1) j) = nodeOf (k + 1) (j ^^^ 1) := by
  have hSmall := node_small hk (xor_one_lt hj)
  have hSmall' := node_small hk hj
  have hPos := nodeOf_pos (by omega : 0 < k + 1) j
  unfold nodeSibling
  rw [sub64_eq hPos (by unfold wordSize; omega), add64_eq]
  · exact nodeOf_sibling k j
  · rw [nodeOf_sibling]
    unfold wordSize
    omega

end Words

namespace Sizes

variable {M : Nat} {b : BuddyArea}

theorem parentFlip_eq (h : Sizes M b) {k j : Nat} (hk : k + 1 ≤ M - 12) (hj : j < 2 ^ (k + 1)) :
    nodeParentFlip b (nodeOf (k + 1) j) = .ok (b.flip (nodeOf k (j / 2))) := by
  have hLe := h.order_le
  have hHalf : j / 2 < 2 ^ k := by rw [Nat.pow_succ] at hj; omega
  unfold nodeParentFlip
  rw [nodeParent_eq (by omega) hj]
  exact if_pos (h.node_in_tree (by omega) hHalf)

theorem node2ptr_eq (h : Sizes M b) {k j : Nat} (hk : k ≤ M - 12) (hj : j < 2 ^ k) :
    node2ptr b (nodeOf k j) k = b.blockAt M k j := by
  have hLe := h.order_le
  exact h.extent.node2ptr_eq (by omega) (by omega) hj

theorem ptr2node_eq (h : Sizes M b) {k off : Nat} (hk : k ≤ M - 12) (hoff : off < 2 ^ M) :
    ptr2node b (b.base + off) k = nodeOf k (off / 2 ^ (M - k)) := by
  have hLe := h.order_le
  exact h.extent.ptr2node_eq (by omega) (by omega) hoff

theorem ptr2node_block (h : Sizes M b) {k j : Nat} (hk : k ≤ M - 12) (hj : j < 2 ^ k) :
    ptr2node b (b.blockAt M k j) k = nodeOf k j := by
  have hLe := h.order_le
  exact h.extent.ptr2node_block (by omega) (by omega) hj

end Sizes

namespace Shape

variable {M : Nat} {b b' : BuddyArea}

theorem congr (h : Shape M b) (hf : SameFrame b b') : Shape M b' := by
  have hSizes := h.toSizes.congr hf
  obtain ⟨hBase, -, hFree, -, -⟩ := hf
  exact ⟨hSizes, hBase ▸ h.window, hFree ▸ h.heads_ge, hFree ▸ h.heads_le⟩

theorem phys2virt_block (h : Shape M b) {k j : Nat} (hk : k ≤ M - 12) (hj : j < 2 ^ k) :
    vmmPhys2virt (b.blockAt M k j) = b.entryAt M k j := by
  have hGe := h.order_ge
  have hWindow := h.window
  have hEnd := block_end_le (by omega : k ≤ M) hj
  have hSize := Nat.two_pow_pos (M - k)
  unfold entryAt
  apply vmmPhys2virt_eq
  unfold blockAt
  omega

/-- List heads and list entries lie in different windows. -/
theorem head_ne_entry (h : Shape M b) {k : Nat} (hk : k < M - 11) (k' j : Nat) :
    b.headAt k ≠ b.entryAt M k' j := by
  have hLe := h.heads_le
  unfold headAt entryAt
  omega

end Shape

end LunarOS
