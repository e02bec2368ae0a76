import LunarOS.Logic.Dyadic

/-!
# Blocks of a binary tree

The node `(k, j)` of a tree over `2^M` bytes from `base` stands for the `j`-th block of
`2^(M - k)` bytes. A `Descent` leads from a node down to one below it and may peel off the
sibling of every node it enters:

* `Descent.within`, `Descent.apart`: the blocks peeled off and the one reached lie in the first
  block and are disjoint;
* `Descent.tiles`: when no sibling is left out they make up the whole of it.
-/

namespace LunarOS.Logic

/-- Block `j` of level `k`. -/
def block (base M k j : Nat) : Span := ⟨base + j * 2 ^ (M - k), 2 ^ (M - k)⟩

section

variable {base M k j c : Nat}

theorem half_size (hk : k < M) : 2 ^ (M - k) = 2 * 2 ^ (M - (k + 1)) := by
  rw [show M - k = M - (k + 1) + 1 by omega, Nat.pow_succ, Nat.mul_comm]

/-- The two children of a node by the parity of one of them. -/
theorem child_cases (c : Nat) :
    (c = 2 * (c / 2) ∧ c ^^^ 1 = 2 * (c / 2) + 1) ∨
      (c = 2 * (c / 2) + 1 ∧ c ^^^ 1 = 2 * (c / 2)) := by
  rw [xor_one_eq]
  split <;> omega

theorem xor_one_half (c : Nat) : (c ^^^ 1) / 2 = c / 2 := by
  rcases child_cases c with ⟨-, h⟩ | ⟨-, h⟩ <;> rw [h] <;> omega

/-- A child starts with its parent, or half a parent later. -/
theorem block_left (base : Nat) (hk : k < M) (j : Nat) :
    (block base M (k + 1) (2 * j)).start = (block base M k j).start := by
  unfold block
  rw [half_size hk]
  ring

theorem block_right (base : Nat) (hk : k < M) (j : Nat) :
    (block base M (k + 1) (2 * j + 1)).start =
      (block base M k j).start + 2 ^ (M - (k + 1)) := by
  unfold block
  rw [half_size hk]
  ring

theorem siblings_apart (base : Nat) (hk : k < M) (c : Nat) :
    (block base M (k + 1) c).Apart (block base M (k + 1) (c ^^^ 1)) := by
  have hLeft := block_left base hk (c / 2)
  have hRight := block_right base hk (c / 2)
  have hLen : ∀ i, (block base M (k + 1) i).len = 2 ^ (M - (k + 1)) := fun _ => rfl
  unfold Span.Apart
  rcases child_cases c with ⟨hc, hx⟩ | ⟨hc, hx⟩
  · rw [hx, hLen, hLen]
    rw [← hc] at hLeft
    omega
  · rw [hx, hLen, hLen]
    rw [← hc] at hRight
    omega

theorem child_within (hk : k < M) (c : Nat) :
    (block base M (k + 1) c).Within (block base M k (c / 2)) := by
  have hLeft := block_left base hk (c / 2)
  have hRight := block_right base hk (c / 2)
  have hHalf := half_size hk
  have hLen : (block base M (k + 1) c).len = 2 ^ (M - (k + 1)) := rfl
  have hParent : (block base M k (c / 2)).len = 2 ^ (M - k) := rfl
  unfold Span.Within
  rcases child_cases c with ⟨hc, -⟩ | ⟨hc, -⟩
  · rw [← hc] at hLeft
    omega
  · rw [← hc] at hRight
    omega

/-- Two siblings make up their parent. -/
theorem siblings_bytes (hk : k < M) (c : Nat) :
    (block base M (k + 1) c).bytes ∪ (block base M (k + 1) (c ^^^ 1)).bytes =
      (block base M k (c / 2)).bytes := by
  have hLeft := block_left base hk (c / 2)
  have hRight := block_right base hk (c / 2)
  have hHalf := half_size hk
  have hLen : ∀ i, (block base M (k + 1) i).len = 2 ^ (M - (k + 1)) := fun _ => rfl
  have hParent : (block base M k (c / 2)).len = 2 ^ (M - k) := rfl
  ext x
  simp only [Finset.mem_union, Span.bytes, Finset.mem_Ico, hLen, hParent]
  rcases child_cases c with ⟨hc, hx⟩ | ⟨hc, hx⟩
  · rw [hx]
    rw [← hc] at hLeft
    omega
  · rw [hx]
    rw [← hc] at hRight
    omega

/-- Different blocks of a level. -/
theorem blocks_apart (base M k : Nat) {i j : Nat} (h : i ≠ j) :
    (block base M k i).Apart (block base M k j) := by
  unfold Span.Apart block
  rcases Nat.lt_or_gt_of_ne h with hlt | hlt
  · left
    have hStep : (i + 1) * 2 ^ (M - k) ≤ j * 2 ^ (M - k) := Nat.mul_le_mul_right _ hlt
    rw [Nat.add_mul] at hStep
    dsimp only
    omega
  · right
    have hStep : (j + 1) * 2 ^ (M - k) ≤ i * 2 ^ (M - k) := Nat.mul_le_mul_right _ hlt
    rw [Nat.add_mul] at hStep
    dsimp only
    omega

theorem Span.Within.trans {a b d : Span} (h : a.Within b) (h' : b.Within d) : a.Within d := by
  unfold Span.Within at *
  omega

/-- What lies in one of two disjoint spans is apart from the other. -/
theorem Span.Within.apart {a b d : Span} (h : a.Within b) (h' : b.Apart d) : a.Apart d := by
  unfold Span.Within Span.Apart at *
  omega

/-- A block lies in the one `d` levels up. -/
theorem ancestor_within (base : Nat) {d : Nat} (h : k + d ≤ M) (c : Nat) :
    (block base M (k + d) c).Within (block base M k (c / 2 ^ d)) := by
  induction d generalizing c with
  | zero =>
    rw [Nat.pow_zero, Nat.div_one]
    exact ⟨Nat.le_refl _, Nat.le_refl _⟩
  | succ d ih =>
    rw [Nat.pow_succ', ← Nat.div_div_eq_div_mul]
    exact (child_within (k := k + d) (by omega) c).trans (ih (by omega) (c / 2))

/-- Of two blocks the smaller lies in the other, or they share no byte. -/
theorem within_or_apart (base : Nat) {d : Nat} (h : k + d ≤ M) (j c : Nat) :
    (c / 2 ^ d = j ∧ (block base M (k + d) c).Within (block base M k j)) ∨
      (block base M (k + d) c).Apart (block base M k j) := by
  have hWithin := ancestor_within base h c
  by_cases hc : c / 2 ^ d = j
  · subst hc
    exact Or.inl ⟨rfl, hWithin⟩
  · exact Or.inr (hWithin.apart (blocks_apart base M k hc))

end

/-- From node `(k, j)` down to `(k', j')`, peeling off the nodes of the list. -/
inductive Descent : Nat → Nat → List (Nat × Nat) → Nat → Nat → Prop
  | here (k j : Nat) : Descent k j [] k j
  | pass {k c k' j' : Nat} {l : List (Nat × Nat)} :
      Descent (k + 1) c l k' j' → Descent k (c / 2) l k' j'
  | peel {k c k' j' : Nat} {l : List (Nat × Nat)} :
      Descent (k + 1) c l k' j' → Descent k (c / 2) ((k + 1, c ^^^ 1) :: l) k' j'

namespace Descent

variable {k j k' j' : Nat} {l : List (Nat × Nat)}

theorem level (h : Descent k j l k' j') : k + l.length ≤ k' := by
  induction h with
  | here => simp
  | pass _ ih => omega
  | peel _ ih =>
    rw [List.length_cons]
    omega

theorem trans {k'' j'' : Nat} {l' : List (Nat × Nat)} (h : Descent k j l k' j')
    (h' : Descent k' j' l' k'' j'') : Descent k j (l ++ l') k'' j'' := by
  induction h with
  | here => exact h'
  | pass _ ih => exact .pass (ih h')
  | peel _ ih => exact .peel (ih h')

/-- Going down, the index stays inside its level. -/
theorem index_lt (h : Descent k j l k' j') (hEnd : j' < 2 ^ k') :
    j < 2 ^ k ∧ ∀ kj ∈ l, kj.2 < 2 ^ kj.1 := by
  induction h with
  | here => exact ⟨hEnd, by simp⟩
  | pass _ ih =>
    obtain ⟨hc, hAll⟩ := ih hEnd
    rw [Nat.pow_succ] at hc
    exact ⟨by omega, hAll⟩
  | peel _ ih =>
    obtain ⟨hc, hAll⟩ := ih hEnd
    have hSibling := xor_one_lt hc
    rw [Nat.pow_succ] at hc
    refine ⟨by omega, ?_⟩
    intro kj hkj
    rcases List.mem_cons.mp hkj with rfl | hkj
    · exact hSibling
    · exact hAll kj hkj

/-- Everything peeled off lies below the first node and no lower than the last. -/
theorem levels (h : Descent k j l k' j') : ∀ kj ∈ l, k < kj.1 ∧ kj.1 ≤ k' := by
  induction h with
  | here => simp
  | pass _ ih =>
    intro kj hkj
    have := ih kj hkj
    omega
  | @peel k c k' j' l hDown ih =>
    have hLevel := hDown.level
    intro kj hkj
    rcases List.mem_cons.mp hkj with rfl | hkj
    · dsimp only
      omega
    · have := ih kj hkj
      omega

variable (base : Nat) {M : Nat}

/-- The blocks of a list of nodes. -/
def blocks (base M : Nat) (l : List (Nat × Nat)) : List Span :=
  l.map fun kj => block base M kj.1 kj.2

theorem within (h : Descent k j l k' j') (hM : k' ≤ M) :
    ∀ s ∈ block base M k' j' :: blocks base M l, s.Within (block base M k j) := by
  induction h with
  | here => simp [blocks, Span.Within]
  | pass hDown ih =>
    have hLevel := hDown.level
    intro s hs
    exact (ih hM s hs).trans (child_within (by omega) _)
  | @peel k c k' j' l hDown ih =>
    have hLevel := hDown.level
    intro s hs
    rcases List.mem_cons.mp hs with rfl | hs
    · exact (ih hM _ List.mem_cons_self).trans (child_within (by omega) _)
    · rcases List.mem_cons.mp hs with rfl | hs
      · rw [← xor_one_half c]
        exact child_within (by omega) _
      · exact (ih hM s (List.mem_cons_of_mem _ hs)).trans (child_within (by omega) _)

theorem apart (h : Descent k j l k' j') (hM : k' ≤ M) :
    (block base M k' j' :: blocks base M l).Pairwise Span.Apart := by
  induction h with
  | here => simp [blocks]
  | pass _ ih => exact ih hM
  | @peel k c k' j' l hDown ih =>
    have hLevel := hDown.level
    have hSiblings := siblings_apart base (by omega : k < M) c
    have hWithin := hDown.within base hM
    obtain ⟨hEnd, hRest⟩ := List.pairwise_cons.mp (ih hM)
    refine List.pairwise_cons.mpr ⟨?_, List.pairwise_cons.mpr ⟨?_, hRest⟩⟩
    · intro s hs
      rcases List.mem_cons.mp hs with rfl | hs
      · exact (hWithin _ List.mem_cons_self).apart hSiblings
      · exact hEnd s hs
    · intro s hs
      exact ((hWithin s (List.mem_cons_of_mem _ hs)).apart hSiblings).symm

/-- With a sibling peeled off at every step nothing of the first block is lost. -/
theorem tiles (h : Descent k j l k' j') (hM : k' ≤ M) (hAll : k + l.length = k') :
    Span.union (block base M k' j' :: blocks base M l) = (block base M k j).bytes := by
  induction h with
  | here => simp [blocks, Span.union]
  | pass hDown _ =>
    have hLevel := hDown.level
    omega
  | @peel k c k' j' l hDown ih =>
    have hLevel := hDown.level
    rw [List.length_cons] at hAll
    rw [← siblings_bytes (by omega : k < M) c, ← ih hM (by omega)]
    ext x
    simp only [Finset.mem_union, Span.mem_union, blocks, List.map_cons, List.mem_cons,
      exists_eq_or_imp]
    rw [or_assoc]
    exact or_congr_right or_comm

end Descent

end LunarOS.Logic
