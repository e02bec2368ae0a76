import LunarOS.Buddy.Run

/-!
# What every area keeps

`Sound` is what holds of an area in every reachable state, whatever its bits and lists have
become: its constants, the ground it stands on, and list heads that can be pushed on. Each
primitive keeps it.
-/

namespace LunarOS

open Logic BuddyArea

/-- `buddy_remove` of the block whose list node is at `ph`. -/
theorem buddyRemove_eq_ok {h h' : Heap} {addr ph : Nat} (hVirt : vmmPhys2virt addr = ph) :
    buddyRemove h addr = .ok h' ↔ ∃ c, h ph = some c ∧ (h c.prev).isSome ∧ (h c.next).isSome ∧
      h' = unlinked h ph c ⟨0, 0⟩ := by
  have hWrite : ∀ c, (unlinked h ph c ⟨ph, ph⟩).write ph ⟨0, 0⟩ = unlinked h ph c ⟨0, 0⟩ := by
    intro c
    funext x
    unfold Heap.write unlinked
    by_cases hx : x = ph <;> simp [hx]
  unfold buddyRemove
  rw [hVirt, bind_eq_ok]
  constructor
  · rintro ⟨h1, hRemove, hOk⟩
    obtain ⟨c, hc, hp, hn, rfl⟩ := listRemove_eq_ok.mp hRemove
    rw [hWrite] at hOk
    exact ⟨c, hc, hp, hn, (Except.ok.inj hOk).symm⟩
  · rintro ⟨c, hc, hp, hn, rfl⟩
    exact ⟨_, listRemove_eq_ok.mpr ⟨c, hc, hp, hn, rfl⟩, by rw [hWrite]; rfl⟩

/-! ## Soundness -/

structure Sound (M : Nat) (physMem : List MemArea) (b : BuddyArea) (h : Heap) : Prop where
  shape : Shape M b
  ground : Ground M b.base h physMem
  head : ∀ k < M - 11, ∃ c, h (b.headAt k) = some c ∧ (h c.prev).isSome
  available_lt : b.available < wordSize

/-- `h a` without its `next`. -/
def Heap.prevOf (h : Heap) (a : Nat) : Option Nat := (h a).map Link.prev

theorem Ground.congr {M base : Nat} {h h' : Heap} {physMem : List MemArea}
    (hg : Ground M base h physMem) (hSame : SameNodes h h') : Ground M base h' physMem := by
  refine ⟨hg.order_ge, hg.order_le, hg.window, ?_, ?_, hg.record, hg.own, hg.physical⟩
  · intro j hj
    rw [hSame]
    exact hg.cell j hj
  · intro a ha
    rw [hSame] at ha
    exact hg.kernel a ha

/-- Every block starts with a page of the arena. -/
theorem block_page {M k j : Nat} (hk : k ≤ M - 12) (hM : 12 ≤ M) (hj : j < 2 ^ k)
    (b : BuddyArea) :
    ∃ i < 2 ^ (M - 12), b.blockAt M k j = b.base + i * PGSIZE ∧ i * PGSIZE = j * 2 ^ (M - k) := by
  have hSplit : 2 ^ (M - k) = 2 ^ (M - 12 - k) * PGSIZE := by
    rw [show M - k = M - 12 - k + 12 by omega, Nat.pow_add]
    rfl
  refine ⟨j * 2 ^ (M - 12 - k), ?_, ?_, ?_⟩
  · have hEnd := block_end_le hk hj
    have hPos := Nat.two_pow_pos (M - 12 - k)
    omega
  · unfold blockAt
    rw [hSplit, Nat.mul_assoc]
  · rw [hSplit, Nat.mul_assoc]

namespace Sound

variable {M : Nat} {physMem : List MemArea} {b b' : BuddyArea} {h : Heap}

theorem sizes (hs : Sound M physMem b h) : Sizes M b := hs.shape.toSizes

theorem order_ge (hs : Sound M physMem b h) : 12 ≤ M := hs.shape.order_ge

theorem cell (hs : Sound M physMem b h) {k j : Nat} (hk : k ≤ M - 12) (hj : j < 2 ^ k) :
    (h (b.entryAt M k j)).isSome := by
  obtain ⟨i, hi, hEq, -⟩ := block_page hk hs.order_ge hj b
  rw [← hs.shape.phys2virt_block hk hj, hEq]
  exact hs.ground.cell i hi

theorem record (hs : Sound M physMem b h) {k j : Nat} (hk : k ≤ M - 12) (hj : j < 2 ^ k) :
    ∃ ref, phys2page physMem (b.blockAt M k j) = some ref ∧ InMap physMem ref := by
  obtain ⟨i, hi, hEq, -⟩ := block_page hk hs.order_ge hj b
  rw [hEq]
  exact hs.ground.record i hi

theorem head_ne_entry (hs : Sound M physMem b h) {k : Nat} (hk : k < M - 11) (k' j : Nat) :
    b.headAt k ≠ b.entryAt M k' j := hs.shape.head_ne_entry hk k' j

/-- Changes of the tree and of the charge. -/
theorem congr (hs : Sound M physMem b h) (hf : SameFrame b b')
    (hAvail : b'.available < wordSize) : Sound M physMem b' h := by
  have hShape := hs.shape.congr hf
  obtain ⟨hBase, -, hFree, -, -⟩ := hf
  refine ⟨hShape, hBase ▸ hs.ground, ?_, hAvail⟩
  unfold headAt
  rw [hFree]
  exact hs.head

theorem split (hs : Sound M physMem b h) (n : Nat) : Sound M physMem (b.split n) h :=
  hs.congr (split_sameFrame b n) hs.available_lt

theorem flip (hs : Sound M physMem b h) (n : Nat) : Sound M physMem (b.flip n) h :=
  hs.congr (flip_sameFrame b n) hs.available_lt

theorem linked (hs : Sound M physMem b h) {k k' j : Nat} (hk' : k' ≤ M - 12) (hj : j < 2 ^ k')
    (prev : Nat) :
    Sound M physMem b (linked h (b.headAt k) (b.entryAt M k' j) prev) := by
  have hCell := hs.cell hk' hj
  have hSame := linked_sameNodes hCell (b.headAt k) prev
  refine ⟨hs.shape, hs.ground.congr hSame, ?_, hs.available_lt⟩
  intro i hi
  obtain ⟨c, hc, hMapped⟩ := hs.head i hi
  refine ⟨_, linked_of_ne hc (hs.head_ne_entry hi k' j), ?_⟩
  dsimp only
  rw [hSame]
  split
  · exact hCell
  · exact hMapped

theorem unlinked (hs : Sound M physMem b h) {k j : Nat} (hk : k ≤ M - 12) (hj : j < 2 ^ k)
    {c : ListT} (hPrev : (h c.prev).isSome) (v : ListT) :
    Sound M physMem b (unlinked h (b.entryAt M k j) c v) := by
  have hSame := unlinked_sameNodes (hs.cell hk hj) c v
  refine ⟨hs.shape, hs.ground.congr hSame, ?_, hs.available_lt⟩
  intro i hi
  obtain ⟨d, hd, hMapped⟩ := hs.head i hi
  refine ⟨_, unlinked_of_ne hd (hs.head_ne_entry hi k j), ?_⟩
  dsimp only
  rw [hSame]
  split
  · exact hPrev
  · exact hMapped

/-- `buddy_pushback` of a block of the arena never faults. -/
theorem pushback (hs : Sound M physMem b h) {k k' j : Nat} (hk : k < M - 11) (hk' : k' ≤ M - 12)
    (hj : j < 2 ^ k') {c : ListT} (hc : h (b.headAt k) = some c) :
    buddyPushback h (b.headAt k) (b.blockAt M k' j) =
      .ok (LunarOS.linked h (b.headAt k) (b.entryAt M k' j) c.prev) := by
  obtain ⟨c', hc', hMapped⟩ := hs.head k hk
  obtain rfl := Option.some.inj (hc.symm.trans hc')
  unfold buddyPushback
  rw [hs.shape.phys2virt_block hk' hj]
  exact listPushback_eq hc hMapped (hs.cell hk' hj) (hs.head_ne_entry hk k' j)

/-- `buddy_remove` of a block of the arena, when it does not fault. -/
theorem remove_eq_ok (hs : Sound M physMem b h) {k j : Nat} (hk : k ≤ M - 12) (hj : j < 2 ^ k)
    {h' : Heap} : buddyRemove h (b.blockAt M k j) = .ok h' ↔
      ∃ c, h (b.entryAt M k j) = some c ∧ (h c.prev).isSome ∧ (h c.next).isSome ∧
        h' = LunarOS.unlinked h (b.entryAt M k j) c ⟨0, 0⟩ :=
  buddyRemove_eq_ok (hs.shape.phys2virt_block hk hj)

end Sound

end LunarOS
