import LunarOS.Buddy.Climb
import LunarOS.Buddy.Kept

/-!
# The right edge of the tree

A walk over clear bits goes down the right edge of the tree and hangs one left child on each
list it passes. `Edge k` is the state it leaves at bucket `k`: the bits of the right edge above
level `k` are set, and each list from `1` to `k` is a ring of one entry. Freeing the block
climbs the same edge and undoes the rings one by one. `Tower last` is what is left of this when
more blocks are taken: from level `last` down no bit is set, the lists up to `last` have an
entry and the others are empty.

Nothing is asked of the arena. A call that completes has used only list nodes that exist, so
it is enough that list nodes have kernel addresses (`Placed`).
-/

namespace LunarOS

open Logic BuddyArea

/-! ## List nodes of an area -/

/-- The constants of an area, and where list nodes can lie. -/
structure Placed (M : Nat) (b : BuddyArea) (h : Heap) : Prop where
  sizes : Sizes M b
  heads_le : b.freelist + 16 * (M - 11) ≤ VMM_RESERVED_DM_START
  kernel : ∀ a, (h a).isSome → VMM_KERNEL_START ≤ a ∧ a < wordSize

/-- The node lies at the start of a page of the arena. -/
def BuddyArea.IsEntry (b : BuddyArea) (M x : Nat) : Prop :=
  ∃ i < 2 ^ (M - 12), x = b.baseEntry + i * PGSIZE

/-- The list nodes of an area: its list heads and the starts of its pages. -/
def BuddyArea.Owns (b : BuddyArea) (M x : Nat) : Prop :=
  (∃ k < M - 11, x = b.headAt k) ∨ b.IsEntry M x

/-- The back link of every list head is a node of the area. -/
def Closed (M : Nat) (b : BuddyArea) (h : Heap) : Prop :=
  ∀ k < M - 11, ∀ c, h (b.headAt k) = some c → b.Owns M c.prev

theorem Sound.placed {M : Nat} {physMem : List MemArea} {b : BuddyArea} {h : Heap}
    (hs : Sound M physMem b h) : Placed M b h :=
  ⟨hs.sizes, hs.shape.heads_le, hs.ground.kernel⟩

theorem BuddyArea.owns_head {b : BuddyArea} {M k : Nat} (hk : k < M - 11) :
    b.Owns M (b.headAt k) := Or.inl ⟨k, hk, rfl⟩

theorem BuddyArea.isEntry_entryAt {b : BuddyArea} {M k j : Nat} (hM : 12 ≤ M) (hk : k ≤ M - 12)
    (hj : j < 2 ^ k) : b.IsEntry M (b.entryAt M k j) := by
  obtain ⟨i, hi, hEq, -⟩ := block_page hk hM hj b
  refine ⟨i, hi, ?_⟩
  unfold entryAt baseEntry
  omega

theorem BuddyArea.SameFrame.owns_iff {b b' : BuddyArea} (h : SameFrame b b') (M x : Nat) :
    b'.Owns M x ↔ b.Owns M x := by
  unfold Owns IsEntry
  simp only [h.headAt_eq, h.baseEntry_eq]

namespace Placed

variable {M : Nat} {b b' : BuddyArea} {h h' : Heap}

theorem congr (hp : Placed M b h) (hFrame : SameFrame b b') (hSame : SameNodes h h') :
    Placed M b' h' := by
  refine ⟨hp.sizes.congr hFrame, ?_, ?_⟩
  · rw [hFrame.2.2.1]
    exact hp.heads_le
  · intro a ha
    rw [hSame] at ha
    exact hp.kernel a ha

theorem head_ne_entry (hp : Placed M b h) {k : Nat} (hk : k < M - 11) (k' j : Nat) :
    b.headAt k ≠ b.entryAt M k' j := by
  have hLe := hp.heads_le
  unfold headAt entryAt
  omega

theorem head_ne (hp : Placed M b h) {k x : Nat} (hk : k < M - 11) (hx : b.IsEntry M x) :
    b.headAt k ≠ x := by
  obtain ⟨i, -, rfl⟩ := hx
  have hLe := hp.heads_le
  unfold headAt baseEntry
  omega

theorem virt_of_entry (hp : Placed M b h) {k j : Nat} (hMapped : (h (b.entryAt M k j)).isSome) :
    vmmPhys2virt (b.blockAt M k j) = b.entryAt M k j :=
  add64_eq (hp.kernel _ hMapped).2

/-- A physical address whose translation wraps does not get a kernel address. -/
theorem virt_of_mapped (hp : Placed M b h) {k j : Nat} (hk : k ≤ M - 12) (hj : j < 2 ^ k)
    (hMapped : (h (vmmPhys2virt (b.blockAt M k j))).isSome) :
    vmmPhys2virt (b.blockAt M k j) = b.entryAt M k j := by
  have hKernel := (hp.kernel _ hMapped).1
  have hGe := hp.sizes.order_ge
  have hRoom := hp.sizes.end_le
  have hEnd := block_end_le (by omega : k ≤ M) hj
  have hPos := Nat.two_pow_pos (M - k)
  unfold entryAt
  unfold vmmPhys2virt add64 blockAt at *
  generalize j * 2 ^ (M - k) = off at *
  unfold VMM_KERNEL_START VMM_RESERVED_DM_START wordSize at *
  omega

/-- A push of a block that succeeds. -/
theorem pushback_ok (hp : Placed M b h) {k k' j : Nat} (hk : k < M - 11) (hk' : k' ≤ M - 12)
    (hj : j < 2 ^ k') (hOk : buddyPushback h (b.headAt k) (b.blockAt M k' j) = .ok h') :
    ∃ c, h (b.headAt k) = some c ∧ (h (b.entryAt M k' j)).isSome ∧
      h' = linked h (b.headAt k) (b.entryAt M k' j) c.prev := by
  unfold buddyPushback at hOk
  have hNe : b.headAt k ≠ vmmPhys2virt (b.blockAt M k' j) := by
    intro hEq
    obtain ⟨c, hc, -⟩ := bind_eq_ok.mp hOk
    rw [Heap.read_eq_ok, hEq] at hc
    have hVirt := hp.virt_of_mapped hk' hj (by simp [hc])
    exact hp.head_ne_entry hk k' j (hEq.trans hVirt)
  obtain ⟨c, hc, -, hEntry, rfl⟩ := listPushback_ok hNe hOk
  have hVirt := hp.virt_of_mapped hk' hj hEntry
  rw [hVirt] at hEntry ⊢
  exact ⟨c, hc, hEntry, rfl⟩

end Placed

/-! ## One turn of a walk that completes -/

/-- The ways a turn at node `e` of level `l` goes on. -/
inductive WalkTurn (M bkt n l e : Nat) (b : BuddyArea) (m : Mem) (ret : Option Nat)
    (b' : BuddyArea) (m' : Mem) : Prop
  | left : b.bit (nodeOf l e) = true →
      buddyTreeWalkLoop bkt n (nodeOf (l + 1) (2 * e)) (l + 1 + 1) b m = .ok (ret, b', m') →
      WalkTurn M bkt n l e b m ret b' m'
  | right {c : ListT} {heap : Heap} : b.bit (nodeOf l e) = false →
      m.heap (b.headAt (l + 1)) = some c → (m.heap (b.entryAt M (l + 1) (2 * e))).isSome →
      heap = linked m.heap (b.headAt (l + 1)) (b.entryAt M (l + 1) (2 * e)) c.prev →
      l + 1 ≠ bkt →
      buddyTreeWalkLoop bkt n (nodeOf (l + 1) (2 * e + 1)) (l + 1 + 1) (b.split (nodeOf l e))
        { m with heap } = .ok (ret, b', m') →
      WalkTurn M bkt n l e b m ret b' m'
  | last {c : ListT} {heap : Heap} : b.bit (nodeOf l e) = false →
      m.heap (b.headAt (l + 1)) = some c → (m.heap (b.entryAt M (l + 1) (2 * e))).isSome →
      heap = linked m.heap (b.headAt (l + 1)) (b.entryAt M (l + 1) (2 * e)) c.prev →
      l + 1 = bkt → ret = some (b.blockAt M bkt (2 * e + 1)) → b' = b.split (nodeOf l e) →
      Mem.setOrder { m with heap } (phys2page m.physMem (b.blockAt M bkt (2 * e + 1))) bkt =
        .ok m' →
      WalkTurn M bkt n l e b m ret b' m'

theorem walkLoop_turn {M bkt n l e : Nat} {b b' : BuddyArea} {m m' : Mem} {ret : Option Nat}
    (hp : Placed M b m.heap) (hl : l + 1 ≤ M - 12) (he : e < 2 ^ l)
    (hOk : buddyTreeWalkLoop bkt (n + 1) (nodeOf l e) (l + 1) b m = .ok (ret, b', m')) :
    WalkTurn M bkt n l e b m ret b' m' := by
  have hLe := hp.sizes.order_le
  have hLeft : 2 * e < 2 ^ (l + 1) := by rw [Nat.pow_succ]; omega
  have hRight : 2 * e + 1 < 2 ^ (l + 1) := by rw [Nat.pow_succ]; omega
  have hSplit := hp.sizes.congr (split_sameFrame b (nodeOf l e))
  rw [buddyTreeWalkLoop, hp.sizes.isSplit_eq (by omega) he, ok_bind_eq, nodeLeft_eq (by omega) he,
    nodeRight_eq (by omega) he] at hOk
  split at hOk
  · next hSet => exact .left hSet hOk
  · next hClear =>
    rw [hp.sizes.setSplit_eq (by omega) he, ok_bind_eq, hSplit.freelistAt_eq (by omega),
      ok_bind_eq, hSplit.node2ptr_eq hl hLeft, split_headAt, split_blockAt] at hOk
    obtain ⟨heap, hPush, hOk⟩ := bind_eq_ok.mp hOk
    obtain ⟨c, hc, hEntry, hHeap⟩ := hp.pushback_ok (by omega) hl hLeft hPush
    have hBit : b.bit (nodeOf l e) = false := by simpa using hClear
    split at hOk
    · next hLast =>
      subst hLast
      rw [hSplit.node2ptr_eq hl hRight, split_blockAt] at hOk
      obtain ⟨m1, hOrder, hOk⟩ := bind_eq_ok.mp hOk
      cases hOk
      exact .last hBit hc hEntry hHeap rfl rfl rfl hOrder
    · next hMore => exact .right hBit hc hEntry hHeap hMore hOk

/-! ## The footprint of a walk -/

/-- A walk charges nothing and writes to list nodes of its own area only. -/
structure Stays (M : Nat) (b b' : BuddyArea) (h h' : Heap) : Prop where
  available : b'.available = b.available
  closed : Closed M b' h'
  outside : ∀ x, ¬ b.Owns M x → h' x = h x

section Footprint

variable {M bkt : Nat} {b b' : BuddyArea} {m m' : Mem} {ret : Option Nat}

/-- One left child hung on its list. -/
theorem stays_push (hp : Placed M b m.heap) (hClosed : Closed M b m.heap) {l e : Nat} {c : ListT}
    (hl : l + 1 ≤ M - 12) (he : e < 2 ^ l) (hc : m.heap (b.headAt (l + 1)) = some c) (n : Nat) :
    Stays M b (b.split n) m.heap
      (linked m.heap (b.headAt (l + 1)) (b.entryAt M (l + 1) (2 * e)) c.prev) := by
  have hLeft : 2 * e < 2 ^ (l + 1) := by rw [Nat.pow_succ]; omega
  have hEntry := isEntry_entryAt (b := b) hp.sizes.order_ge hl hLeft
  have hHead : l + 1 < M - 11 := by omega
  refine ⟨rfl, ?_, ?_⟩
  · intro i hi d hd
    rw [(split_sameFrame b n).owns_iff]
    rw [split_headAt] at hd
    have hNe := hp.head_ne_entry hi (l + 1) (2 * e)
    cases hOld : m.heap (b.headAt i) with
    | none => simp [linked, hNe, hOld] at hd
    | some d' =>
      rw [linked_of_ne hOld hNe] at hd
      obtain rfl := Option.some.inj hd
      dsimp only
      split
      · exact Or.inr hEntry
      · exact hClosed i hi d' hOld
  · intro x hx
    apply linked_outside
    · rintro rfl
      exact hx (Or.inr hEntry)
    · rintro rfl
      exact hx (owns_head hHead)
    · rintro rfl
      exact hx (hClosed _ hHead c hc)

theorem Stays.trans {b'' : BuddyArea} {h h' h'' : Heap} (hs : Stays M b b' h h')
    (hFrame : SameFrame b b') (hs' : Stays M b' b'' h' h'') : Stays M b b'' h h'' := by
  refine ⟨hs'.available.trans hs.available, hs'.closed, ?_⟩
  intro x hx
  rw [hs'.outside x (by rwa [hFrame.owns_iff]), hs.outside x hx]

theorem Mem.setOrder_ok {ref? : Option PageRef} (hBkt : bkt < 256)
    (hOk : m.setOrder ref? bkt = .ok m') :
    ∃ ref, ref? = some ref ∧ InMap m.physMem ref ∧ m' = m.withOrder ref bkt := by
  obtain ⟨ref, rfl, hIn, -⟩ := Mem.writePage_ok hOk
  rw [Mem.setOrder_eq hIn hBkt] at hOk
  exact ⟨ref, rfl, hIn, (Except.ok.inj hOk).symm⟩

theorem walkLoop_stays (hBkt : bkt ≤ M - 12) : ∀ (n l e : Nat) {b b' : BuddyArea} {m m' : Mem},
    l + n = bkt → e < 2 ^ l → Placed M b m.heap → Closed M b m.heap →
      buddyTreeWalkLoop bkt n (nodeOf l e) (l + 1) b m = .ok (ret, b', m') →
        Stays M b b' m.heap m'.heap ∧ ∀ p, ret = some p →
          ∃ ref, phys2page m.physMem p = some ref ∧ m'.page = (m.withOrder ref bkt).page := by
  intro n
  induction n with
  | zero =>
    intro l e b b' m m' _ _ _ hClosed hOk
    cases hOk
    exact ⟨⟨rfl, hClosed, fun _ _ => rfl⟩, by simp⟩
  | succ n ih =>
    intro l e b b' m m' hl he hp hClosed hOk
    have hLeft : 2 * e < 2 ^ (l + 1) := by rw [Nat.pow_succ]; omega
    have hRight : 2 * e + 1 < 2 ^ (l + 1) := by rw [Nat.pow_succ]; omega
    have hFrame := split_sameFrame b (nodeOf l e)
    cases walkLoop_turn hp (by omega) he hOk with
    | left _ hOk => exact ih (l + 1) (2 * e) (by omega) hLeft hp hClosed hOk
    | @right c heap _ hc hEntry hHeap _ hOk =>
      subst hHeap
      have hPush := stays_push hp hClosed (by omega) he hc (nodeOf l e)
      obtain ⟨hRest, hRecord⟩ := ih (l + 1) (2 * e + 1) (by omega) hRight
        (hp.congr hFrame (linked_sameNodes hEntry _ _)) hPush.closed hOk
      exact ⟨hPush.trans hFrame hRest, hRecord⟩
    | @last c heap _ hc hEntry hHeap _ hRet hArea hOrder =>
      subst hHeap hArea hRet
      have hPush := stays_push hp hClosed (by omega) he hc (nodeOf l e)
      have hByte : bkt < 256 := by
        have := hp.sizes.order_le
        omega
      obtain ⟨ref, hRef, -, rfl⟩ := Mem.setOrder_ok hByte hOrder
      refine ⟨hPush, ?_⟩
      rintro p ⟨⟩
      exact ⟨ref, hRef, rfl⟩

end Footprint

/-! ## Lists that stay filled -/

/-- Further blocks have been taken, the last one from bucket `last`. -/
structure Tower (M last : Nat) (b : BuddyArea) (h : Heap) : Prop where
  le : last ≤ M - 12
  clear : ∀ l j, last ≤ l → j < 2 ^ l → b.bit (nodeOf l j) = false
  full : ∀ i ≤ last, ∃ c, h (b.headAt i) = some c ∧ b.IsEntry M c.prev
  empty : ∀ i, last < i → i < M - 11 → h (b.headAt i) = some ⟨b.headAt i, b.headAt i⟩

namespace Tower

variable {M last : Nat} {b : BuddyArea} {h : Heap}

theorem charged (ht : Tower M last b h) (sz : Nat) : Tower M last (b.charged sz) h :=
  ⟨ht.le, ht.clear, ht.full, ht.empty⟩

theorem closed (ht : Tower M last b h) : Closed M b h := by
  intro k hk c hc
  rcases Nat.lt_or_ge last k with hAbove | hFull
  · rw [ht.empty k hAbove hk] at hc
    obtain rfl := Option.some.inj hc
    exact owns_head hk
  · obtain ⟨c', hc', hEntry⟩ := ht.full k hFull
    obtain rfl := Option.some.inj (hc'.symm.trans hc)
    exact Or.inr hEntry

/-- A list is empty exactly when it is behind the last one. -/
theorem lt_of_empty (ht : Tower M last b h) (hp : Placed M b h) {k : Nat} (hk : k < M - 11)
    {c : ListT} (hc : h (b.headAt k) = some c) (hEmpty : c.prev = b.headAt k) : last < k := by
  by_contra hFull
  obtain ⟨c', hc', hEntry⟩ := ht.full k (Nat.le_of_not_lt hFull)
  obtain rfl := Option.some.inj (hc'.symm.trans hc)
  exact hp.head_ne hk hEntry hEmpty.symm

/-- One level of a walk: the lists are filled one further down. -/
theorem push (hp : Placed M b h) (ht : Tower M last b h) {l e : Nat} (hl : l + 1 ≤ M - 12)
    (hLast : l ≤ last) (he : e < 2 ^ l) {c : ListT} (hc : h (b.headAt (l + 1)) = some c) :
    Tower M (max last (l + 1)) (b.split (nodeOf l e))
      (linked h (b.headAt (l + 1)) (b.entryAt M (l + 1) (2 * e)) c.prev) := by
  have hLeft : 2 * e < 2 ^ (l + 1) := by rw [Nat.pow_succ]; omega
  have hNe : ∀ i, i < M - 11 → b.headAt i ≠ b.entryAt M (l + 1) (2 * e) :=
    fun i hi => hp.head_ne_entry hi _ _
  have hOther : ∀ i, i ≠ l + 1 → b.headAt i ≠ b.headAt (l + 1) := fun i hi => mt headAt_inj.mp hi
  have hLe := ht.le
  -- the back link that is followed is no other list head
  have hPrev : ∀ i, last < i → i ≠ l + 1 → i < M - 11 → b.headAt i ≠ c.prev := by
    intro i hi hSame hi'
    rcases Nat.lt_or_ge last (l + 1) with hAbove | hFull
    · rw [ht.empty (l + 1) hAbove (by omega)] at hc
      obtain rfl := Option.some.inj hc
      exact hOther i hSame
    · obtain ⟨c', hc', hEntry⟩ := ht.full (l + 1) hFull
      obtain rfl := Option.some.inj (hc'.symm.trans hc)
      exact hp.head_ne hi' hEntry
  refine ⟨by omega, ?_, ?_, ?_⟩
  · intro l' j hl' hj
    rw [bit_split_level b he hj (by omega)]
    exact ht.clear l' j (by omega) hj
  · intro i hi
    rw [split_headAt]
    by_cases hSame : i = l + 1
    · subst hSame
      refine ⟨_, linked_of_ne hc (hNe _ (by omega)), ?_⟩
      rw [if_pos rfl]
      exact isEntry_entryAt hp.sizes.order_ge hl hLeft
    · obtain ⟨c', hc', hEntry⟩ := ht.full i (by omega)
      refine ⟨_, linked_of_ne hc' (hNe i (by omega)), ?_⟩
      rw [if_neg (hOther i hSame)]
      exact hEntry
  · intro i hi hi'
    rw [split_headAt, linked_of_ne (ht.empty i (by omega) hi') (hNe i hi'),
      if_neg (hOther i (by omega)), if_neg (hPrev i (by omega) (by omega) hi')]

/-- A walk to a bucket whose list is empty finds a block and fills the lists up to it. -/
theorem walkLoop {bkt : Nat} (hBkt : bkt ≤ M - 12) (hLast : last < bkt) :
    ∀ (n l e : Nat) {b b' : BuddyArea} {m m' : Mem} {ret : Option Nat}, l + n = bkt → l < bkt →
      e < 2 ^ l → Placed M b m.heap → Tower M (max last l) b m.heap →
      buddyTreeWalkLoop bkt n (nodeOf l e) (l + 1) b m = .ok (ret, b', m') →
        Tower M bkt b' m'.heap ∧ ret.isSome := by
  intro n
  induction n with
  | zero =>
    intro l e b b' m m' ret hl hlt
    omega
  | succ n ih =>
    intro l e b b' m m' ret hl hlt he hp ht hOk
    have hLeft : 2 * e < 2 ^ (l + 1) := by rw [Nat.pow_succ]; omega
    have hRight : 2 * e + 1 < 2 ^ (l + 1) := by rw [Nat.pow_succ]; omega
    have hMax : max (max last l) (l + 1) = max last (l + 1) := by omega
    cases walkLoop_turn hp (by omega) he hOk with
    | left hSet hOk =>
      have hAbove : l < last := by
        by_contra hBelow
        rw [ht.clear l e (by omega) he] at hSet
        cases hSet
      rw [show max last l = max last (l + 1) by omega] at ht
      exact ih (l + 1) (2 * e) (by omega) (by omega) hLeft hp ht hOk
    | @right c heap _ hc hEntry hHeap hMore hOk =>
      subst hHeap
      have hPush := ht.push hp (by omega) (by omega) he hc
      rw [hMax] at hPush
      exact ih (l + 1) (2 * e + 1) (by omega) (by omega) hRight
        (hp.congr (split_sameFrame b _) (linked_sameNodes hEntry _ _)) hPush hOk
    | @last c heap _ hc _ hHeap hEnd hRet hArea hOrder =>
      subst hHeap hArea hRet
      have hPush := ht.push hp (by omega) (by omega) he hc
      rw [hMax, hEnd, show max last bkt = bkt by omega] at hPush
      rw [(Mem.writePage_frame hOrder).1]
      refine ⟨?_, rfl⟩
      rw [← hEnd] at hPush ⊢
      exact hPush

end Tower

/-! ## The right edge -/

/-- Index of the rightmost node of a level. -/
def rightmost (l : Nat) : Nat := 2 ^ l - 1

theorem rightmost_lt (l : Nat) : rightmost l < 2 ^ l := by
  have := Nat.two_pow_pos l
  unfold rightmost
  omega

theorem rightmost_succ (l : Nat) : rightmost (l + 1) = 2 * rightmost l + 1 := by
  have := Nat.two_pow_pos l
  unfold rightmost
  rw [Nat.pow_succ]
  omega

theorem rightmost_half (l : Nat) : rightmost (l + 1) / 2 = rightmost l := by
  rw [rightmost_succ]
  omega

theorem rightmost_sibling (l : Nat) : rightmost (l + 1) ^^^ 1 = 2 * rightmost l := by
  rw [rightmost_succ, xor_one_eq]
  split <;> omega

namespace BuddyArea

/-- List node of the left child of the rightmost node of level `l`. -/
def hung (b : BuddyArea) (M l : Nat) : Nat := b.entryAt M (l + 1) (2 * rightmost l)

@[simp] theorem split_hung (b : BuddyArea) (n M l : Nat) : (b.split n).hung M l = b.hung M l := rfl
@[simp] theorem flip_hung (b : BuddyArea) (n M l : Nat) : (b.flip n).hung M l = b.hung M l := rfl
theorem hung_zero (b : BuddyArea) (M : Nat) : b.hung M 0 = b.baseEntry := by
  simp [hung, rightmost]

theorem hung_eq (b : BuddyArea) {M l : Nat} (hl : l < M) :
    b.hung M l = b.base + (2 ^ M - 2 ^ (M - l)) + VMM_RESERVED_DM_START := by
  have hOff : 2 * rightmost l * 2 ^ (M - (l + 1)) = 2 ^ M - 2 ^ (M - l) := by
    unfold rightmost
    calc 2 * (2 ^ l - 1) * 2 ^ (M - (l + 1))
        = (2 ^ l - 1) * 2 ^ (M - (l + 1) + 1) := by rw [Nat.pow_succ]; ring
      _ = (2 ^ l - 1) * 2 ^ (M - l) := by rw [show M - (l + 1) + 1 = M - l by omega]
      _ = 2 ^ l * 2 ^ (M - l) - 2 ^ (M - l) := by rw [Nat.sub_mul, Nat.one_mul]
      _ = 2 ^ M - 2 ^ (M - l) := by rw [← Nat.pow_add, Nat.add_sub_cancel' hl.le]
  unfold hung entryAt blockAt
  rw [hOff]

theorem hung_inj {b : BuddyArea} {M l l' : Nat} (hl : l < M) (hl' : l' < M)
    (h : b.hung M l = b.hung M l') : l = l' := by
  rw [hung_eq b hl, hung_eq b hl'] at h
  have hLe : 2 ^ (M - l) ≤ 2 ^ M := Nat.pow_le_pow_right (by omega) (by omega)
  have hLe' : 2 ^ (M - l') ≤ 2 ^ M := Nat.pow_le_pow_right (by omega) (by omega)
  have hPow : 2 ^ (M - l) = 2 ^ (M - l') := by omega
  have hExp := Nat.pow_right_injective (Nat.le_refl 2) hPow
  omega

end BuddyArea

/-- The state that a walk from rest leaves at bucket `k`. -/
structure Edge (M k : Nat) (b : BuddyArea) (h : Heap) : Prop where
  bit : ∀ x, b.bit x = true ↔ ∃ l < k, x = nodeOf l (rightmost l)
  root : h (b.headAt 0) = some ⟨b.baseEntry, b.baseEntry⟩
  ring : ∀ l < k, h (b.headAt (l + 1)) = some ⟨b.hung M l, b.hung M l⟩ ∧
    h (b.hung M l) = some ⟨b.headAt (l + 1), b.headAt (l + 1)⟩
  others : ∀ i, k < i → i < M - 11 → h (b.headAt i) = some ⟨b.headAt i, b.headAt i⟩

namespace Edge

variable {M k l : Nat} {b : BuddyArea} {h : Heap}

theorem credited (he : Edge M k b h) (n : Nat) :
    Edge M k { b with available := n } h := ⟨he.bit, he.root, he.ring, he.others⟩

theorem charged (he : Edge M k b h) (sz : Nat) : Edge M k (b.charged sz) h := he.credited _

theorem below_clear (he : Edge M k b h) {l j : Nat} (hl : k ≤ l) (hj : j < 2 ^ l) :
    b.bit (nodeOf l j) = false := by
  by_contra hSet
  obtain ⟨l', hl', hEq⟩ := (he.bit _).mp (by simpa using hSet)
  obtain ⟨rfl, -⟩ := nodeOf_inj hj (rightmost_lt l') hEq
  omega

theorem left_lt (l : Nat) : 2 * rightmost l < 2 ^ (l + 1) := by
  have := rightmost_lt l
  rw [Nat.pow_succ]
  omega

theorem tower (hp : Placed M b h) (he : Edge M k b h) (hk : k ≤ M - 12) : Tower M k b h := by
  have hOrder := hp.sizes.order_ge
  refine ⟨hk, fun l j hl hj => he.below_clear hl hj, ?_, he.others⟩
  intro i hi
  cases i with
  | zero => exact ⟨_, he.root, 0, Nat.two_pow_pos _, by simp⟩
  | succ l => exact ⟨_, (he.ring l hi).1, isEntry_entryAt hOrder (by omega) (left_lt l)⟩

/-- One level of the walk: the node of the right edge is split and its left child hung up. -/
theorem push (hp : Placed M b h) (he : Edge M l b h) (hl : l + 1 ≤ M - 12) :
    Edge M (l + 1) (b.split (nodeOf l (rightmost l)))
      (linked h (b.headAt (l + 1)) (b.hung M l) (b.headAt (l + 1))) := by
  have hNe : ∀ i, i < M - 11 → b.headAt i ≠ b.hung M l := fun i hi => hp.head_ne_entry hi _ _
  have hOther : ∀ i, i ≠ l + 1 → b.headAt i ≠ b.headAt (l + 1) := fun i hi => mt headAt_inj.mp hi
  have hHead := he.others (l + 1) (by omega) (by omega)
  refine ⟨?_, ?_, ?_, ?_⟩
  · intro x
    rw [bit_split_iff, he.bit]
    constructor
    · rintro (⟨l', hl', h⟩ | h)
      · exact ⟨l', by omega, h⟩
      · exact ⟨l, by omega, h⟩
    · rintro ⟨l', hl', h⟩
      rcases Nat.lt_succ_iff_lt_or_eq.mp hl' with hlt | rfl
      · exact Or.inl ⟨l', hlt, h⟩
      · exact Or.inr h
  · rw [split_headAt, linked_of_ne he.root (hNe 0 (by omega))]
    simp [hOther 0 (by omega), baseEntry, BuddyArea.split, setByte]
  · intro l' hl'
    rcases Nat.lt_succ_iff_lt_or_eq.mp hl' with hlt | rfl
    · obtain ⟨hHead', hEntry'⟩ := he.ring l' hlt
      have hNe' : b.hung M l' ≠ b.hung M l := fun heq =>
        hlt.ne (hung_inj (by omega) (by omega) heq)
      have hApart := (hp.head_ne_entry (by omega : l + 1 < M - 11) (l' + 1) (2 * rightmost l')).symm
      change b.hung M l' ≠ _ at hApart
      rw [split_headAt, split_hung, linked_of_ne hHead' (hNe _ (by omega)),
        linked_of_ne hEntry' hNe']
      simp [hOther (l' + 1) (by omega), hApart]
    · rw [split_headAt, split_hung, linked_entry, linked_of_ne hHead (hNe _ (by omega))]
      simp
  · intro i hi hi'
    rw [split_headAt, linked_of_ne (he.others i (by omega) hi') (hNe i hi')]
    simp [hOther i (by omega)]

/-- One level of the climb: the node of the right edge is joined again. -/
theorem join (hp : Placed M b h) (he : Edge M (l + 1) b h) (hl : l + 1 ≤ M - 12) :
    Edge M l (b.flip (nodeOf l (rightmost l)))
      (unlinked h (b.hung M l) ⟨b.headAt (l + 1), b.headAt (l + 1)⟩ ⟨0, 0⟩) := by
  obtain ⟨hHead, hEntry⟩ := he.ring l (Nat.lt_succ_self l)
  have hNe : ∀ i, i < M - 11 → b.headAt i ≠ b.hung M l := fun i hi => hp.head_ne_entry hi _ _
  have hOther : ∀ i, i ≠ l + 1 → b.headAt i ≠ b.headAt (l + 1) := fun i hi => mt headAt_inj.mp hi
  refine ⟨?_, ?_, ?_, ?_⟩
  · intro x
    by_cases hx : x = nodeOf l (rightmost l)
    · subst hx
      have hSet : b.bit (nodeOf l (rightmost l)) = true :=
        (he.bit _).mpr ⟨l, Nat.lt_succ_self l, rfl⟩
      rw [bit_flip_same, hSet]
      simp only [Bool.not_true, Bool.false_eq_true, false_iff, not_exists, not_and]
      intro l' hl' hEq
      have := (nodeOf_inj (rightmost_lt l) (rightmost_lt l') hEq).1
      omega
    · rw [bit_flip_other b hx, he.bit]
      constructor
      · rintro ⟨l', hl', h⟩
        refine ⟨l', ?_, h⟩
        rcases Nat.lt_succ_iff_lt_or_eq.mp hl' with hlt | rfl
        · exact hlt
        · exact absurd h hx
      · rintro ⟨l', hl', h⟩
        exact ⟨l', by omega, h⟩
  · rw [flip_headAt, unlinked_of_ne he.root (hNe 0 (by omega))]
    simp [hOther 0 (by omega), baseEntry, BuddyArea.flip, setByte]
  · intro l' hl'
    obtain ⟨hHead', hEntry'⟩ := he.ring l' (by omega)
    have hNe' : b.hung M l' ≠ b.hung M l := fun heq =>
      hl'.ne (hung_inj (by omega) (by omega) heq)
    have hApart := (hp.head_ne_entry (by omega : l + 1 < M - 11) (l' + 1) (2 * rightmost l')).symm
    change b.hung M l' ≠ _ at hApart
    rw [flip_headAt, flip_hung, unlinked_of_ne hHead' (hNe _ (by omega)),
      unlinked_of_ne hEntry' hNe']
    simp [hOther (l' + 1) (by omega), hApart]
  · intro i hi hi'
    rcases Nat.eq_or_lt_of_le (Nat.succ_le_of_lt hi) with rfl | hlt
    · rw [flip_headAt, unlinked_of_ne hHead (hNe _ hi')]
      simp
    · rw [flip_headAt, unlinked_of_ne (he.others i hlt hi') (hNe i hi')]
      simp [hOther i (by omega)]

/-- Hanging the base block back on its list. -/
theorem hang (hp : Placed M b h) (he : Edge M 0 b h) :
    Edge M 0 b (linked h (b.headAt 0) b.baseEntry b.baseEntry) := by
  have hOrder := hp.sizes.order_ge
  have hNe : ∀ i < M - 11, b.headAt i ≠ b.baseEntry := by
    intro i hi
    simpa using hp.head_ne_entry hi 0 0
  refine ⟨he.bit, ?_, by omega, ?_⟩
  · rw [linked_of_ne he.root (hNe 0 (by omega)), if_pos rfl, if_neg (hNe 0 (by omega))]
  · intro i hi hi'
    have hOther : b.headAt i ≠ b.headAt 0 := mt headAt_inj.mp (by omega)
    rw [linked_of_ne (he.others i hi hi') (hNe i hi'), if_neg hOther, if_neg (hNe i hi')]

/-! ### The loops on the edge -/

/-- A walk from rest hands out the rightmost block of its bucket. -/
theorem walkLoop {bkt : Nat} (hBkt : bkt ≤ M - 12) : ∀ (n l : Nat) {b b' : BuddyArea}
    {m m' : Mem} {ret : Option Nat}, l + n = bkt → Placed M b m.heap → Edge M l b m.heap →
      buddyTreeWalkLoop bkt n (nodeOf l (rightmost l)) (l + 1) b m = .ok (ret, b', m') →
        Edge M bkt b' m'.heap ∧ (l < bkt → ret = some (b.blockAt M bkt (rightmost bkt))) := by
  intro n
  induction n with
  | zero =>
    intro l b b' m m' ret hl hp he hOk
    obtain rfl : l = bkt := by omega
    cases hOk
    exact ⟨he, fun h => absurd h (Nat.lt_irrefl _)⟩
  | succ n ih =>
    intro l b b' m m' ret hl hp he hOk
    have hHead := he.others (l + 1) (by omega) (by omega)
    have hPush := he.push hp (by omega)
    cases walkLoop_turn hp (by omega) (rightmost_lt l) hOk with
    | left hSet _ =>
      rw [he.below_clear (Nat.le_refl l) (rightmost_lt l)] at hSet
      cases hSet
    | @right c heap _ hc hEntry hHeap hMore hOk =>
      obtain rfl := Option.some.inj (hHead.symm.trans hc)
      subst hHeap
      rw [← rightmost_succ] at hOk
      obtain ⟨hEdge, hRet⟩ := ih (l + 1) (by omega)
        (hp.congr (split_sameFrame b _) (linked_sameNodes hEntry _ _)) hPush hOk
      exact ⟨hEdge, fun _ => hRet (by omega)⟩
    | @last c heap _ hc _ hHeap hEnd hRet hArea hOrder =>
      obtain rfl := Option.some.inj (hHead.symm.trans hc)
      subst hHeap hArea hRet hEnd
      rw [(Mem.writePage_frame hOrder).1, ← rightmost_succ]
      exact ⟨hPush, fun _ => rfl⟩

/-- The climb from the block completes and undoes the rings. -/
theorem freeLoop {k : Nat} {b : BuddyArea} {h : Heap} {bound : Nat} (hp : Placed M b h)
    (he : Edge M k b h) (hk : k ≤ M - 12) (hBound : nodeOf k (rightmost k) ≤ bound) :
    ∃ b' h', buddyFreeLoop bound (nodeOf k (rightmost k)) k b h = .ok (nodeOf 0 0, 0, b', h') ∧
      Edge M 0 b' h' ∧ b'.available = b.available ∧ ∀ x, ¬ b.Owns M x → h' x = h x := by
  induction k generalizing b h bound with
  | zero => exact ⟨b, h, freeLoop_root, he, rfl, fun _ _ => rfl⟩
  | succ k ih =>
    have hPos := nodeOf_pos (by omega : 0 < k + 1) (rightmost (k + 1))
    have hParent := nodeOf_parent k (rightmost (k + 1))
    obtain ⟨less, rfl⟩ : ∃ less, bound = less + 1 := ⟨bound - 1, by omega⟩
    have hSet : b.bit (nodeOf k (rightmost k)) = true :=
      (he.bit _).mpr ⟨k, Nat.lt_succ_self k, rfl⟩
    obtain ⟨hHead, hEntry⟩ := he.ring k (Nat.lt_succ_self k)
    have hMapped : (h (b.hung M k)).isSome := by simp [hEntry]
    have hFrame := flip_sameFrame b (nodeOf k (rightmost k))
    have hRemove : buddyRemove h (b.blockAt M (k + 1) (2 * rightmost k)) =
        .ok (unlinked h (b.hung M k) ⟨b.headAt (k + 1), b.headAt (k + 1)⟩ ⟨0, 0⟩) :=
      (buddyRemove_eq_ok (hp.virt_of_entry hMapped)).mpr
        ⟨_, hEntry, by simp [hHead], by simp [hHead], rfl⟩
    rw [freeLoop_turn hp.sizes hk (rightmost_lt _), rightmost_half, rightmost_sibling, hSet,
      if_neg (by simp), hRemove, ok_bind_eq]
    rw [rightmost_half] at hParent
    obtain ⟨b', h', hRun, hEdge, hAvail, hOutside⟩ :=
      ih (hp.congr hFrame (unlinked_sameNodes hMapped _ _)) (he.join hp hk) (by omega)
        (by omega : nodeOf k (rightmost k) ≤ less)
    refine ⟨b', h', hRun, hEdge, hAvail, ?_⟩
    intro x hx
    have hSibling := isEntry_entryAt (b := b) hp.sizes.order_ge hk (left_lt k)
    rw [hOutside x (by rwa [hFrame.owns_iff])]
    have hHeadNe : x ≠ b.headAt (k + 1) := by
      rintro rfl
      exact hx (owns_head (by omega))
    apply unlinked_outside _ hHeadNe hHeadNe
    rintro rfl
    exact hx (Or.inr hSibling)

end Edge

end LunarOS
