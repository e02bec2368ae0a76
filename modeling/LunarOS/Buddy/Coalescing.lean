import LunarOS.Buddy.Accounting

/-!
# Coalescing

`Tidy` is the invariant of the runs in which a block is only freed while it is the only live
one. In such a run every free finds the state that one walk from rest has left, so it undoes
the walk: once everything is freed the bits and the list heads are those of a newly built
area (`Tidy.restored`). The base entry is not: its back link does not lead to the list head
again, whatever is freed in whatever order, since the first walk has taken the last link to
the head away and no operation makes one (`NoBack`).
-/

namespace LunarOS

open Logic BuddyArea

/-- A block is freed only while it is the only live one. -/
def Sole (s : Sys) (op : Op) : Prop := ∀ ptr, op = .free ptr → ∃ blk, s.live = [blk]

instance : ∀ s op, Decidable (Sole s op)
  | _, .alloc _ => isTrue (by rintro _ ⟨⟩)
  | s, .free ptr =>
    match h : s.live with
    | [blk] => isTrue fun _ _ => ⟨blk, h⟩
    | [] => isFalse fun hSole => by simpa [h] using hSole ptr rfl
    | _ :: _ :: _ => isFalse fun hSole => by simpa [h] using hSole ptr rfl

structure Tidy (M : Nat) (s : Sys) : Prop where
  coherent : Coherent M s
  spine : ∃ n last, Spine M n last s
  rest : s.live = [] → Rest M s.m.physMem s.b s.m.heap
  single : ∀ blk, s.live = [blk] → ∃ k, Single M k s

section Tidy

variable {M : Nat} {s s' : Sys}

theorem Fresh.tidy (hFresh : Fresh M s) : Tidy M s := by
  refine ⟨hFresh.coherent, ⟨0, 0, .of_rest hFresh.rest hFresh.live⟩, fun _ => hFresh.rest, ?_⟩
  simp [hFresh.live]

theorem Tidy.alloc (ht : Tidy M s) {r : Nat} (h : Step s (.alloc r) s') : Tidy M s' := by
  obtain ⟨n, last, hs⟩ := ht.spine
  rcases hs.alloc h with ⟨-, rfl⟩ | ⟨hPass, -, hNext, -, -, ptr, hLive⟩
  · exact ht
  · refine ⟨ht.coherent.step h, ⟨n + 1, _, hNext⟩, ?_, ?_⟩
    · simp [hLive]
    · intro blk hOne
      have hEmpty : s.live = [] := by simp_all
      rcases (ht.rest hEmpty).alloc hEmpty h with ⟨hRefused, -⟩ | ⟨-, -, hSingle, -⟩
      · exact absurd hRefused hPass
      · exact ⟨_, hSingle⟩

theorem Tidy.free (ht : Tidy M s) {ptr : Nat} (hOne : ∃ blk, s.live = [blk])
    (h : Step s (.free ptr) s') : Tidy M s' ∧ s'.live = [] ∧
      s'.b.available = add64 s.b.available (intShl M) := by
  obtain ⟨blk, hLive⟩ := hOne
  obtain ⟨k, hSingle⟩ := ht.single blk hLive
  obtain ⟨hRest, hNone, -, hAvail⟩ := hSingle.free ht.coherent h
  refine ⟨⟨ht.coherent.step h, ⟨0, 0, .of_rest hRest hNone⟩, fun _ => hRest, ?_⟩, hNone, hAvail⟩
  simp [hNone]

theorem Tidy.step (ht : Tidy M s) {op : Op} (hSole : Sole s op) (h : Step s op s') :
    Tidy M s' := by
  cases op with
  | alloc r => exact ht.alloc h
  | free ptr => exact (ht.free (hSole ptr rfl) h).1

end Tidy

/-! ## The back link of the base entry -/

/-- No list node has `a` as its predecessor. -/
def NoBack (h : Heap) (a : Nat) : Prop := ∀ x c, h x = some c → c.prev ≠ a

section Back

variable {h h' : Heap} {a : Nat}

/-- Linking an entry in at a list whose last node is `prev`. The entry itself may have had the
predecessor before. -/
theorem linked_noBack {lst entry prev : Nat} (hEntry : entry ≠ a) (hPrev : prev ≠ a)
    (hBack : ∀ x c, h x = some c → c.prev = a → x = entry) :
    NoBack (linked h lst entry prev) a := by
  intro x c hc
  unfold linked at hc
  by_cases hx : x = entry
  · rw [if_pos hx] at hc
    cases hc
    exact hPrev
  · rw [if_neg hx] at hc
    obtain ⟨d, hd, rfl⟩ := Option.map_eq_some_iff.mp hc
    dsimp only
    split
    · exact hEntry
    · exact fun hEq => hx (hBack x d hd hEq)

theorem NoBack.linked {lst entry : Nat} {c : ListT} (hBack : NoBack h a) (hEntry : entry ≠ a)
    (hc : h lst = some c) : NoBack (linked h lst entry c.prev) a :=
  linked_noBack hEntry (hBack lst c hc) fun x d hd hEq => absurd hEq (hBack x d hd)

theorem NoBack.remove {addr : Nat} (hBack : NoBack h a) (ha : a ≠ 0)
    (hOk : buddyRemove h addr = .ok h') : NoBack h' a := by
  obtain ⟨c, hc, -, -, rfl⟩ := (buddyRemove_eq_ok rfl).mp hOk
  intro x d hd
  unfold unlinked at hd
  split at hd
  · cases hd
    exact ha.symm
  · obtain ⟨e, he, rfl⟩ := Option.map_eq_some_iff.mp hd
    dsimp only
    split
    · exact hBack _ c hc
    · exact hBack x e he

theorem NoBack.freeLoop (ha : a ≠ 0) : ∀ (bound node bkt : Nat) {b b' : BuddyArea} {h h' : Heap}
    {node' bkt' : Nat}, NoBack h a → buddyFreeLoop bound node bkt b h = .ok (node', bkt', b', h') →
      NoBack h' a := by
  intro bound
  induction bound with
  | zero =>
    intro node bkt b b' h h' node' bkt' hBack hOk
    cases hOk
    exact hBack
  | succ bound ih =>
    intro node bkt b b' h h' node' bkt' hBack hOk
    unfold buddyFreeLoop at hOk
    split at hOk
    · cases hOk
      exact hBack
    · obtain ⟨b1, -, hOk⟩ := bind_eq_ok.mp hOk
      obtain ⟨isSplit, -, hOk⟩ := bind_eq_ok.mp hOk
      cases isSplit with
      | true =>
        cases hOk
        exact hBack
      | false =>
        obtain ⟨h1, hRemove, hOk⟩ := bind_eq_ok.mp hOk
        exact ih _ _ (hBack.remove ha hRemove) hOk

end Back

section Heads

variable {M bkt : Nat} {s s' : Sys} {op : Op}

theorem NoBack.walkLoop (hBkt : bkt ≤ M - 12) : ∀ (n l e : Nat) {b b' : BuddyArea} {m m' : Mem}
    {ret : Option Nat}, l + n = bkt → e < 2 ^ l → Placed M b m.heap →
      NoBack m.heap (b.headAt 0) →
      buddyTreeWalkLoop bkt n (nodeOf l e) (l + 1) b m = .ok (ret, b', m') →
        NoBack m'.heap (b.headAt 0) := by
  intro n
  induction n with
  | zero =>
    intro l e b b' m m' ret _ _ _ hBack hOk
    cases hOk
    exact hBack
  | succ n ih =>
    intro l e b b' m m' ret hl he hp hBack hOk
    have hGe := hp.sizes.order_ge
    have hLeft : 2 * e < 2 ^ (l + 1) := by rw [Nat.pow_succ]; omega
    have hRight : 2 * e + 1 < 2 ^ (l + 1) := by rw [Nat.pow_succ]; omega
    have hNe := (hp.head_ne_entry (by omega : 0 < M - 11) (l + 1) (2 * e)).symm
    cases walkLoop_turn hp (by omega) he hOk with
    | left _ hOk => exact ih (l + 1) (2 * e) (by omega) hLeft hp hBack hOk
    | right _ hc hEntry hHeap _ hOk =>
      subst hHeap
      have hDone := ih (b := b.split (nodeOf l e)) (l + 1) (2 * e + 1) (by omega) hRight
        (hp.congr (split_sameFrame b _) (linked_sameNodes hEntry _ _)) (hBack.linked hNe hc) hOk
      exact hDone
    | last _ hc _ hHeap _ _ _ hOrder =>
      subst hHeap
      rw [(Mem.writePage_frame hOrder).1]
      exact hBack.linked hNe hc

/-- What the arena held before has no link to the first list head. -/
def NoStale (s : Sys) : Prop :=
  ∀ x c, s.m.heap x = some c → c.prev = s.b.headAt 0 → x = s.b.baseEntry

/-- The first walk pushes the base block on another list, and nothing is left that goes back to
the head of the first one. -/
theorem Fresh.walk_noBack (hFresh : Fresh M s) (hStale : NoStale s) {b' : BuddyArea} {m' : Mem}
    {ret : Option Nat} {sz : Nat} (hPos : 0 < bkt) (hBkt : bkt ≤ M - 12)
    (hOk : buddyTreeWalk (s.b.charged sz) bkt s.m = .ok (ret, b', m')) :
    NoBack m'.heap (s.b.headAt 0) := by
  have hRest := hFresh.rest
  have hGe := hRest.sound.order_ge
  have hp := (hRest.sound.charged sz).placed
  have hNe := (hp.head_ne_entry (by omega : 0 < M - 11) (0 + 1) (2 * 0)).symm
  have hOther : s.b.headAt 1 ≠ s.b.headAt 0 := mt headAt_inj.mp (by omega)
  have hHead : s.m.heap (s.b.headAt 1) = some ⟨s.b.headAt 1, s.b.headAt 1⟩ :=
    hRest.others 1 (by omega) (by omega)
  have hPush : ∀ {c : ListT}, s.m.heap (s.b.headAt 1) = some c →
      NoBack (linked s.m.heap (s.b.headAt 1) s.b.baseEntry c.prev) (s.b.headAt 0) := by
    intro c hc
    obtain rfl := Option.some.inj (hHead.symm.trans hc)
    refine linked_noBack ?_ hOther hStale
    simpa using hNe
  obtain ⟨n, rfl⟩ : ∃ n, bkt = n + 1 := ⟨bkt - 1, by omega⟩
  cases walkLoop_turn hp (l := 0) (e := 0) (by omega) Nat.one_pos hOk with
  | left hSet _ =>
    rw [charged_bit, hRest.clear] at hSet
    cases hSet
  | right _ hc hEntry hHeap _ hOk =>
    subst hHeap
    have hDone := NoBack.walkLoop (b := (s.b.charged sz).split (nodeOf 0 0)) hBkt n 1 1
      (Nat.add_comm 1 n) (by omega)
      (hp.congr (split_sameFrame _ _) (linked_sameNodes hEntry _ _)) (by simpa using hPush hc) hOk
    exact hDone
  | last _ hc _ hHeap _ _ _ hOrder =>
    subst hHeap
    rw [(Mem.writePage_frame hOrder).1]
    simpa using hPush hc

/-- Every call keeps it so. -/
theorem NoBack.step (hc : Coherent M s) (hBack : NoBack s.m.heap (s.b.headAt 0))
    (h : Step s op s') : NoBack s'.m.heap (s'.b.headAt 0) := by
  rw [(h.sameFrame hc).headAt_eq]
  cases op with
  | alloc r =>
    rcases h.alloc_inv hc.sound with ⟨-, rfl⟩ | ⟨-, -, -, ret, b', m', rfl, hWalk, -⟩
    · exact hBack
    · have hDone := NoBack.walkLoop (b := s.b.charged (charge r)) (bucketOf_le M r) _ 0 0
        (Nat.zero_add _) Nat.one_pos (hc.sound.charged _).placed hBack hWalk
      exact hDone
  | free ptr =>
    have hGe := hc.sound.order_ge
    have hNonzero : s.b.headAt 0 ≠ 0 := by
      have hHeads := hc.sound.shape.heads_ge
      unfold headAt VMM_KERNEL_START at *
      omega
    obtain ⟨blk, -, i, ref, k, j, b1, h1, c, -, -, -, -, -, hLoop, -, hHead, rfl⟩ :=
      h.free_inv hc
    exact (NoBack.freeLoop hNonzero _ _ _ hBack hLoop).linked
      (hc.sound.head_ne_entry (by omega) k j).symm hHead

end Heads

/-! ## Everything freed -/

/-- The bits are clear and the free lists are the rings of a newly built area. -/
structure Coalesced (s : Sys) : Prop where
  bits : ∀ n, s.b.bit n = false
  root : Circular s.m.heap (s.b.headAt 0) [vmmPhys2virt s.b.base]
  others : ∀ k, 0 < k → k < buddyMaxBucket s.b → Circular s.m.heap (s.b.headAt k) []

section Coalesced

variable {M : Nat} {s0 s : Sys} {ops : List Op}

theorem Rest.virt_base {physMem : List MemArea} {b : BuddyArea} {h : Heap}
    (hr : Rest M physMem b h) : vmmPhys2virt b.base = b.baseEntry := by
  simpa using hr.sound.shape.phys2virt_block (Nat.zero_le _) (by omega : 0 < 2 ^ 0)

theorem Fresh.coalesced (hFresh : Fresh M s) : Coalesced s := by
  have hRest := hFresh.rest
  have hShape := hFresh.shape
  have hOrder := hShape.order_ge
  have hNe : s.b.headAt 0 ≠ s.b.baseEntry := by
    simpa using hShape.head_ne_entry (by omega : 0 < M - 11) 0 0
  refine ⟨hRest.clear, ?_, ?_⟩
  · rw [hRest.virt_base]
    exact circular_singleton hNe hRest.root hFresh.heap.2.2
  · intro k hPos hk
    rw [hShape.maxBucket_eq] at hk
    exact circular_nil (hRest.others k hPos hk)

/-- As long as nothing is freed, an area with nothing live is the newly built one. -/
theorem Fresh.unused (hFresh : Fresh M s0) (hRun : Run Step s0 ops s)
    (hFrees : ∀ ptr, Op.free ptr ∉ ops) : s = s0 ∨ s.live ≠ [] := by
  induction hRun with
  | nil => exact Or.inl rfl
  | @snoc ops t op s' _ hLast ih =>
    have hPast := ih fun ptr hMem => hFrees ptr (List.mem_append_left _ hMem)
    cases op with
    | free ptr => exact absurd (by simp) (hFrees ptr)
    | alloc r =>
      rcases hPast with rfl | hLive
      · rcases hFresh.rest.alloc hFresh.live hLast with ⟨-, hSame⟩ | ⟨-, -, hSingle, -⟩
        · exact Or.inl hSame
        · exact Or.inr (by simp [hSingle.live])
      · cases hLast with
        | served _ _ => exact Or.inr (by simp)
        | refused _ => exact Or.inr hLive

/-- Once a block has been handed out, nothing goes back to the head of the first list. -/
theorem Fresh.used_noBack (hFresh : Fresh M s0) (hStale : NoStale s0) (hRun : Run Step s0 ops s) :
    (s = s0 ∧ ∀ ptr, Op.free ptr ∉ ops) ∨ NoBack s.m.heap (s.b.headAt 0) := by
  induction hRun with
  | nil => exact Or.inl ⟨rfl, by simp⟩
  | @snoc ops t op s' hPart hLast ih =>
    rcases ih with ⟨rfl, hFrees⟩ | hBack
    · cases op with
      | free ptr =>
        obtain ⟨blk, hMem, -⟩ := hLast.free_inv hFresh.coherent
        rw [hFresh.live] at hMem
        cases hMem
      | alloc r =>
        rcases hLast.alloc_inv hFresh.rest.sound with
          ⟨-, hSame⟩ | ⟨-, -, hEmpty, ret, b', m', rfl, hWalk, w⟩
        · refine Or.inl ⟨hSame, fun ptr hMem => ?_⟩
          rcases List.mem_append.mp hMem with hOld | hNew
          · exact hFrees ptr hOld
          · simp at hNew
        · right
          dsimp only
          rw [((charged_sameFrame _ _).trans w.sameFrame).headAt_eq]
          exact hFresh.walk_noBack hStale (hFresh.rest.bucket_pos hEmpty) (bucketOf_le M r) hWalk
    · exact Or.inr (hBack.step (Reach.coherent hFresh ⟨_, hPart⟩) hLast)

/-- A run that frees nothing and ends with nothing live leaves the area as it was built. A run
that frees a block never restores the first list, unless the arena happened to hold a link to
its head. -/
theorem coalesced_iff (hFresh : Fresh M s0) (hRun : Run Step s0 ops s) (hFreed : s.live = []) :
    ((∀ ptr, Op.free ptr ∉ ops) → Coalesced s) ∧
      (NoStale s0 → Coalesced s → ∀ ptr, Op.free ptr ∉ ops) := by
  constructor
  · intro hFrees
    rcases hFresh.unused hRun hFrees with rfl | hLive
    · exact hFresh.coalesced
    · exact absurd hFreed hLive
  · intro hStale hCoalesced
    rcases hFresh.used_noBack hStale hRun with ⟨-, hFrees⟩ | hBack
    · exact hFrees
    · obtain ⟨-, ⟨c, hc, hPrev⟩, -⟩ := hCoalesced.root.1
      exact absurd hPrev (hBack _ c hc)

/-- What does come back when every block was freed while it was the only live one: the bits, the
list heads, and the lists as they are read along `next`. -/
theorem Tidy.restored (ht : Tidy M s) (hFreed : s.live = []) :
    (∀ n, s.b.bit n = false) ∧
      s.m.heap (s.b.headAt 0) = some ⟨s.b.baseEntry, s.b.baseEntry⟩ ∧
      (∀ p, Visits s.m.heap (s.b.headAt 0) p ↔ p = s.b.baseEntry) ∧
      ∀ k, 0 < k → k < M - 11 → Circular s.m.heap (s.b.headAt k) [] := by
  have hRest := ht.rest hFreed
  have hOrder := hRest.sound.order_ge
  have hNe : s.b.baseEntry ≠ s.b.headAt 0 := by
    simpa using (hRest.sound.head_ne_entry (by omega : 0 < M - 11) 0 0).symm
  obtain ⟨back, hBase⟩ := hRest.base
  exact ⟨hRest.clear, hRest.root, visits_one hRest.root rfl hBase rfl hNe,
    fun k hPos hk => circular_nil (hRest.others k hPos hk)⟩

end Coalesced

theorem sample_noStale : NoStale sample := by
  have hShape := sample_fresh.shape
  have hHead : sample.b.headAt 0 = 0xffff800000110140 := rfl
  have hBuilt : Built 19 0xffff800000110000 sample.b (pagesHeap 0x200000 19) sample.m.heap :=
    buddyAreaInit_built (pagesHeap_kernel hShape.window) hShape.toSizes
      (by unfold VMM_KERNEL_START; omega) (by unfold BuddyArea.size VMM_RESERVED_DM_START; omega)
      hShape.heads_ge hShape.heads_le sample_built
  intro x c hx hBack
  rcases hBuilt.back x c hx hBack with hEntry | rfl | hOld
  · exact hEntry
  · rw [hBuilt.node] at hx
    · obtain rfl := Option.some.inj hx
      rw [hHead] at hBack
      unfold BuddyArea.headOffset at hBack
      dsimp only at hBack
      omega
    · intro k _
      have hFreelist : sample.b.freelist = 0xffff800000110140 := rfl
      unfold headAt BuddyArea.headOffset
      rw [hFreelist]
      omega
  · unfold pagesHeap at hOld
    split at hOld
    · cases hOld
      rw [hHead] at hBack
      dsimp only at hBack
      omega
    · cases hOld

theorem coalesced_sample :
    (∃ s, Run Step large [.alloc 0x80000000] s ∧ s.live = [] ∧ Coalesced s) ∧
      ∃ s, Run Step sample [.alloc 0x10000, .free 0x270000] s ∧ s.live = [] ∧ ¬ Coalesced s := by
  constructor
  · have hEnd : (large.performAll 20 [.alloc 0x80000000]).map (fun s => s.live) = some [] := by
      decide +kernel
    obtain ⟨s, hAll, hFreed⟩ := Option.map_eq_some_iff.mp hEnd
    have hRun := Sys.performAll_run hAll
    exact ⟨s, hRun, hFreed, (coalesced_iff large_fresh hRun hFreed).1 (by simp)⟩
  · have hEnd : (sample.performAll 12 [.alloc 0x10000, .free 0x270000]).map (fun s => s.live) =
        some [] := by decide +kernel
    obtain ⟨s, hAll, hFreed⟩ := Option.map_eq_some_iff.mp hEnd
    have hRun := Sys.performAll_run hAll
    refine ⟨s, hRun, hFreed, fun hCoalesced => ?_⟩
    exact (coalesced_iff sample_fresh hRun hFreed).2 sample_noStale hCoalesced 0x270000 (by simp)

/-- One block, taken and freed: the base entry points back at itself, not at the list head. -/
theorem back_link_lost : Fresh 19 sample ∧ ∃ s, Run Step sample
    [.alloc 0x10000, .free 0x270000] s ∧ s.live = [] ∧ s.b.base = 0x200000 ∧
      s.b.headAt 0 = 0xffff800000110140 ∧
      s.m.heap 0xffff888000200000 = some ⟨0xffff888000200000, 0xffff800000110140⟩ ∧
      ¬ Coalesced s := by
  have hEnd : (sample.performAll 12 [.alloc 0x10000, .free 0x270000]).map
      (fun s => (s.live, s.b.base, s.b.headAt 0, s.m.heap 0xffff888000200000)) =
      some ([], 0x200000, 0xffff800000110140,
        some ⟨0xffff888000200000, 0xffff800000110140⟩) := by decide +kernel
  obtain ⟨s, hAll, hAt⟩ := Option.map_eq_some_iff.mp hEnd
  obtain ⟨hFreed, hBase, hHead, hEntry⟩ : s.live = [] ∧ s.b.base = 0x200000 ∧
      s.b.headAt 0 = 0xffff800000110140 ∧
      s.m.heap 0xffff888000200000 = some ⟨0xffff888000200000, 0xffff800000110140⟩ := by
    simpa using hAt
  refine ⟨sample_fresh, s, Sys.performAll_run hAll, hFreed, hBase, hHead, hEntry, ?_⟩
  intro hCoalesced
  obtain ⟨-, ⟨c, hc, hPrev⟩, -⟩ := hCoalesced.root.1
  have hVirt : vmmPhys2virt s.b.base = 0xffff888000200000 := by
    rw [hBase]
    rfl
  rw [hVirt, hEntry] at hc
  obtain rfl := Option.some.inj hc
  rw [hHead] at hPrev
  cases hPrev

end LunarOS
