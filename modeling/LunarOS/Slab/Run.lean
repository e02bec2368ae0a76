import Mathlib.Data.List.Perm.Subperm
import LunarOS.Logic.Pool
import LunarOS.Logic.Run
import LunarOS.Slab.Cache

/-!
# Runs of the slab allocator

`Ready` is the state that `init_slab` aims at. From there on the objects of a class that are
free and those that are live are together all its objects (`Stocked`), whatever the order of
frees. `proper_iff` says which sequences of calls do what they should: those in which no
`kmalloc` is for more than 1024 bytes, or for a class whose objects are all live. The test of
`cache_get` lets the index `entries_sz` pass, and `kmalloc` follows the `NULL` of the last node.
-/

namespace LunarOS

open Logic

/-- Size classes; the last node of the table is none. -/
def slabClasses : Nat := 8

/-- The objects in a cache from which nothing has been taken. -/
def Cache.objects (c : Cache) : List Nat := Pool.free c.entries 0 c.entriesSz

/-- A full cache of class `i`, whose objects lie side by side from `base` on, in any order. -/
structure Cache.Full (c : Cache) (i base : Nat) : Prop where
  index : c.index = 0
  entriesSz : c.entriesSz = PGSIZE / objSize i
  objects : c.objects.Perm ((List.range (PGSIZE / objSize i)).map fun k => base + k * objSize i)

/-- What `init_slab` aims at. -/
structure Ready (s : Slabs) : Prop where
  full : ∀ i < slabClasses, ∃ c base, s.mem (s.cache i) = some c ∧ c.Full i base ∧
    ∀ o ∈ c.objects, vmmVirt2slab s.pages.m o = .ok (s.nodeAt i)
  distinct : ∀ i < slabClasses, ∀ j < slabClasses, s.cache i = s.cache j → i = j
  last : s.cache slabClasses = 0
  null : s.mem 0 = none
  table : 0 < s.slabsAt

/-- The slabs and, for each class, the pointers that are live. -/
structure SlabRun where
  s : Slabs
  live : Nat → List Nat

inductive SlabOp
  | kmalloc (size : Nat)
  | kfree (ptr : Nat)
  deriving DecidableEq, Repr

def SlabRun.setLive (r : SlabRun) (s : Slabs) (i : Nat) (l : List Nat) : SlabRun :=
  ⟨s, fun j => if j = i then l else r.live j⟩

inductive SlabStep (r : SlabRun) : SlabOp → SlabRun → Prop
  | served {size p : Nat} {s : Slabs} : kmalloc r.s size = .ok (p, s) → p ≠ 0 →
      SlabStep r (.kmalloc size)
        (r.setLive s (kmallocIndex size) (p :: r.live (kmallocIndex size)))
  | refused {size : Nat} {s : Slabs} : kmalloc r.s size = .ok (0, s) →
      SlabStep r (.kmalloc size) ⟨s, r.live⟩
  | freed {p i : Nat} {s : Slabs} : p ∈ r.live i → kfree r.s p = .ok s →
      SlabStep r (.kfree p) (r.setLive s i ((r.live i).erase p))

/-- No index has passed the end of its array. -/
def Bounded (s : Slabs) : Prop :=
  ∀ i < slabClasses, ∀ c, s.mem (s.cache i) = some c → c.index ≤ c.entriesSz

/-- The objects of class `i`, all free in `s0`. -/
def Slabs.objects (s0 : Slabs) (i : Nat) : List Nat :=
  ((s0.mem (s0.cache i)).map Cache.objects).getD []

/-- The entry of the cache of class `i` that is accessed, if any, lies in the array. -/
def Slabs.Inside (s : Slabs) (i : Nat) (entry : Cache → Option Nat) : Prop :=
  ∀ c, s.mem (s.cache i) = some c → ∀ k ∈ entry c, k < c.entriesSz

/-- What the call must do. What is freed goes back to the cache of its class, and the next
request for the class is served. -/
def Proper (s0 : Slabs) (r : SlabRun) : SlabOp → Prop
  | .kmalloc size => r.s.Inside (kmallocIndex size) Cache.getEntry ∧
      ∃ p s, kmalloc r.s size = .ok (p, s) ∧ Bounded s ∧
        (p = 0 ↔ 1024 < size ∨
          ∀ o ∈ s0.objects (kmallocIndex size), o ∈ r.live (kmallocIndex size)) ∧
        (p ≠ 0 → (∀ j, p ∉ r.live j) ∧ p ∈ s0.objects (kmallocIndex size) ∧
          size ≤ objSize (kmallocIndex size) ∧ ksize s p = .ok (objSize (kmallocIndex size)))
  | .kfree p => ∀ i, p ∈ r.live i → r.s.Inside i Cache.putEntry ∧
      kfree r.s p = cachePut r.s (r.s.cache i) p ∧
      ∃ s, kfree r.s p = .ok s ∧ Bounded s ∧
        ∀ size, kmallocIndex size = i → ∃ q s', kmalloc s size = .ok (q, s') ∧ q ≠ 0

/-- The request has a class, and some object of the class is not live. -/
def HasRoom (s0 : Slabs) (r : SlabRun) : SlabOp → Prop
  | .kmalloc size => size ≤ 1024 ∧
      ∃ o ∈ s0.objects (kmallocIndex size), o ∉ r.live (kmallocIndex size)
  | .kfree _ => True

/-! ## Classes -/

theorem kmallocIndex_lt_iff {size : Nat} : kmallocIndex size < slabClasses ↔ size ≤ 1024 := by
  unfold kmallocIndex slabClasses
  constructor
  · intro h
    by_contra hBig
    simp only [show ¬ size ≤ 8 by omega, show ¬ size ≤ 16 by omega, show ¬ size ≤ 32 by omega,
      show ¬ size ≤ 64 by omega, show ¬ size ≤ 128 by omega, show ¬ size ≤ 256 by omega,
      show ¬ size ≤ 512 by omega, hBig, if_false] at h
    omega
  · intro h
    rw [if_pos h]
    repeat' split
    all_goals omega

theorem kmallocIndex_last {size : Nat} (h : 1024 < size) : kmallocIndex size = slabClasses := by
  have hNot := mt kmallocIndex_lt_iff.mp (by omega : ¬ size ≤ 1024)
  have hLe : kmallocIndex size ≤ slabClasses := by
    unfold kmallocIndex slabClasses
    repeat' split
    all_goals omega
  omega

/-- The class of a request holds it. -/
theorem le_objSize {size : Nat} (h : size ≤ 1024) : size ≤ objSize (kmallocIndex size) := by
  unfold kmallocIndex
  rw [if_pos h]
  repeat' split
  all_goals simp only [objSize, slabSizes, List.getD_cons_succ, List.getD_cons_zero]
  all_goals omega

theorem nodeAt_inj {s : Slabs} {i j : Nat} : s.nodeAt i = s.nodeAt j ↔ i = j := by
  unfold Slabs.nodeAt kmemCacheNodeSize
  omega

theorem node_nodeAt (s : Slabs) {i : Nat} (hi : i ≤ slabClasses) : s.node (s.nodeAt i) = .ok i := by
  unfold Slabs.node
  split
  · next j hFind =>
    have hSame : s.nodeAt j = s.nodeAt i := by simpa using List.find?_some hFind
    rw [nodeAt_inj.mp hSame]
  · next hFind =>
    have hMem : i ∈ List.range slabSizes.length := List.mem_range.mpr (by
      unfold slabClasses at hi
      simp only [slabSizes, List.length_cons, List.length_nil]
      omega)
    exact absurd (List.find?_eq_none.mp hFind i hMem) (by simp)

/-! ## The invariant -/

/-- The cache of class `i`, with the objects that were in it at first. -/
structure Stocked (s0 : Slabs) (r : SlabRun) (i : Nat) (c : Cache) : Prop where
  at_ : r.s.mem (s0.cache i) = some c
  entriesSz : c.entriesSz = PGSIZE / objSize i
  balanced : Pool.Balanced c.entries c.index c.entriesSz (r.live i) (s0.objects i)

structure SlabInv (s0 : Slabs) (r : SlabRun) : Prop where
  pages : r.s.pages = s0.pages
  slabsAt : r.s.slabsAt = s0.slabsAt
  cache : r.s.cache = s0.cache
  null : r.s.mem 0 = none
  stocked : ∀ i < slabClasses, ∃ c, Stocked s0 r i c
  others : ∀ i, slabClasses ≤ i → r.live i = []

section Ready

variable {s0 : Slabs} (hReady : Ready s0)
include hReady

theorem Ready.objects_nodup {i : Nat} (hi : i < slabClasses) : (s0.objects i).Nodup := by
  obtain ⟨c, base, hc, hFull, -⟩ := hReady.full i hi
  have hSizes : ∀ i < slabClasses, 0 < objSize i := by decide
  have hSize := hSizes i hi
  have hObjects : s0.objects i = c.objects := by simp [Slabs.objects, hc]
  rw [hObjects, hFull.objects.nodup_iff]
  apply List.Nodup.map _ List.nodup_range
  intro k k' hEq
  dsimp only at hEq
  exact Nat.eq_of_mul_eq_mul_right hSize (Nat.add_left_cancel hEq)

/-- An object leads to the node of its class. -/
theorem Ready.record {i o : Nat} (hi : i < slabClasses) (ho : o ∈ s0.objects i) :
    vmmVirt2slab s0.pages.m o = .ok (s0.nodeAt i) := by
  obtain ⟨c, base, hc, -, hRecord⟩ := hReady.full i hi
  have hObjects : s0.objects i = c.objects := by simp [Slabs.objects, hc]
  exact hRecord o (hObjects ▸ ho)

theorem Ready.object_ne_zero {i o : Nat} (hi : i < slabClasses) (ho : o ∈ s0.objects i) : o ≠ 0 := by
  rintro rfl
  have hRecord := hReady.record hi ho
  have hPanic : vmmVirt2phys 0 = .error (.panic "TODO") := rfl
  unfold vmmVirt2slab at hRecord
  rw [hPanic] at hRecord
  cases hRecord

/-- No object belongs to two classes. -/
theorem Ready.class_unique {i j o : Nat} (hi : i < slabClasses) (hj : j < slabClasses)
    (ho : o ∈ s0.objects i) (ho' : o ∈ s0.objects j) : i = j := by
  have hEq := (hReady.record hi ho).symm.trans (hReady.record hj ho')
  exact nodeAt_inj.mp (Except.ok.inj hEq)

theorem Ready.inv : SlabInv s0 ⟨s0, fun _ => []⟩ := by
  refine ⟨rfl, rfl, rfl, hReady.null, ?_, fun _ _ => rfl⟩
  intro i hi
  obtain ⟨c, base, hc, hFull, -⟩ := hReady.full i hi
  refine ⟨c, hc, hFull.entriesSz, ?_⟩
  rw [hFull.index]
  exact Pool.Balanced.init (by simp [Slabs.objects, hc, Cache.objects])

end Ready

section Inv

variable {s0 : Slabs} {r : SlabRun}

theorem SlabInv.bounded (h : SlabInv s0 r) : Bounded r.s := by
  intro i hi c hc
  obtain ⟨c', hStock⟩ := h.stocked i hi
  rw [h.cache] at hc
  obtain rfl := Option.some.inj (hc.symm.trans hStock.at_)
  exact hStock.balanced.index_le

theorem SlabInv.live_class (h : SlabInv s0 r) {i p : Nat} (hp : p ∈ r.live i) :
    i < slabClasses ∧ p ∈ s0.objects i := by
  have hi : i < slabClasses := by
    by_contra hge
    rw [h.others i (Nat.le_of_not_lt hge)] at hp
    cases hp
  obtain ⟨c, hStock⟩ := h.stocked i hi
  exact ⟨hi, hStock.balanced.live_subset hp⟩

/-- An object leads to its node as long as the page records and the table stay. -/
theorem ksize_object (hReady : Ready s0) {i o : Nat} (hi : i < slabClasses)
    (ho : o ∈ s0.objects i) {s : Slabs} (hPages : s.pages = s0.pages)
    (hTable : s.slabsAt = s0.slabsAt) : ksize s o = .ok (objSize i) := by
  have hNode : s.nodeAt i = s0.nodeAt i := by
    unfold Slabs.nodeAt
    rw [hTable]
  have hSlab : s0.nodeAt i ≠ 0 := by
    have := hReady.table
    unfold Slabs.nodeAt
    omega
  unfold ksize
  rw [if_neg (hReady.object_ne_zero hi ho), hPages, hReady.record hi ho, ok_bind_eq,
    if_neg hSlab, ← hNode, node_nodeAt s hi.le]
  rfl

/-- A call that changes the cache of one class and the pointers live in it. -/
theorem SlabInv.update (h : SlabInv s0 r) (hReady : Ready s0) {i : Nat} (hi : i < slabClasses)
    {c c' : Cache} {l : List Nat} (hStock : Stocked s0 r i c) (hSize : c'.entriesSz = c.entriesSz)
    (hBalanced : Pool.Balanced c'.entries c'.index c.entriesSz l (s0.objects i)) :
    SlabInv s0 (r.setLive (r.s.writeCache (s0.cache i) c') i l) := by
  have hNull : (0 : Nat) ≠ s0.cache i := by
    intro hEq
    have hAt := hStock.at_
    rw [← hEq, h.null] at hAt
    cases hAt
  refine ⟨h.pages, h.slabsAt, h.cache, ?_, ?_, ?_⟩
  · simp only [SlabRun.setLive, Slabs.writeCache, if_neg hNull]
    exact h.null
  · intro j hj
    by_cases hEq : j = i
    · subst hEq
      refine ⟨c', ?_, hSize.trans hStock.entriesSz, ?_⟩
      · simp [SlabRun.setLive, Slabs.writeCache]
      · simpa [SlabRun.setLive, hSize] using hBalanced
    · have hOther : s0.cache j ≠ s0.cache i := fun hSame => hEq (hReady.distinct j hj i hi hSame)
      obtain ⟨d, hd⟩ := h.stocked j hj
      refine ⟨d, ?_, hd.entriesSz, ?_⟩
      · simpa [SlabRun.setLive, Slabs.writeCache, hOther] using hd.at_
      · simpa [SlabRun.setLive, hEq] using hd.balanced
  · intro j hj
    have hOther : j ≠ i := by omega
    simpa [SlabRun.setLive, hOther] using h.others j hj

theorem Stocked.getEntry {i : Nat} {c : Cache} (h : Stocked s0 r i c) :
    c.getEntry = some c.index := if_neg (by have := h.balanced.index_le; omega)

/-- An object is left for exactly those requests whose cache has one. -/
theorem Stocked.lt_iff (hReady : Ready s0) {i : Nat} (hi : i < slabClasses) {c : Cache}
    (h : Stocked s0 r i c) : c.index < c.entriesSz ↔ ∃ o ∈ s0.objects i, o ∉ r.live i :=
  h.balanced.lt_iff (hReady.objects_nodup hi)

/-- `kmalloc` takes the entry at the index. -/
theorem SlabInv.kmalloc_eq (h : SlabInv s0 r) {size : Nat} {c : Cache}
    (hStock : Stocked s0 r (kmallocIndex size) c) : kmalloc r.s size =
      .ok (c.entries c.index,
        r.s.writeCache (s0.cache (kmallocIndex size)) { c with index := c.index + 1 }) := by
  have hLe := hStock.balanced.index_le
  have hWord : add64 c.index 1 = c.index + 1 := by
    have hSize : c.entriesSz ≤ PGSIZE := by
      rw [hStock.entriesSz]
      exact Nat.div_le_self _ _
    apply add64_eq
    unfold PGSIZE at hSize
    unfold wordSize
    omega
  unfold kmalloc cacheGet Slabs.readCache
  rw [h.cache, hStock.at_]
  simp only [ok_bind_eq, hStock.getEntry, hWord]
  rfl

/-- The node that a request above 1024 bytes goes to has no cache. -/
theorem SlabInv.kmalloc_oversize (h : SlabInv s0 r) (hReady : Ready s0) {size : Nat}
    (hBig : 1024 < size) : kmalloc r.s size = .error (.fault (.cache 0)) := by
  unfold kmalloc cacheGet Slabs.readCache
  rw [h.cache, kmallocIndex_last hBig, hReady.last, h.null]
  rfl

/-- A live pointer is put back into the cache of its class. -/
theorem SlabInv.kfree_put (h : SlabInv s0 r) (hReady : Ready s0) {i p : Nat}
    (hp : p ∈ r.live i) : kfree r.s p = cachePut r.s (r.s.cache i) p := by
  obtain ⟨hi, ho⟩ := h.live_class hp
  have hSlab : s0.nodeAt i ≠ 0 := by
    have := hReady.table
    unfold Slabs.nodeAt
    omega
  have hSame : s0.nodeAt i = r.s.nodeAt i := by
    unfold Slabs.nodeAt
    rw [h.slabsAt]
  unfold kfree
  rw [if_neg (hReady.object_ne_zero hi ho), h.pages, hReady.record hi ho, ok_bind_eq,
    if_neg hSlab, hSame, node_nodeAt r.s hi.le, ok_bind_eq]

/-- A live object was handed out, so there is an entry below the index to put it in. -/
theorem SlabInv.putEntry (h : SlabInv s0 r) (hReady : Ready s0) {i p : Nat} {c : Cache}
    (hp : p ∈ r.live i) (hStock : Stocked s0 r i c) :
    0 < c.index ∧ c.putEntry = some (c.index - 1) := by
  obtain ⟨hi, ho⟩ := h.live_class hp
  have hLength : (s0.objects i).length = c.entriesSz := by
    obtain ⟨c0, base, hc, hFull, -⟩ := hReady.full i hi
    have hObjects : s0.objects i = c0.objects := by simp [Slabs.objects, hc]
    rw [hObjects, Cache.objects, Pool.free_length, hFull.entriesSz, hStock.entriesSz, Nat.sub_zero]
  have hPos : 0 < c.index := by
    rw [hStock.balanced.index_eq hLength]
    exact List.length_pos_of_mem hp
  have hLe := hStock.balanced.index_le
  have hSmall : c.index < wordSize := by
    have hSize : c.entriesSz ≤ PGSIZE := by
      rw [hStock.entriesSz]
      exact Nat.div_le_self _ _
    unfold PGSIZE at hSize
    unfold wordSize
    omega
  refine ⟨hPos, ?_⟩
  unfold Cache.putEntry
  rw [if_neg hPos.ne', sub64_eq hPos hSmall]

/-- `kfree` of a live pointer writes it back below the index. -/
theorem SlabInv.kfree_eq (h : SlabInv s0 r) (hReady : Ready s0) {i p : Nat} {c : Cache}
    (hp : p ∈ r.live i) (hStock : Stocked s0 r i c) :
    0 < c.index ∧ kfree r.s p = .ok (r.s.writeCache (s0.cache i)
      ({ c with index := c.index - 1 }.set (c.index - 1) p)) := by
  obtain ⟨hPos, hEntry⟩ := h.putEntry hReady hp hStock
  refine ⟨hPos, ?_⟩
  rw [h.kfree_put hReady hp, h.cache]
  unfold cachePut Slabs.readCache
  rw [hStock.at_, ok_bind_eq, hEntry]
  rfl

theorem SlabInv.step (h : SlabInv s0 r) (hReady : Ready s0) {op : SlabOp} {r' : SlabRun}
    (hRoom : HasRoom s0 r op) (hStep : SlabStep r op r') : SlabInv s0 r' := by
  cases hStep with
  | @served size p s hOk hne =>
    obtain ⟨hFits, hLeft⟩ := hRoom
    have hi := kmallocIndex_lt_iff.mpr hFits
    obtain ⟨c, hStock⟩ := h.stocked _ hi
    rw [h.kmalloc_eq hStock] at hOk
    cases hOk
    exact h.update hReady hi hStock rfl
      (hStock.balanced.take ((hStock.lt_iff hReady hi).mpr hLeft))
  | @refused size s hOk =>
    obtain ⟨hFits, hLeft⟩ := hRoom
    have hi := kmallocIndex_lt_iff.mpr hFits
    obtain ⟨c, hStock⟩ := h.stocked _ hi
    rw [h.kmalloc_eq hStock] at hOk
    have hZero : c.entries c.index = 0 := congrArg Prod.fst (Except.ok.inj hOk)
    have hObject := hStock.balanced.mem_all ((hStock.lt_iff hReady hi).mpr hLeft)
    exact absurd hZero (hReady.object_ne_zero hi hObject)
  | @freed p i s hp hOk =>
    obtain ⟨hi, -⟩ := h.live_class hp
    obtain ⟨c, hStock⟩ := h.stocked i hi
    obtain ⟨hPos, hFree⟩ := h.kfree_eq hReady hp hStock
    rw [hFree] at hOk
    cases hOk
    exact h.update hReady hi hStock rfl (hStock.balanced.give hPos hp)

end Inv

/-! ## Sequences of calls -/

section Proper

variable {s0 : Slabs} {r : SlabRun}

theorem SlabInv.kmalloc_proper_iff (h : SlabInv s0 r) (hReady : Ready s0) (size : Nat) :
    Proper s0 r (.kmalloc size) ↔ HasRoom s0 r (.kmalloc size) := by
  constructor
  · rintro ⟨hInside, p, s, hOk, -⟩
    have hFits : size ≤ 1024 := by
      by_contra hBig
      rw [h.kmalloc_oversize hReady (by omega)] at hOk
      cases hOk
    have hi := kmallocIndex_lt_iff.mpr hFits
    obtain ⟨c, hStock⟩ := h.stocked _ hi
    exact ⟨hFits, (hStock.lt_iff hReady hi).mp
      (hInside c (h.cache ▸ hStock.at_) c.index hStock.getEntry)⟩
  · intro hRoom
    have hFits : size ≤ 1024 := hRoom.1
    have hi := kmallocIndex_lt_iff.mpr hFits
    obtain ⟨c, hStock⟩ := h.stocked _ hi
    have hlt := (hStock.lt_iff hReady hi).mpr hRoom.2
    have ho := hStock.balanced.mem_all hlt
    have hne := hReady.object_ne_zero hi ho
    have hAlloc := h.kmalloc_eq hStock
    have hFresh := hStock.balanced.not_mem_live (hReady.objects_nodup hi) hlt
    refine ⟨?_, _, _, hAlloc, (h.step hReady hRoom (.served hAlloc hne)).bounded, ?_,
      fun _ => ⟨?_, ho, le_objSize hFits, ksize_object hReady hi ho h.pages h.slabsAt⟩⟩
    · intro c' hc' k hk
      obtain rfl := Option.some.inj (hc'.symm.trans (h.cache ▸ hStock.at_))
      obtain rfl := Option.some.inj (hStock.getEntry.symm.trans hk)
      exact hlt
    · constructor
      · intro hZero
        exact absurd hZero hne
      · rintro (hBig | hAll)
        · omega
        · exact absurd (hAll _ ho) hFresh
    · intro j hj
      obtain ⟨hj', ho'⟩ := h.live_class hj
      obtain rfl := hReady.class_unique hi hj' ho ho'
      exact hFresh hj

theorem SlabInv.kfree_proper (h : SlabInv s0 r) (hReady : Ready s0) (p : Nat) :
    Proper s0 r (.kfree p) := by
  intro i hp
  obtain ⟨hi, -⟩ := h.live_class hp
  obtain ⟨c, hStock⟩ := h.stocked i hi
  obtain ⟨hPos, hFree⟩ := h.kfree_eq hReady hp hStock
  have hLe := hStock.balanced.index_le
  have hRoom : HasRoom s0 r (.kfree p) := trivial
  have h' := h.step hReady hRoom (.freed hp hFree)
  refine ⟨?_, h.kfree_put hReady hp, _, hFree, h'.bounded, ?_⟩
  · intro c' hc' k hk
    obtain rfl := Option.some.inj (hc'.symm.trans (h.cache ▸ hStock.at_))
    obtain rfl := Option.some.inj ((h.putEntry hReady hp hStock).2.symm.trans hk)
    omega
  · rintro size rfl
    obtain ⟨c', hStock'⟩ := h'.stocked _ hi
    -- the cache has just been written
    have hWritten : c' = { c with index := c.index - 1 }.set (c.index - 1) p :=
      Option.some.inj (hStock'.at_.symm.trans (if_pos rfl))
    have hlt : c'.index < c'.entriesSz := by
      subst hWritten
      change c.index - 1 < c.entriesSz
      omega
    exact ⟨_, _, h'.kmalloc_eq hStock', hReady.object_ne_zero hi (hStock'.balanced.mem_all hlt)⟩

end Proper

/-- Every call of a sequence does what it must exactly when every request in it finds an object
that is not live. -/
theorem proper_iff {s0 : Slabs} (hReady : Ready s0) (ops : List SlabOp) :
    Meets SlabStep (Proper s0) ⟨s0, fun _ => []⟩ ops ↔
      Meets SlabStep (HasRoom s0) ⟨s0, fun _ => []⟩ ops := by
  refine meets_iff_meets (SlabInv s0) ?_ ?_ hReady.inv ops
  · intro r op h
    cases op with
    | kmalloc size => exact h.kmalloc_proper_iff hReady size
    | kfree p => exact iff_of_true (h.kfree_proper hReady p) trivial
  · intro r op r' h hRoom hStep
    exact h.step hReady hRoom hStep

/-! ## Concrete calls

The pages of the classes are those of the physical addresses from `0x200000` on, and the
caches lie from `0x300000` on. -/

def sampleCache (i : Nat) : Cache where
  index := 0
  entriesSz := PGSIZE / objSize i
  entries k := 0xffff888000200000 + PGSIZE * i + k * objSize i

def sampleSlabs : Slabs where
  pages :=
    { physMemAt := 0
      m :=
        { heap := fun _ => none
          physMem := [{ addr := 0x100000, len := 0x400000, mapSz := 1024 }]
          page := fun ref =>
            if 256 ≤ ref.index ∧ ref.index < 264 then
              { slab := 0xffff800000100000 + 24 * (ref.index - 256) }
            else {} }
      buddies := fun _ => none
      reserved := { base := 0 } }
  slabsAt := 0xffff800000100000
  cache i := if i < 8 then 0xffff888000300000 + 0x2000 * i else 0
  mem a :=
    if 0xffff888000300000 ≤ a ∧ a < 0xffff888000310000 ∧ a % 0x2000 = 0 then
      some (sampleCache ((a - 0xffff888000300000) / 0x2000))
    else none

theorem sampleSlabs_record {i off : Nat} (hi : i < 8) (hOff : off < PGSIZE) :
    vmmVirt2slab sampleSlabs.pages.m (0xffff888000200000 + PGSIZE * i + off) =
      .ok (sampleSlabs.nodeAt i) := by
  unfold PGSIZE at *
  have hPhys : vmmVirt2phys (0xffff888000200000 + 4096 * i + off) =
      .ok (0x200000 + 4096 * i + off) := by
    have hVirt : 0xffff888000200000 + 4096 * i + off =
        vmmPhys2virt (0x200000 + 4096 * i + off) := by
      rw [vmmPhys2virt_eq (by unfold dmSize; omega)]
      unfold VMM_RESERVED_DM_START
      omega
    rw [hVirt, vmmVirt2phys_phys2virt (by unfold dmSize; omega)]
  have hPage : phys2page sampleSlabs.pages.m.physMem (0x200000 + 4096 * i + off) =
      some ⟨0, 256 + i⟩ := by
    have hEnd : ¬ add64 0x100000 0x400000 < 0x200000 + 4096 * i + off := by
      rw [add64_eq (by decide)]
      omega
    have hPfn : sub64 (pfn (0x200000 + 4096 * i + off)) (pfn 0x100000) = 256 + i := by
      unfold pfn PGSIZE
      rw [sub64_eq (by omega) (by unfold wordSize; omega)]
      omega
    unfold phys2page sampleSlabs
    rw [if_neg (by omega)]
    simp only [phys2pageFrom, if_neg hEnd, hPfn]
  have hIn : InMap sampleSlabs.pages.m.physMem ⟨0, 256 + i⟩ := ⟨_, rfl, by dsimp only; omega⟩
  unfold vmmVirt2slab
  rw [hPhys, ok_bind_eq, hPage]
  dsimp only
  rw [Mem.readPage_eq hIn, ok_bind_eq]
  unfold sampleSlabs Slabs.nodeAt kmemCacheNodeSize
  dsimp only
  rw [if_pos (by omega), Nat.add_sub_cancel_left]
  rfl

theorem sampleSlabs_ready : Ready sampleSlabs := by
  have hSizes : ∀ i < 8, PGSIZE / objSize i * objSize i = PGSIZE := by decide
  refine ⟨?_, ?_, rfl, rfl, by decide⟩
  · intro i hi
    have hCache : sampleSlabs.mem (sampleSlabs.cache i) = some (sampleCache i) := by
      unfold slabClasses at hi
      simp only [sampleSlabs, if_pos hi]
      rw [if_pos (by omega), show (0xffff888000300000 + 0x2000 * i - 0xffff888000300000) / 0x2000 = i
        by omega]
    refine ⟨sampleCache i, 0xffff888000200000 + PGSIZE * i, hCache, ⟨rfl, rfl, ?_⟩, ?_⟩
    · unfold Cache.objects Pool.free
      rw [Nat.sub_zero, ← List.range_eq_range']
      exact List.Perm.refl _
    · intro o ho
      obtain ⟨k, -, hk, rfl⟩ := Pool.mem_free.mp ho
      apply sampleSlabs_record hi
      calc k * objSize i < PGSIZE / objSize i * objSize i := by
            have hPos : ∀ i < 8, 0 < objSize i := by decide
            exact Nat.mul_lt_mul_of_pos_right hk (hPos i hi)
        _ = PGSIZE := hSizes i hi
  · intro i hi j hj hEq
    unfold slabClasses at hi hj
    simp only [sampleSlabs, if_pos hi, if_pos hj] at hEq
    omega

/-- One call; a pointer is freed in the first class in which it is live. -/
def SlabRun.perform (r : SlabRun) : SlabOp → Option SlabRun
  | .kmalloc size =>
    match kmalloc r.s size with
    | .ok (p, s) =>
      if p = 0 then some ⟨s, r.live⟩
      else some (r.setLive s (kmallocIndex size) (p :: r.live (kmallocIndex size)))
    | .error _ => none
  | .kfree p =>
    match (List.range slabClasses).find? fun i => p ∈ r.live i, kfree r.s p with
    | some i, .ok s => some (r.setLive s i ((r.live i).erase p))
    | _, _ => none

def SlabRun.performAll (r : SlabRun) : List SlabOp → Option SlabRun
  | [] => some r
  | op :: ops => (r.perform op).bind fun r' => r'.performAll ops

theorem SlabRun.perform_step {r r' : SlabRun} {op : SlabOp} (h : r.perform op = some r') :
    SlabStep r op r' := by
  cases op with
  | kmalloc size =>
    simp only [SlabRun.perform] at h
    split at h
    · next p s hOk =>
      split at h
      · next hZero =>
        cases h
        exact .refused (hZero ▸ hOk)
      · next hne =>
        cases h
        exact .served hOk hne
    · cases h
  | kfree p =>
    simp only [SlabRun.perform] at h
    split at h
    · next i s hFind hOk =>
      cases h
      exact .freed (by simpa using List.find?_some hFind) hOk
    · cases h

theorem SlabRun.performAll_run {r r' : SlabRun} {ops : List SlabOp}
    (h : r.performAll ops = some r') : Run SlabStep r ops r' := by
  induction ops generalizing r with
  | nil =>
    cases h
    exact .nil
  | cons op ops ih =>
    obtain ⟨t, hFirst, hRest⟩ := Option.bind_eq_some_iff.mp h
    exact run_cons.mpr ⟨t, SlabRun.perform_step hFirst, ih hRest⟩

/-- Up to `n` objects of class `i` are live, and none of another class. -/
def SlabRun.AtMost (r : SlabRun) (i n : Nat) : Prop :=
  (r.live i).length ≤ n ∧ ∀ j, j ≠ i → r.live j = []

theorem SlabRun.AtMost.kmalloc {r r' : SlabRun} {i n size : Nat} (h : r.AtMost i n)
    (hStep : SlabStep r (.kmalloc size) r') (hi : kmallocIndex size = i) :
    r'.AtMost i (n + 1) := by
  subst hi
  cases hStep with
  | served hOk hne =>
    refine ⟨?_, fun j hj => ?_⟩
    · simpa [SlabRun.setLive] using h.1
    · simpa [SlabRun.setLive, hj] using h.2 j hj
  | refused hOk => exact ⟨Nat.le_succ_of_le h.1, h.2⟩

theorem SlabRun.AtMost.kfree {r r' : SlabRun} {i n p : Nat} (h : r.AtMost i (n + 1))
    (hStep : SlabStep r (.kfree p) r') : r'.AtMost i n := by
  cases hStep with
  | @freed _ j s hp hOk =>
    have hj : j = i := by
      by_contra hne
      rw [h.2 j hne] at hp
      cases hp
    subst hj
    refine ⟨?_, fun j hj => ?_⟩
    · have hLength := List.length_erase_of_mem hp
      have hLive := h.1
      simp only [SlabRun.setLive, if_pos]
      omega
    · simpa [SlabRun.setLive, hj] using h.2 j hj

/-- With fewer live objects than the class has, one is left. -/
theorem SlabRun.AtMost.hasRoom {s0 : Slabs} (hReady : Ready s0) {r : SlabRun} {i n size : Nat}
    (h : r.AtMost i n) (hLeft : n < (s0.objects i).length) (hFits : size ≤ 1024)
    (hi : kmallocIndex size = i) : HasRoom s0 r (.kmalloc size) := by
  subst hi
  refine ⟨hFits, ?_⟩
  by_contra hAll
  push Not at hAll
  have hCount :=
    ((hReady.objects_nodup (kmallocIndex_lt_iff.mpr hFits)).subperm hAll).length_le
  have hLive := h.1
  omega

/-- Four objects of 1024 bytes are taken, the second is freed and taken again. -/
def sampleCalls : List SlabOp :=
  [.kmalloc 1024, .kmalloc 1000, .kmalloc 700, .kmalloc 1024, .kfree 0xffff888000207400,
    .kmalloc 600]

theorem proper_sample : Meets SlabStep (Proper sampleSlabs) ⟨sampleSlabs, fun _ => []⟩ sampleCalls ∧
    ∃ r, Run SlabStep ⟨sampleSlabs, fun _ => []⟩ sampleCalls r ∧ r.live 7 = [0xffff888000207400,
      0xffff888000207c00, 0xffff888000207800, 0xffff888000207000] := by
  constructor
  · have hLength : (sampleSlabs.objects 7).length = 4 := by decide +kernel
    refine (proper_iff sampleSlabs_ready sampleCalls).mpr ?_
    have hNone : SlabRun.AtMost ⟨sampleSlabs, fun _ => []⟩ 7 0 := ⟨by simp, fun _ _ => rfl⟩
    have hRoom : ∀ {r : SlabRun} {n size : Nat}, r.AtMost 7 n → n < 4 → size ≤ 1024 →
        kmallocIndex size = 7 → HasRoom sampleSlabs r (.kmalloc size) :=
      fun h hn => h.hasRoom sampleSlabs_ready (hLength ▸ hn)
    refine meets_cons.mpr ⟨hRoom hNone (by decide) (by decide) rfl, fun r1 h1 => ?_⟩
    have hOne := hNone.kmalloc h1 rfl
    refine meets_cons.mpr ⟨hRoom hOne (by decide) (by decide) rfl, fun r2 h2 => ?_⟩
    have hTwo := hOne.kmalloc h2 rfl
    refine meets_cons.mpr ⟨hRoom hTwo (by decide) (by decide) rfl, fun r3 h3 => ?_⟩
    have hThree := hTwo.kmalloc h3 rfl
    refine meets_cons.mpr ⟨hRoom hThree (by decide) (by decide) rfl, fun r4 h4 => ?_⟩
    have hFour := hThree.kmalloc h4 rfl
    refine meets_cons.mpr ⟨trivial, fun r5 h5 => ?_⟩
    exact meets_singleton.mpr (hRoom (hFour.kfree h5) (by decide) (by decide) rfl)
  · have hEnd : (SlabRun.performAll ⟨sampleSlabs, fun _ => []⟩ sampleCalls).map
        (fun r => r.live 7) = some [0xffff888000207400, 0xffff888000207c00, 0xffff888000207800,
          0xffff888000207000] := by decide +kernel
    obtain ⟨r, hAll, hLive⟩ := Option.map_eq_some_iff.mp hEnd
    exact ⟨r, SlabRun.performAll_run hAll, hLive⟩

/-- The fifth object of 1024 bytes is the word behind the four entries, and the index leaves the
array. -/
theorem exhausted_class_reads_on : Ready sampleSlabs ∧ ∃ r p s c,
    Run SlabStep ⟨sampleSlabs, fun _ => []⟩ (List.replicate 4 (.kmalloc 1024)) r ∧
      kmalloc r.s 1024 = .ok (p, s) ∧ p = 0xffff888000208000 ∧ p ∉ sampleSlabs.objects 7 ∧
      s.mem (s.cache 7) = some c ∧ c.entriesSz = 4 ∧ c.index = 5 ∧
      ¬ Proper sampleSlabs r (.kmalloc 1024) := by
  have hEnd : (SlabRun.performAll ⟨sampleSlabs, fun _ => []⟩
      (List.replicate 4 (.kmalloc 1024))).bind (fun r => (kmalloc r.s 1024).toOption.bind
        fun x => (x.2.mem (x.2.cache 7)).map fun c => (x.1, c.entriesSz, c.index)) =
      some (0xffff888000208000, 4, 5) := by decide +kernel
  obtain ⟨r, hAll, hEnd⟩ := Option.bind_eq_some_iff.mp hEnd
  obtain ⟨⟨p, s⟩, hOk, hEnd⟩ := Option.bind_eq_some_iff.mp hEnd
  obtain ⟨c, hc, hValues⟩ := Option.map_eq_some_iff.mp hEnd
  obtain ⟨rfl, hSize, hIndex⟩ : p = 0xffff888000208000 ∧ c.entriesSz = 4 ∧ c.index = 5 := by
    simpa using hValues
  have hOk := toOption_eq_some.mp hOk
  have hOther : 0xffff888000208000 ∉ sampleSlabs.objects 7 := by decide +kernel
  refine ⟨sampleSlabs_ready, r, _, s, c, SlabRun.performAll_run hAll, hOk, rfl, hOther, hc, hSize,
    hIndex, ?_⟩
  rintro ⟨-, p, t, hOk', -, -, hObject⟩
  obtain ⟨rfl, rfl⟩ := Prod.mk.inj (Except.ok.inj (hOk.symm.trans hOk'))
  exact hOther (hObject (by decide)).2.1

end LunarOS
