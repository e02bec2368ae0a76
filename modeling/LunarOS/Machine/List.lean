import LunarOS.Logic.Circular
import LunarOS.Machine.Stop

/-!
# Intrusive lists (`list.c`)

The heap holds every `list_t` the kernel can reach, by address. A `list_t` is 16 bytes; the
nodes of the allocator stand at multiples of 16 or at page distance, so two different nodes
never share bytes.
-/

namespace LunarOS

abbrev ListT := Logic.Link Nat

abbrev Heap := Nat → Option ListT

namespace Heap

def read (h : Heap) (a : Nat) : Outcome ListT :=
  match h a with
  | some c => .ok c
  | none => .error (.fault (.list a))

def write (h : Heap) (a : Nat) (c : ListT) : Heap := fun x => if x = a then some c else h x

@[simp] theorem write_same (h : Heap) (a : Nat) (c : ListT) : h.write a c a = some c :=
  if_pos rfl

theorem write_other {h : Heap} {a x : Nat} (hne : x ≠ a) (c : ListT) :
    h.write a c x = h x := if_neg hne

theorem read_of_some {h : Heap} {a : Nat} {c : ListT} (hc : h a = some c) :
    h.read a = .ok c := by
  simp [read, hc]

theorem read_eq_ok {h : Heap} {a : Nat} {c : ListT} : h.read a = .ok c ↔ h a = some c := by
  unfold read
  cases h a <;> simp

/-- `a->next = v` -/
def setNext (h : Heap) (a v : Nat) : Outcome Heap := do
  let c ← h.read a
  pure (h.write a { c with next := v })

/-- `a->prev = v` -/
def setPrev (h : Heap) (a v : Nat) : Outcome Heap := do
  let c ← h.read a
  pure (h.write a { c with prev := v })

/-- The node at `a` changed by `f`, if there is one. -/
def modify (h : Heap) (a : Nat) (f : ListT → ListT) : Heap := fun x =>
  if x = a then (h x).map f else h x

@[simp] theorem modify_isSome (h : Heap) (a : Nat) (f : ListT → ListT) (x : Nat) :
    (h.modify a f x).isSome = (h x).isSome := by
  unfold modify
  split <;> simp

theorem write_eq_modify {h : Heap} {a : Nat} {c : ListT} (hc : h a = some c)
    (f : ListT → ListT) : h.write a (f c) = h.modify a f := by
  funext x
  unfold modify write
  split
  · next hx => rw [hx, hc, Option.map_some]
  · rfl

theorem setNext_eq {h : Heap} {a : Nat} (ha : (h a).isSome) (v : Nat) :
    h.setNext a v = .ok (h.modify a fun c => { c with next := v }) := by
  obtain ⟨c, hc⟩ := Option.isSome_iff_exists.mp ha
  unfold setNext
  rw [read_of_some hc, ok_bind_eq]
  exact congrArg Except.ok (write_eq_modify hc fun c => { c with next := v })

theorem setPrev_eq {h : Heap} {a : Nat} (ha : (h a).isSome) (v : Nat) :
    h.setPrev a v = .ok (h.modify a fun c => { c with prev := v }) := by
  obtain ⟨c, hc⟩ := Option.isSome_iff_exists.mp ha
  unfold setPrev
  rw [read_of_some hc, ok_bind_eq]
  exact congrArg Except.ok (write_eq_modify hc fun c => { c with prev := v })

theorem isSome_of_setNext {h h' : Heap} {a v : Nat} (hok : h.setNext a v = .ok h') :
    (h a).isSome := by
  obtain ⟨c, hc, -⟩ := bind_eq_ok.mp hok
  simp [read_eq_ok.mp hc]

theorem isSome_of_setPrev {h h' : Heap} {a v : Nat} (hok : h.setPrev a v = .ok h') :
    (h a).isSome := by
  obtain ⟨c, hc, -⟩ := bind_eq_ok.mp hok
  simp [read_eq_ok.mp hc]

end Heap

/-! ## The functions of `list.c` -/

def listInit (h : Heap) (lst : Nat) : Heap := h.write lst ⟨lst, lst⟩

def listPushback (h : Heap) (lst entry : Nat) : Outcome Heap := do
  let prev := (← h.read lst).prev
  let h ← h.setNext prev entry
  let h ← h.setPrev lst entry
  let h ← h.setPrev entry prev
  h.setNext entry lst

def listRemove (h : Heap) (entry : Nat) : Outcome Heap := do
  let c ← h.read entry
  let h ← h.setNext c.prev c.next
  let h ← h.setPrev c.next c.prev
  let h ← h.setNext entry entry
  h.setPrev entry entry

def listEmpty (h : Heap) (lst : Nat) : Outcome Bool := do
  pure ((← h.read lst).prev == lst)

def listPop (h : Heap) (lst : Nat) : Outcome (Option Nat × Heap) := do
  if ← listEmpty h lst then
    pure (none, h)
  else
    let back := (← h.read lst).prev
    let h ← listRemove h back
    pure (some back, h)

/-! ## What each function does to the heap -/

/-- `entry` appended at `lst`, whose last member was `prev`. -/
def linked (h : Heap) (lst entry prev : Nat) : Heap := fun x =>
  if x = entry then some ⟨prev, lst⟩
  else (h x).map fun c =>
    ⟨if x = lst then entry else c.prev, if x = prev then entry else c.next⟩

/-- `entry` cut out from between `c.prev` and `c.next`, with `v` left in it. -/
def unlinked (h : Heap) (entry : Nat) (c v : ListT) : Heap := fun x =>
  if x = entry then some v
  else (h x).map fun d =>
    ⟨if x = c.next then c.prev else d.prev, if x = c.prev then c.next else d.next⟩

/-- The same addresses hold nodes. -/
def SameNodes (h h' : Heap) : Prop := ∀ x, (h' x).isSome = (h x).isSome

theorem SameNodes.refl (h : Heap) : SameNodes h h := fun _ => rfl

theorem SameNodes.trans {h h' h'' : Heap} (a : SameNodes h h') (b : SameNodes h' h'') :
    SameNodes h h'' := fun x => (b x).trans (a x)

theorem linked_sameNodes {h : Heap} {entry : Nat} (he : (h entry).isSome) (lst prev : Nat) :
    SameNodes h (linked h lst entry prev) := by
  intro x
  unfold linked
  split
  · next hx => simp [hx, he]
  · simp

theorem unlinked_sameNodes {h : Heap} {entry : Nat} (he : (h entry).isSome) (c v : ListT) :
    SameNodes h (unlinked h entry c v) := by
  intro x
  unfold unlinked
  split
  · next hx => simp [hx, he]
  · simp

/-! ## No call makes a node -/

theorem write_sameNodes {h : Heap} {a : Nat} (ha : (h a).isSome) (c : ListT) :
    SameNodes h (h.write a c) := by
  intro x
  unfold Heap.write
  split
  · next hx => simp [hx, ha]
  · rfl

theorem setNext_sameNodes {h h' : Heap} {a v : Nat} (hOk : h.setNext a v = .ok h') :
    SameNodes h h' := by
  rw [Heap.setNext_eq (Heap.isSome_of_setNext hOk)] at hOk
  obtain rfl := Except.ok.inj hOk
  exact Heap.modify_isSome h a _

theorem setPrev_sameNodes {h h' : Heap} {a v : Nat} (hOk : h.setPrev a v = .ok h') :
    SameNodes h h' := by
  rw [Heap.setPrev_eq (Heap.isSome_of_setPrev hOk)] at hOk
  obtain rfl := Except.ok.inj hOk
  exact Heap.modify_isSome h a _

theorem listPushback_sameNodes {h h' : Heap} {lst entry : Nat}
    (hOk : listPushback h lst entry = .ok h') : SameNodes h h' := by
  obtain ⟨_, -, hOk⟩ := bind_eq_ok.mp hOk
  obtain ⟨_, hPrev, hOk⟩ := bind_eq_ok.mp hOk
  obtain ⟨_, hHead, hOk⟩ := bind_eq_ok.mp hOk
  obtain ⟨_, hEntry, hOk⟩ := bind_eq_ok.mp hOk
  exact (((setNext_sameNodes hPrev).trans (setPrev_sameNodes hHead)).trans
    (setPrev_sameNodes hEntry)).trans (setNext_sameNodes hOk)

theorem linked_entry (h : Heap) (lst entry prev : Nat) :
    linked h lst entry prev entry = some ⟨prev, lst⟩ := if_pos rfl

theorem linked_of_ne {h : Heap} {lst entry prev x : Nat} {c : ListT} (hc : h x = some c)
    (hne : x ≠ entry) : linked h lst entry prev x =
      some ⟨if x = lst then entry else c.prev, if x = prev then entry else c.next⟩ := by
  simp [linked, hne, hc]

theorem unlinked_of_ne {h : Heap} {entry x : Nat} {c d v : ListT} (hd : h x = some d)
    (hne : x ≠ entry) : unlinked h entry c v x =
      some ⟨if x = c.next then c.prev else d.prev, if x = c.prev then c.next else d.next⟩ := by
  simp [unlinked, hne, hd]

theorem listPushback_eq {h : Heap} {lst entry : Nat} {c : ListT} (hl : h lst = some c)
    (hp : (h c.prev).isSome) (he : (h entry).isSome) (hne : lst ≠ entry) :
    listPushback h lst entry = .ok (linked h lst entry c.prev) := by
  have hls : (h lst).isSome := by simp [hl]
  unfold listPushback
  rw [Heap.read_of_some hl, ok_bind_eq]
  dsimp only
  rw [Heap.setNext_eq hp, ok_bind_eq, Heap.setPrev_eq (by simpa using hls), ok_bind_eq,
    Heap.setPrev_eq (by simpa using he), ok_bind_eq, Heap.setNext_eq (by simpa using he)]
  congr 1
  funext x
  obtain ⟨ce, he⟩ := Option.isSome_iff_exists.mp he
  unfold linked Heap.modify
  by_cases hx : x = entry
  · have hne' : entry ≠ lst := hne.symm
    by_cases hx' : x = c.prev <;> simp_all
  · by_cases hx' : x = lst <;> by_cases hx'' : x = c.prev <;> cases h x <;> simp_all

/-- An entry that is not there cannot be linked. -/
theorem listPushback_absent {h : Heap} {lst entry : Nat} {c : ListT} (hl : h lst = some c)
    (hp : (h c.prev).isSome) (he : h entry = none) :
    listPushback h lst entry = .error (.fault (.list entry)) := by
  have hls : (h lst).isSome := by simp [hl]
  have hAbsent : ∀ h' : Heap, h' entry = none → ∀ v, h'.setPrev entry v =
      .error (.fault (.list entry)) := by
    intro h' he' v
    unfold Heap.setPrev Heap.read
    rw [he']
    rfl
  have hStill : ((h.modify c.prev fun d => { d with next := entry }).modify lst
      fun d => { d with prev := entry }) entry = none := by
    rw [← Option.isNone_iff_eq_none, ← Option.not_isSome]
    simp [he]
  unfold listPushback
  rw [Heap.read_of_some hl, ok_bind_eq]
  dsimp only
  rw [Heap.setNext_eq hp, ok_bind_eq, Heap.setPrev_eq (by simpa using hls), ok_bind_eq,
    hAbsent _ hStill]
  rfl

/-- A push that succeeds has followed the head's back link. -/
theorem listPushback_ok {h h' : Heap} {lst entry : Nat} (hne : lst ≠ entry)
    (hOk : listPushback h lst entry = .ok h') : ∃ c, h lst = some c ∧ (h c.prev).isSome ∧
      (h entry).isSome ∧ h' = linked h lst entry c.prev := by
  have hPush := hOk
  obtain ⟨c, hc, hOk⟩ := bind_eq_ok.mp hOk
  obtain ⟨h1, hLast, hOk⟩ := bind_eq_ok.mp hOk
  obtain ⟨h2, hHead, hOk⟩ := bind_eq_ok.mp hOk
  obtain ⟨h3, hEntry, -⟩ := bind_eq_ok.mp hOk
  rw [Heap.read_eq_ok] at hc
  have hPrev := Heap.isSome_of_setNext hLast
  have hMapped := Heap.isSome_of_setPrev hEntry
  rw [setPrev_sameNodes hHead, setNext_sameNodes hLast] at hMapped
  rw [listPushback_eq hc hPrev hMapped hne] at hPush
  exact ⟨c, hc, hPrev, hMapped, (Except.ok.inj hPush).symm⟩

theorem linked_outside {h : Heap} {lst entry prev x : Nat} (hEntry : x ≠ entry) (hHead : x ≠ lst)
    (hPrev : x ≠ prev) : linked h lst entry prev x = h x := by
  unfold linked
  rw [if_neg hEntry]
  cases h x <;> simp [hHead, hPrev]

theorem unlinked_outside {h : Heap} {entry x : Nat} {c v : ListT} (hEntry : x ≠ entry)
    (hPrev : x ≠ c.prev) (hNext : x ≠ c.next) : unlinked h entry c v x = h x := by
  unfold unlinked
  rw [if_neg hEntry]
  cases h x <;> simp [hPrev, hNext]

/-- `list_remove` succeeds exactly when it can follow both links of the entry. -/
theorem listRemove_eq_ok {h h' : Heap} {entry : Nat} : listRemove h entry = .ok h' ↔
    ∃ c, h entry = some c ∧ (h c.prev).isSome ∧ (h c.next).isSome ∧
      h' = unlinked h entry c ⟨entry, entry⟩ := by
  have hWrites : ∀ c, h entry = some c → (h c.prev).isSome → (h c.next).isSome →
      listRemove h entry = .ok (unlinked h entry c ⟨entry, entry⟩) := by
    intro c hc hp hn
    have he : (h entry).isSome := by simp [hc]
    unfold listRemove
    rw [Heap.read_of_some hc, ok_bind_eq, Heap.setNext_eq hp, ok_bind_eq,
      Heap.setPrev_eq (by simpa using hn), ok_bind_eq, Heap.setNext_eq (by simpa using he),
      ok_bind_eq, Heap.setPrev_eq (by simpa using he)]
    congr 1
    funext x
    unfold unlinked Heap.modify
    by_cases hx : x = entry
    · by_cases hx' : x = c.prev <;> by_cases hx'' : x = c.next <;> simp_all
    · by_cases hx' : x = c.prev <;> by_cases hx'' : x = c.next <;> cases h x <;> simp_all
  constructor
  · intro hok
    obtain ⟨c, hc, hRest⟩ := bind_eq_ok.mp hok
    rw [Heap.read_eq_ok] at hc
    obtain ⟨h1, hNext, hRest⟩ := bind_eq_ok.mp hRest
    obtain ⟨h2, hPrev, -⟩ := bind_eq_ok.mp hRest
    have hp := Heap.isSome_of_setNext hNext
    have hn : (h c.next).isSome := by
      have hSome := Heap.isSome_of_setPrev hPrev
      rw [Heap.setNext_eq hp] at hNext
      cases hNext
      simpa using hSome
    rw [hWrites c hc hp hn] at hok
    cases hok
    exact ⟨c, hc, hp, hn, rfl⟩
  · rintro ⟨c, hc, hp, hn, rfl⟩
    exact hWrites c hc hp hn

theorem listRemove_sameNodes {h h' : Heap} {entry : Nat} (hOk : listRemove h entry = .ok h') :
    (h entry).isSome ∧ SameNodes h h' := by
  obtain ⟨c, hc, -, -, rfl⟩ := listRemove_eq_ok.mp hOk
  have hEntry : (h entry).isSome := by simp [hc]
  exact ⟨hEntry, unlinked_sameNodes hEntry c _⟩

/-! Every access of these functions can only miss a node. -/

namespace Heap

variable {h : Heap} {a v : Nat} {e : Stop}

theorem read_error (hErr : h.read a = .error e) : ∃ a, e = .fault (.list a) := by
  unfold read at hErr
  split at hErr
  · cases hErr
  · cases hErr
    exact ⟨a, rfl⟩

theorem setNext_error (hErr : h.setNext a v = .error e) : ∃ a, e = .fault (.list a) := by
  rcases bind_eq_error.mp hErr with hErr | ⟨c, -, hErr⟩
  · exact read_error hErr
  · cases hErr

theorem setPrev_error (hErr : h.setPrev a v = .error e) : ∃ a, e = .fault (.list a) := by
  rcases bind_eq_error.mp hErr with hErr | ⟨c, -, hErr⟩
  · exact read_error hErr
  · cases hErr

end Heap

theorem listRemove_error {h : Heap} {entry : Nat} {e : Stop} (hErr : listRemove h entry = .error e) :
    ∃ a, e = .fault (.list a) := by
  rcases bind_eq_error.mp hErr with hErr | ⟨_, -, hErr⟩
  · exact Heap.read_error hErr
  rcases bind_eq_error.mp hErr with hErr | ⟨_, -, hErr⟩
  · exact Heap.setNext_error hErr
  rcases bind_eq_error.mp hErr with hErr | ⟨_, -, hErr⟩
  · exact Heap.setPrev_error hErr
  rcases bind_eq_error.mp hErr with hErr | ⟨_, -, hErr⟩
  · exact Heap.setNext_error hErr
  · exact Heap.setPrev_error hErr

theorem listPushback_error {h : Heap} {lst entry : Nat} {e : Stop}
    (hErr : listPushback h lst entry = .error e) : ∃ a, e = .fault (.list a) := by
  rcases bind_eq_error.mp hErr with hErr | ⟨_, -, hErr⟩
  · exact Heap.read_error hErr
  rcases bind_eq_error.mp hErr with hErr | ⟨_, -, hErr⟩
  · exact Heap.setNext_error hErr
  rcases bind_eq_error.mp hErr with hErr | ⟨_, -, hErr⟩
  · exact Heap.setPrev_error hErr
  rcases bind_eq_error.mp hErr with hErr | ⟨_, -, hErr⟩
  · exact Heap.setPrev_error hErr
  · exact Heap.setNext_error hErr

/-- A push on a heap with a node at every address. -/
theorem listPushback_total {h : Heap} (hTotal : ∀ x, (h x).isSome) (lst entry : Nat) :
    ∃ h', listPushback h lst entry = .ok h' ∧ ∀ x, (h' x).isSome := by
  cases hPush : listPushback h lst entry with
  | ok h' =>
    refine ⟨h', rfl, fun x => ?_⟩
    rw [listPushback_sameNodes hPush]
    exact hTotal x
  | error e =>
    exfalso
    obtain ⟨c, hc⟩ := Option.isSome_iff_exists.mp (hTotal lst)
    unfold listPushback at hPush
    rw [Heap.read_of_some hc, ok_bind_eq] at hPush
    dsimp only at hPush
    rw [Heap.setNext_eq (hTotal _), ok_bind_eq,
      Heap.setPrev_eq (by simpa using hTotal _), ok_bind_eq,
      Heap.setPrev_eq (by simpa using hTotal _), ok_bind_eq,
      Heap.setNext_eq (by simpa using hTotal _)] at hPush
    cases hPush

/-- `list_pop` on a list whose head points at itself. -/
theorem listPop_empty {h : Heap} {lst : Nat} {c : ListT} (hl : h lst = some c)
    (hp : c.prev = lst) : listPop h lst = .ok (none, h) := by
  unfold listPop listEmpty
  rw [Heap.read_of_some hl]
  simp [ok_bind_eq, pure, Except.pure, hp]

/-- `list_pop` takes what the head's `prev` points at. -/
theorem listPop_nonempty {h : Heap} {lst : Nat} {c : ListT} (hl : h lst = some c)
    (hp : c.prev ≠ lst) :
    listPop h lst = (listRemove h c.prev).map fun h' => (some c.prev, h') := by
  unfold listPop listEmpty
  rw [Heap.read_of_some hl]
  cases hRemove : listRemove h c.prev <;>
    simp [bind, Except.bind, pure, Except.pure, Except.map, hp, hRemove]

theorem listPop_sameNodes {h h' : Heap} {lst : Nat} {entry : Option Nat}
    (hOk : listPop h lst = .ok (entry, h')) :
    (∀ a, entry = some a → (h a).isSome) ∧ SameNodes h h' := by
  unfold listPop at hOk
  obtain ⟨empty, -, hOk⟩ := bind_eq_ok.mp hOk
  split at hOk
  · cases hOk
    exact ⟨by simp, .refl h⟩
  · obtain ⟨c, -, hOk⟩ := bind_eq_ok.mp hOk
    obtain ⟨h1, hRemove, hOk⟩ := bind_eq_ok.mp hOk
    cases hOk
    obtain ⟨hBack, hSame⟩ := listRemove_sameNodes hRemove
    exact ⟨by rintro a ⟨⟩; exact hBack, hSame⟩

end LunarOS
