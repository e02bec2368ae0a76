import LunarOS.Logic.Run
import LunarOS.Machine.Reserved

/-!
# Runs of `mm_reserved_alloc`

A run calls the allocator with any `size_t` values, and between the calls the memory is written
to at will. The size is rounded up in 64 bits, so the last seven values become 0:
`reserved_iff` says that a run never hands out a byte twice exactly when none of them is asked
for.
-/

namespace LunarOS

open Logic

/-- The static variables of `mm_reserved_alloc`, and the bytes of memory. -/
structure ReservedMem where
  r : Reserved
  memory : Nat → BitVec 8

def memset (memory : Nat → BitVec 8) (p : Nat) (v : BitVec 8) (n : Nat) : Nat → BitVec 8 := fun a =>
  if p ≤ a ∧ a < p + n then v else memory a

/-- `mm_reserved_alloc` with its `memset`. -/
def ReservedMem.alloc (m : ReservedMem) (sz : Nat) : Option Nat × ReservedMem :=
  match mmReservedAlloc m.r sz with
  | (none, r) => (none, { m with r := r })
  | (some ret, r) => (some ret, { r := r, memory := memset m.memory ret 0 (alignTo sz 8) })

/-- One call of the past. -/
structure ReservedCall where
  sz : Nat
  result : Option Nat
  before : ReservedMem
  after : ReservedMem

/-- The bytes a call has taken out of the budget. -/
def ReservedCall.taken (c : ReservedCall) : Nat :=
  match c.result with
  | none => 0
  | some _ => alignTo c.sz 8

structure ReservedRun where
  now : ReservedMem
  calls : List ReservedCall := []

/-- Before the first call. -/
def ReservedRun.boot (start : Nat) (memory : Nat → BitVec 8) : ReservedRun where
  now := { r := { base := start }, memory := memory }

def ReservedRun.handedOut (s : ReservedRun) : Nat := (s.calls.map ReservedCall.taken).sum

/-- A call, or a store by anybody who has the memory mapped. -/
inductive ReservedAct
  | alloc (sz : Nat)
  | store (a : Nat) (v : BitVec 8)

/-- The size is a `size_t`. -/
def ReservedAct.Valid : ReservedAct → Prop
  | .alloc sz => sz < wordSize
  | .store _ _ => True

def ReservedStep (s : ReservedRun) (act : ReservedAct) (s' : ReservedRun) : Prop :=
  match act with
  | .alloc sz => sz < wordSize ∧
      s' = { now := (s.now.alloc sz).2
             calls := ⟨sz, (s.now.alloc sz).1, s.now, (s.now.alloc sz).2⟩ :: s.calls }
  | .store a v => s' = { s with now := { s.now with memory := Function.update s.now.memory a v } }

/-- What one call promises, for the static area at `start`. -/
structure ReservedCall.Kept (start : Nat) (c : ReservedCall) : Prop where
  refused : c.result = none → c.after = c.before
  inside : ∀ p, c.result = some p → start ≤ p ∧ p + c.sz ≤ start + 2 * PGSIZE
  zeroed : ∀ p, c.result = some p → ∀ i < c.sz, c.after.memory (p + i) = 0

def ReservedCall.Apart (c d : ReservedCall) : Prop :=
  ∀ p q, c.result = some p → d.result = some q → p + c.sz ≤ q ∨ q + d.sz ≤ p

/-- No byte has been handed out twice, and every byte is accounted for. -/
structure NeverTwice (start : Nat) (s : ReservedRun) : Prop where
  kept : ∀ c ∈ s.calls, c.Kept start
  apart : s.calls.Pairwise ReservedCall.Apart
  budget : s.now.r.available + s.handedOut = 2 * PGSIZE

/-- Everything handed out lies below `base`. -/
structure Bumped (start : Nat) (s : ReservedRun) : Prop extends NeverTwice start s where
  base : s.now.r.base = start + s.handedOut
  below : ∀ c ∈ s.calls, ∀ p, c.result = some p → p + c.sz ≤ s.now.r.base

/-- The size can be rounded up. -/
def Roundable : ReservedAct → Prop
  | .alloc sz => sz ≤ wordSize - 8
  | .store _ _ => True

/-! ## One call -/

/-- The last seven sizes wrap around to 0. -/
theorem alignTo_wraps {sz : Nat} (hBig : wordSize - 8 < sz) (hSz : sz < wordSize) :
    alignTo sz 8 = 0 := by
  rw [alignTo_mod hSz]
  unfold wordSize at *
  omega

theorem alignTo_fits {sz : Nat} (h : sz ≤ wordSize - 8) : sz ≤ alignTo sz 8 := by
  have hWord : sz < wordSize := by
    unfold wordSize at *
    omega
  rw [alignTo_mod hWord]
  unfold wordSize at *
  omega

/-- A call takes the rounded size from both counters, or leaves them alone. -/
theorem reservedAlloc_cases (m : ReservedMem) (sz : Nat)
    (hEnd : m.r.base + m.r.available < wordSize) :
    (m.r.available < alignTo sz 8 ∧ m.alloc sz = (none, m)) ∨
    (alignTo sz 8 ≤ m.r.available ∧ m.alloc sz = (some m.r.base,
      { r := { base := m.r.base + alignTo sz 8, available := m.r.available - alignTo sz 8 }
        memory := memset m.memory m.r.base 0 (alignTo sz 8) })) := by
  unfold ReservedMem.alloc mmReservedAlloc
  dsimp only
  by_cases hFull : m.r.available < alignTo sz 8
  · rw [if_pos hFull]
    exact Or.inl ⟨hFull, rfl⟩
  · rw [if_neg hFull, add64_eq (by omega), sub64_eq (by omega) (by omega)]
    exact Or.inr ⟨by omega, rfl⟩

section

variable {start : Nat} {s s' : ReservedRun}

theorem bumped_start (memory : Nat → BitVec 8) :
    Bumped start (ReservedRun.boot start memory) where
  kept := fun _ hc => by cases hc
  apart := List.Pairwise.nil
  budget := rfl
  base := rfl
  below := fun _ hc => by cases hc

/-- A call with a size that can be rounded keeps the invariant. -/
theorem bumped_step (hStart : start + 2 * PGSIZE < wordSize) {act : ReservedAct}
    (h : Bumped start s) (hCond : Roundable act) (hStep : ReservedStep s act s') :
    Bumped start s' := by
  cases act with
  | store a v =>
    obtain rfl := hStep
    exact { kept := h.kept, apart := h.apart, budget := h.budget, base := h.base, below := h.below }
  | alloc sz =>
    obtain ⟨hSz, rfl⟩ := hStep
    have hFits := alignTo_fits hCond
    have hBudget := h.budget
    have hBase := h.base
    rcases reservedAlloc_cases s.now sz (by omega) with ⟨hFull, hCall⟩ | ⟨hRoom, hCall⟩
    · rw [hCall]
      constructor
      · constructor
        · intro c hc
          rcases List.mem_cons.mp hc with rfl | hOld
          · exact ⟨fun _ => rfl, by simp, by simp⟩
          · exact h.kept c hOld
        · exact List.Pairwise.cons (fun d _ p q hp _ => by cases hp) h.apart
        · simpa [ReservedRun.handedOut, ReservedCall.taken] using hBudget
      · simpa [ReservedRun.handedOut, ReservedCall.taken] using hBase
      · intro c hc p hp
        rcases List.mem_cons.mp hc with rfl | hOld
        · cases hp
        · exact h.below c hOld p hp
    · rw [hCall]
      have hMore : ReservedRun.handedOut ⟨(s.now.alloc sz).2,
          ⟨sz, some s.now.r.base, s.now, (s.now.alloc sz).2⟩ :: s.calls⟩ =
          alignTo sz 8 + s.handedOut := rfl
      rw [hCall] at hMore
      constructor
      · constructor
        · intro c hc
          rcases List.mem_cons.mp hc with rfl | hOld
          · refine ⟨by simp, ?_, ?_⟩
            · rintro p ⟨⟩
              dsimp only
              omega
            · rintro p ⟨⟩ i hi
              unfold memset
              exact if_pos ⟨by omega, by dsimp only at hi; omega⟩
          · exact h.kept c hOld
        · refine List.Pairwise.cons (fun d hd p q hp hq => ?_) h.apart
          cases hp
          exact Or.inr (h.below d hd q hq)
        · rw [hMore]
          dsimp only
          omega
      · rw [hMore]
        dsimp only
        omega
      · intro c hc p hp
        dsimp only
        rcases List.mem_cons.mp hc with rfl | hOld
        · cases hp
          dsimp only
          omega
        · have := h.below c hOld p hp
          omega

/-- One of the last seven sizes is granted without any byte. -/
theorem bumped_breaks (hStart : start + 2 * PGSIZE < wordSize) {act : ReservedAct}
    (h : Bumped start s) (hCond : ¬ Roundable act) (hStep : ReservedStep s act s') :
    ¬ NeverTwice start s' := by
  cases act with
  | store a v => exact absurd trivial hCond
  | alloc sz =>
    obtain ⟨hSz, rfl⟩ := hStep
    intro hNever
    have hBig : wordSize - 8 < sz := Nat.lt_of_not_le hCond
    have hZero := alignTo_wraps hBig hSz
    have hBudget := h.budget
    have hBase := h.base
    rcases reservedAlloc_cases s.now sz (by omega) with ⟨hFull, -⟩ | ⟨-, hCall⟩
    · omega
    · obtain ⟨-, hInside, -⟩ := hNever.kept _ List.mem_cons_self
      have hLast := (hInside s.now.r.base (by rw [hCall])).2
      unfold PGSIZE wordSize at *
      dsimp only at hLast
      omega

end

/-- Every sequence of calls and stores has a run. -/
theorem reserved_runs (s : ReservedRun) {acts : List ReservedAct}
    (h : ∀ act ∈ acts, act.Valid) : ∃ s', Run ReservedStep s acts s' := by
  induction acts using List.reverseRecOn with
  | nil => exact ⟨s, Run.nil⟩
  | append_singleton acts act ih =>
    obtain ⟨s', hRun⟩ := ih fun act hAct => h act (List.mem_append_left _ hAct)
    have hValid : act.Valid := h act (by simp)
    cases act with
    | alloc sz => exact ⟨_, hRun.snoc ⟨hValid, rfl⟩⟩
    | store a v => exact ⟨_, hRun.snoc rfl⟩

/-- In every run, exactly the last seven values of `size_t` make the allocator hand out what it
does not have. -/
theorem reserved_iff {start : Nat} (hStart : start + 2 * PGSIZE < wordSize)
    (memory : Nat → BitVec 8) {acts : List ReservedAct} (hValid : ∀ act ∈ acts, act.Valid) :
    Throughout ReservedStep (NeverTwice start) (ReservedRun.boot start memory) acts ↔
      ∀ act ∈ acts, Roundable act := by
  obtain ⟨s, hRun⟩ := reserved_runs (ReservedRun.boot start memory) hValid
  exact throughout_iff_forall Roundable (Bumped start) (fun _ h => h.toNeverTwice)
    (fun _ _ _ h hCond hStep => bumped_step hStart h hCond hStep)
    (fun _ _ _ h hCond hStep => bumped_breaks hStart h hCond hStep) (bumped_start memory) hRun

/-- 24 bytes, a store into them, and more than is left. -/
theorem reserved_sample : Throughout ReservedStep (NeverTwice 0xffff800000110000)
    (ReservedRun.boot 0xffff800000110000 fun _ => 0xFF)
    [.alloc 24, .store 0xffff800000110000 7, .alloc 8192] :=
  (reserved_iff (by decide) _ (by simp [ReservedAct.Valid, wordSize])).mpr
    (by simp [Roundable, wordSize])

/-- `mm_reserved_alloc(2^64 - 1)` returns the start of the area and takes nothing. -/
theorem reserved_wraps : 0xffff800000110000 + 2 * PGSIZE < wordSize ∧
    ∃ s c, Run ReservedStep (ReservedRun.boot 0xffff800000110000 fun _ => 0)
      [.alloc (2 ^ 64 - 1)] s ∧ s.calls = [c] ∧ c.sz = 2 ^ 64 - 1 ∧
      c.result = some 0xffff800000110000 ∧ s.now.r.available = 2 * PGSIZE ∧
      ¬ NeverTwice 0xffff800000110000 s := by
  have hStep : ReservedStep (ReservedRun.boot 0xffff800000110000 fun _ => 0)
      (.alloc (2 ^ 64 - 1)) _ := ⟨by decide, rfl⟩
  refine ⟨by decide, _, _, Run.one hStep, rfl, rfl, ?_, ?_, ?_⟩
  · rfl
  · rfl
  · exact bumped_breaks (by decide) (bumped_start _)
      (fun hSmall : 2 ^ 64 - 1 ≤ wordSize - 8 => absurd hSmall (by decide)) hStep

end LunarOS
