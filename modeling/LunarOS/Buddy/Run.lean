import LunarOS.Buddy.Bucket
import LunarOS.Logic.Run

/-!
# A buddy area in use

`Sys` is an area, the memory it works on and, as a ghost, the blocks handed out and not yet
freed. A `Step` is one completed call: `buddy_alloc` with any request, or `buddy_free` of the
address of a live block. A call that faults or hangs has no step, so a run ends there.

`Fresh M s` says that `s` is what `buddy_area_init` leaves for `2^M` bytes, whatever the
allocator it is given and whatever the arena held before. `Ground` is what the area stands
on: an arena inside the direct map, writable page by page, where each page has its own
record. Up to `2^42` bytes the tree has a bit for every node.
-/

namespace LunarOS

open Logic

/-- A block handed out: the address returned and the bucket the allocation used. -/
structure Block where
  ptr : Nat
  bkt : Nat
  deriving DecidableEq, Repr

def BuddyArea.span (b : BuddyArea) (blk : Block) : Span := ⟨blk.ptr, b.classSize blk.bkt⟩

structure Sys where
  b : BuddyArea
  m : Mem
  live : List Block

inductive Op
  | alloc (requested : Nat)
  | free (ptr : Nat)
  deriving DecidableEq, Repr

inductive Step (s : Sys) : Op → Sys → Prop
  | served {requested bkt fuel ptr : Nat} {b : BuddyArea} {m : Mem} :
      buddyFindBkt fuel s.b requested = some bkt →
      buddyAlloc s.b s.m requested fuel = .ok (some ptr, b, m) →
      Step s (.alloc requested) ⟨b, m, ⟨ptr, bkt⟩ :: s.live⟩
  | refused {requested fuel : Nat} {b : BuddyArea} {m : Mem} :
      buddyAlloc s.b s.m requested fuel = .ok (none, b, m) →
      Step s (.alloc requested) ⟨b, m, s.live⟩
  | freed {blk : Block} {b : BuddyArea} {m : Mem} :
      blk ∈ s.live → buddyFree s.b s.m blk.ptr = .ok (b, m) →
      Step s (.free blk.ptr) ⟨b, m, s.live.erase blk⟩

/-- What a buddy area of `2^M` bytes at `base` is built on. -/
structure Ground (M base : Nat) (h : Heap) (physMem : List MemArea) : Prop where
  order_ge : 12 ≤ M
  order_le : M ≤ 42
  window : base + 2 ^ M ≤ dmSize
  /-- every page of the arena can hold a list node -/
  cell : ∀ j < 2 ^ (M - 12), (h (vmmPhys2virt (base + j * PGSIZE))).isSome
  /-- only kernel addresses are mapped -/
  kernel : ∀ a, (h a).isSome → VMM_KERNEL_START ≤ a ∧ a < wordSize
  /-- every page of the arena has a record -/
  record : ∀ j < 2 ^ (M - 12), ∃ ref,
    phys2page physMem (base + j * PGSIZE) = some ref ∧ InMap physMem ref
  /-- no two pages of the arena have the same record -/
  own : ∀ i < 2 ^ (M - 12), ∀ j < 2 ^ (M - 12),
    phys2page physMem (base + i * PGSIZE) = phys2page physMem (base + j * PGSIZE) → i = j
  /-- no kernel address has a record; below 2 GiB it does not matter, `ptr2node` leaves the tree -/
  physical : 30 < M → ∀ a, VMM_KERNEL_START ≤ a → phys2page physMem a = none

/-- A newly built area; its structure and its list heads lie below the direct map. -/
structure Fresh (M : Nat) (s : Sys) : Prop where
  built : ∃ (h : Heap) (σ : Type) (alloc : σ → Nat → Option Nat × σ) (st st' : σ) (self : Nat),
    Ground M s.b.base h s.m.physMem ∧
    buddyAreaInit alloc st h s.b.base (2 ^ M) = .ok (some (self, s.b), s.m.heap, st') ∧
    VMM_KERNEL_START ≤ self ∧ self + BuddyArea.size ≤ VMM_RESERVED_DM_START
  heads_ge : VMM_KERNEL_START ≤ s.b.freelist
  heads_le : s.b.freelist + 16 * (M - 11) ≤ VMM_RESERVED_DM_START
  live : s.live = []

/-! ## Performing operations -/

/-- One operation, when it is allowed and completes within the fuel. -/
def Sys.perform (fuel : Nat) (s : Sys) : Op → Option Sys
  | .alloc requested =>
    match buddyFindBkt fuel s.b requested, buddyAlloc s.b s.m requested fuel with
    | some bkt, .ok (some ptr, b, m) => some ⟨b, m, ⟨ptr, bkt⟩ :: s.live⟩
    | _, .ok (none, b, m) => some ⟨b, m, s.live⟩
    | _, _ => none
  | .free ptr =>
    match s.live.find? fun blk => blk.ptr == ptr, buddyFree s.b s.m ptr with
    | some blk, .ok (b, m) => some ⟨b, m, s.live.erase blk⟩
    | _, _ => none

/-- Operations one after the other, each checked against `guard` first. -/
def Sys.performGuarded (guard : Sys → Op → Prop) [∀ s op, Decidable (guard s op)] (fuel : Nat)
    (s : Sys) : List Op → Option Sys
  | [] => some s
  | op :: ops =>
    if guard s op then (s.perform fuel op).bind fun s => s.performGuarded guard fuel ops
    else none

def Sys.performAll (fuel : Nat) (s : Sys) (ops : List Op) : Option Sys :=
  s.performGuarded (fun _ _ => True) fuel ops

theorem Sys.perform_step {fuel : Nat} {s s' : Sys} {op : Op} (h : s.perform fuel op = some s') :
    Step s op s' := by
  cases op with
  | alloc requested =>
    simp only [Sys.perform] at h
    split at h
    · next hFind hAlloc =>
      cases h
      exact .served hFind hAlloc
    · next hAlloc =>
      cases h
      exact .refused hAlloc
    · cases h
  | free ptr =>
    simp only [Sys.perform] at h
    split at h
    · next blk b m hFind hFree =>
      cases h
      have hPtr : blk.ptr = ptr := by simpa using List.find?_some hFind
      subst hPtr
      exact .freed (List.mem_of_find?_eq_some hFind) hFree
    · cases h

theorem Sys.performGuarded_run {guard : Sys → Op → Prop} [∀ s op, Decidable (guard s op)]
    {fuel : Nat} {s s' : Sys} {ops : List Op} (h : s.performGuarded guard fuel ops = some s') :
    Run (Guarded guard Step) s ops s' := by
  induction ops generalizing s with
  | nil =>
    cases h
    exact .nil
  | cons op ops ih =>
    unfold Sys.performGuarded at h
    split at h
    · next hGuard =>
      obtain ⟨t, hStep, hRest⟩ := Option.bind_eq_some_iff.mp h
      exact (Run.one ⟨hGuard, Sys.perform_step hStep⟩).trans (ih hRest)
    · cases h

theorem Sys.performAll_run {fuel : Nat} {s s' : Sys} {ops : List Op}
    (h : s.performAll fuel ops = some s') : Run Step s ops s' :=
  (Sys.performGuarded_run h).mono fun _ _ _ hStep => hStep.2

end LunarOS
