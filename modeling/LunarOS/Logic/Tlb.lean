import Mathlib.Data.Set.Insert

/-!
# Kept lookups

A processor looks addresses up in tables that a program changes under it, and may keep the
result of every lookup. The program throws results away when it knows that they have become
wrong. Keeping and forgetting happen at any time, so a program is judged by all interleavings
of its commands with the processor's steps.

* `mem_around_iff`: `around` is exactly what may be kept after a program;
* `Safe.append`, `safe_replace`: rules for programs that leave nothing wrong behind;
* `Runs.coherent_of_flush`: throwing everything away is enough for any program;
* `Paired.on_the_way`: with an invalidation after every store, only the addresses of the
  invalidation that comes next may be wrong at any moment.
-/

namespace LunarOS.Logic.Tlb

variable {M V P : Type*}

/-- The tables and the kept results. -/
structure State (M V P : Type*) where
  tables : M
  cached : Set (V × P)

inductive Command (M V : Type*)
  | store (change : M → M)
  | invalidate (gone : Set V)

def Command.run : Command M V → State M V P → State M V P
  | store change, s => { s with tables := change s.tables }
  | invalidate gone, s => { s with cached := {e ∈ s.cached | e.1 ∉ gone} }

/-- The tables after a program. -/
def tablesAfter : M → List (Command M V) → M
  | m, [] => m
  | m, .store change :: prog => tablesAfter (change m) prog
  | m, .invalidate _ :: prog => tablesAfter m prog

theorem tablesAfter_append (m : M) (prog prog' : List (Command M V)) :
    tablesAfter m (prog ++ prog') = tablesAfter (tablesAfter m prog) prog' := by
  induction prog generalizing m with
  | nil => rfl
  | cons c prog ih =>
    cases c with
    | store change => exact ih (change m)
    | invalidate gone => exact ih m

section

variable (lookup : M → V → Option P)

/-- The results that the tables give. -/
def current (m : M) : Set (V × P) := {e | lookup m e.1 = some e.2}

/-- What the processor may do by itself. -/
inductive Hardware (s : State M V P) : State M V P → Prop
  | fill {e : V × P} : e ∈ current lookup s.tables →
      Hardware s { s with cached := insert e s.cached }
  | evict (gone : Set (V × P)) : Hardware s { s with cached := s.cached \ gone }

/-- The commands of a program in order, with steps of the processor in between. -/
inductive Runs : State M V P → List (Command M V) → State M V P → Prop
  | done (s : State M V P) : Runs s [] s
  | hardware {s s' t : State M V P} {prog : List (Command M V)} :
      Hardware lookup s s' → Runs s' prog t → Runs s prog t
  | command {s t : State M V P} {c : Command M V} {prog : List (Command M V)} :
      Runs (c.run s) prog t → Runs s (c :: prog) t

/-- All that may be kept after a program, from `kept` on. -/
def around : M → Set (V × P) → List (Command M V) → Set (V × P)
  | m, kept, [] => kept ∪ current lookup m
  | m, kept, .store change :: prog => around (change m) (kept ∪ current lookup m) prog
  | m, kept, .invalidate gone :: prog =>
    around m {e ∈ kept ∪ current lookup m | e.1 ∉ gone} prog

/-- Nothing kept is wrong. -/
def Coherent (s : State M V P) : Prop := s.cached ⊆ current lookup s.tables

/-- Nothing kept is wrong for the other addresses. -/
def CoherentOff (dirty : Set V) (s : State M V P) : Prop :=
  ∀ e ∈ s.cached, e.1 ∉ dirty → e ∈ current lookup s.tables

/-- Every run from a coherent state ends in one. -/
def Safe (m : M) (prog : List (Command M V)) : Prop :=
  ∀ s t, s.tables = m → Coherent lookup s → Runs lookup s prog t → Coherent lookup t

/-- No store takes a result away from the other addresses. -/
def Within (dirty : Set V) : M → List (Command M V) → Prop
  | _, [] => True
  | m, .store change :: prog =>
    (∀ e ∈ current lookup m, e.1 ∉ dirty → e ∈ current lookup (change m)) ∧
      Within dirty (change m) prog
  | m, .invalidate _ :: prog => Within dirty m prog

end

variable {lookup : M → V → Option P} {m : M} {s t : State M V P}
  {prog prog' : List (Command M V)}

/-! ## What may be kept -/

theorem around_mono {kept kept' : Set (V × P)} (h : kept ⊆ kept') (m : M)
    (prog : List (Command M V)) : around lookup m kept prog ⊆ around lookup m kept' prog := by
  induction prog generalizing m kept kept' with
  | nil => exact Set.union_subset_union_left _ h
  | cons c prog ih =>
    cases c with
    | store change => exact ih (Set.union_subset_union_left _ h) (change m)
    | invalidate gone =>
      apply ih
      rintro e ⟨hKept, hGone⟩
      exact ⟨Set.union_subset_union_left _ h hKept, hGone⟩

/-- Keeping a current result beforehand changes nothing. -/
theorem around_union_current (m : M) (kept : Set (V × P)) (prog : List (Command M V)) :
    around lookup m (kept ∪ current lookup m) prog = around lookup m kept prog := by
  have hSame : kept ∪ current lookup m ∪ current lookup m = kept ∪ current lookup m := by
    rw [Set.union_assoc, Set.union_self]
  cases prog with
  | nil => exact hSame
  | cons c prog =>
    cases c with
    | store change =>
      unfold around
      rw [hSame]
    | invalidate gone =>
      unfold around
      rw [hSame]

theorem Hardware.tables (h : Hardware lookup s t) : t.tables = s.tables := by
  cases h with
  | fill => rfl
  | evict => rfl

theorem Runs.tables_eq (h : Runs lookup s prog t) : t.tables = tablesAfter s.tables prog := by
  induction h with
  | done => rfl
  | hardware hStep _ ih => rw [ih, hStep.tables]
  | @command s t c prog _ ih =>
    cases c with
    | store change => exact ih
    | invalidate gone => exact ih

theorem Runs.cached_subset (h : Runs lookup s prog t) :
    t.cached ⊆ around lookup s.tables s.cached prog := by
  induction h with
  | done => exact Set.subset_union_left
  | @hardware s s' t prog hStep _ ih =>
    refine ih.trans ?_
    rw [hStep.tables, ← around_union_current s.tables s.cached]
    apply around_mono
    cases hStep with
    | fill hCurrent => exact Set.insert_subset (.inr hCurrent) Set.subset_union_left
    | evict gone => exact fun e hMem => .inl hMem.1
  | @command s t c prog _ ih =>
    refine ih.trans ?_
    cases c with
    | store change => exact around_mono Set.subset_union_left _ _
    | invalidate gone =>
      apply around_mono
      rintro e ⟨hCached, hGone⟩
      exact ⟨.inl hCached, hGone⟩

/-- A result that may be kept is kept in some run: the processor fills it in as soon as the
tables give it. -/
theorem exists_runs_of_mem {e : V × P} (prog : List (Command M V)) :
    ∀ (m : M) (kept cached : Set (V × P)), (e ∈ kept → e ∈ cached) →
      e ∈ around lookup m kept prog → ∃ t, Runs lookup ⟨m, cached⟩ prog t ∧ e ∈ t.cached := by
  induction prog with
  | nil =>
    rintro m kept cached hCached (hKept | hCurrent)
    · exact ⟨_, .done _, hCached hKept⟩
    · exact ⟨_, .hardware (.fill hCurrent) (.done _), Set.mem_insert e cached⟩
  | cons c prog ih =>
    intro m kept cached hCached hMem
    by_cases hCurrent : e ∈ current lookup m
    · suffices ∃ t, Runs lookup (c.run ⟨m, insert e cached⟩) prog t ∧ e ∈ t.cached by
        obtain ⟨t, hRuns, hEnd⟩ := this
        exact ⟨t, .hardware (.fill hCurrent) (.command hRuns), hEnd⟩
      cases c with
      | store change => exact ih _ _ _ (fun _ => Set.mem_insert e cached) hMem
      | invalidate gone => exact ih _ _ _ (fun h => ⟨Set.mem_insert e cached, h.2⟩) hMem
    · suffices ∃ t, Runs lookup (c.run ⟨m, cached⟩) prog t ∧ e ∈ t.cached by
        obtain ⟨t, hRuns, hEnd⟩ := this
        exact ⟨t, .command hRuns, hEnd⟩
      have hOld : e ∈ kept ∪ current lookup m → e ∈ cached := by
        rintro (hKept | hNow)
        · exact hCached hKept
        · exact absurd hNow hCurrent
      cases c with
      | store change => exact ih _ _ _ hOld hMem
      | invalidate gone => exact ih _ _ _ (fun h => ⟨hOld h.1, h.2⟩) hMem

/-- `around` is exactly what may be kept after a program. -/
theorem mem_around_iff {e : V × P} {kept : Set (V × P)} :
    e ∈ around lookup m kept prog ↔ ∃ t, Runs lookup ⟨m, kept⟩ prog t ∧ e ∈ t.cached := by
  constructor
  · exact exists_runs_of_mem prog m kept kept id
  · rintro ⟨t, hRuns, hMem⟩
    exact hRuns.cached_subset hMem

/-! ## Programs that leave nothing wrong behind -/

theorem safe_iff :
    Safe lookup m prog ↔
      around lookup m (current lookup m) prog ⊆ current lookup (tablesAfter m prog) := by
  constructor
  · intro h e hMem
    obtain ⟨t, hRuns, hEnd⟩ := mem_around_iff.mp hMem
    have hTables := hRuns.tables_eq
    dsimp only at hTables
    rw [← hTables]
    exact h _ t rfl Set.Subset.rfl hRuns hEnd
  · rintro h s t rfl hCoherent hRuns e hEnd
    rw [hRuns.tables_eq]
    exact h (around_mono hCoherent _ _ (hRuns.cached_subset hEnd))

/-- A run of two programs is a run of the first and one of the second. -/
theorem Runs.split (h : Runs lookup s (prog ++ prog') t) :
    ∃ s', Runs lookup s prog s' ∧ Runs lookup s' prog' t := by
  obtain ⟨all, hAll⟩ : ∃ all, all = prog ++ prog' := ⟨_, rfl⟩
  rw [← hAll] at h
  induction h generalizing prog with
  | done s =>
    obtain ⟨rfl, rfl⟩ := List.append_eq_nil_iff.mp hAll.symm
    exact ⟨s, .done s, .done s⟩
  | hardware hStep _ ih =>
    obtain ⟨s', hFirst, hSecond⟩ := ih hAll
    exact ⟨s', .hardware hStep hFirst, hSecond⟩
  | @command s t c rest hRest ih =>
    cases prog with
    | nil =>
      obtain rfl : c :: rest = prog' := hAll
      exact ⟨s, .done s, .command hRest⟩
    | cons d prog =>
      obtain ⟨rfl, hTail⟩ := List.cons.inj hAll
      obtain ⟨s', hFirst, hSecond⟩ := ih hTail
      exact ⟨s', .command hFirst, hSecond⟩

theorem safe_nil (m : M) : Safe lookup m [] := by
  apply safe_iff.mpr
  exact Set.union_subset Set.Subset.rfl Set.Subset.rfl

theorem Safe.append (h : Safe lookup m prog) (h' : Safe lookup (tablesAfter m prog) prog') :
    Safe lookup m (prog ++ prog') := by
  rintro s t rfl hCoherent hRuns
  obtain ⟨s', hFirst, hSecond⟩ := hRuns.split
  exact h' s' t hFirst.tables_eq (h s s' rfl hCoherent hFirst) hSecond

/-- A store after which the addresses are invalidated whose results it takes away. -/
theorem safe_replace {change : M → M} {gone : Set V}
    (h : ∀ e ∈ current lookup m, e.1 ∉ gone → e ∈ current lookup (change m)) :
    Safe lookup m [.store change, .invalidate gone] := by
  apply safe_iff.mpr
  simp only [around, tablesAfter]
  rw [Set.union_self]
  rintro e (⟨hOld | hNew, hGone⟩ | hNew)
  · exact h e hOld hGone
  · exact hNew
  · exact hNew

/-- Throwing everything away is enough, whatever was kept before. -/
theorem Runs.coherent_of_flush (h : Runs lookup s (prog ++ [.invalidate Set.univ]) t) :
    Coherent lookup t := by
  obtain ⟨s', -, hFlush⟩ := h.split
  intro e hEnd
  rw [hFlush.tables_eq]
  rcases hFlush.cached_subset hEnd with ⟨-, hGone⟩ | hCurrent
  · exact absurd (Set.mem_univ _) hGone
  · exact hCurrent

/-! ## On the way -/

theorem Coherent.off (h : Coherent lookup s) (dirty : Set V) : CoherentOff lookup dirty s :=
  fun _ hMem _ => h hMem

theorem CoherentOff.hardware {dirty : Set V} (h : CoherentOff lookup dirty s)
    (hStep : Hardware lookup s t) : CoherentOff lookup dirty t := by
  intro e hMem hClean
  cases hStep with
  | fill hCurrent =>
    rcases hMem with rfl | hOld
    · exact hCurrent
    · exact h e hOld hClean
  | evict gone => exact h e hMem.1 hClean

/-- A program only makes results wrong for the addresses whose tables it changes. -/
theorem Runs.coherentOff {dirty : Set V} (hRuns : Runs lookup s prog t)
    (hWithin : Within lookup dirty s.tables prog) (h : CoherentOff lookup dirty s) :
    CoherentOff lookup dirty t := by
  induction hRuns with
  | done => exact h
  | hardware hStep _ ih => exact ih (hStep.tables ▸ hWithin) (h.hardware hStep)
  | @command s t c prog _ ih =>
    cases c with
    | store change =>
      exact ih hWithin.2 fun e hMem hClean => hWithin.1 e (h e hMem hClean) hClean
    | invalidate gone => exact ih hWithin fun e hMem hClean => h e hMem.1 hClean

/-! ### Stores with their invalidations -/

/-- Every store is followed by the invalidation of the addresses whose results it takes away. -/
inductive Paired (lookup : M → V → Option P) : M → List (Command M V) → Prop
  | nil (m : M) : Paired lookup m []
  | cons {m : M} {change : M → M} {gone : Set V} {prog : List (Command M V)} :
      (∀ e ∈ current lookup m, e.1 ∉ gone → e ∈ current lookup (change m)) →
      Paired lookup (change m) prog →
      Paired lookup m (.store change :: .invalidate gone :: prog)

theorem Paired.append (h : Paired lookup m prog)
    (h' : Paired lookup (tablesAfter m prog) prog') : Paired lookup m (prog ++ prog') := by
  induction h with
  | nil => exact h'
  | cons hTaken _ ih => exact .cons hTaken (ih h')

theorem Paired.safe (h : Paired lookup m prog) : Safe lookup m prog := by
  induction h with
  | nil m => exact safe_nil m
  | cons hTaken _ ih => exact (safe_replace hTaken).append ih

/-- At any moment only the addresses whose invalidation comes next may be wrong. -/
theorem Paired.on_the_way {pre post : List (Command M V)} (h : Paired lookup m (pre ++ post))
    (hTables : s.tables = m) (hCoherent : Coherent lookup s) (hRuns : Runs lookup s pre t) :
    ∃ gone, (gone = ∅ ∨ ∃ rest, post = .invalidate gone :: rest) ∧
      CoherentOff lookup gone t := by
  generalize hAll : pre ++ post = prog at h
  induction h generalizing s pre with
  | nil m =>
    obtain ⟨rfl, rfl⟩ := List.append_eq_nil_iff.mp hAll
    exact ⟨∅, .inl rfl, (safe_nil m s t hTables hCoherent hRuns).off ∅⟩
  | @cons m change gone prog hTaken _ ih =>
    match pre with
    | [] => exact ⟨∅, .inl rfl, (safe_nil m s t hTables hCoherent hRuns).off ∅⟩
    | [c] =>
      -- the store has been made, and its invalidation is the next command
      obtain ⟨rfl, hPost⟩ := List.cons.inj hAll
      subst hTables
      exact ⟨gone, .inr ⟨prog, hPost⟩, hRuns.coherentOff ⟨hTaken, trivial⟩ (hCoherent.off gone)⟩
    | c :: d :: pre =>
      simp only [List.cons_append, List.cons.injEq] at hAll
      obtain ⟨rfl, rfl, hRest⟩ := hAll
      have hBoth : Runs lookup s ([.store change, .invalidate gone] ++ pre) t := hRuns
      obtain ⟨s', hFirst, hSecond⟩ := hBoth.split
      have hNext := safe_replace hTaken s s' hTables hCoherent hFirst
      have hTables' : s'.tables = change m := by
        rw [hFirst.tables_eq, hTables]
        rfl
      exact ih hTables' hNext hSecond hRest

end LunarOS.Logic.Tlb
