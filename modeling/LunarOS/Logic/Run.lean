import Mathlib.Data.List.Infix

/-!
# Runs of labelled steps

`step s a s'` says that action `a` can take state `s` to `s'`. A `Run` performs a list of
actions, and a run stops short when an action has no step. The results come in pairs of a
step property and a run property:

* `Run.invariant`: what every step preserves, every run preserves;
* `throughout_iff_meets`: a property holds at every moment of a run exactly when every
  action is performed under a condition that the steps turn on;
* `throughout_iff_forall`: the same for a condition on the actions alone, in a run that
  completes;
* `meets_iff_meets`: the same for a property that speaks of an action before it is performed.
-/

namespace LunarOS.Logic

variable {σ α : Type*}

/-- `s'` is reached from `s` by performing the actions in order. -/
inductive Run (step : σ → α → σ → Prop) (s : σ) : List α → σ → Prop
  | nil : Run step s [] s
  | snoc {as : List α} {s' : σ} {a : α} {s'' : σ} :
      Run step s as s' → step s' a s'' → Run step s (as ++ [a]) s''

/-- Some run ends in `s'`. -/
def Reach (step : σ → α → σ → Prop) (s s' : σ) : Prop := ∃ as, Run step s as s'

/-- The steps that are performed under `guard`. -/
def Guarded (guard : σ → α → Prop) (step : σ → α → σ → Prop) (s : σ) (a : α) (s' : σ) : Prop :=
  guard s a ∧ step s a s'

/-- `P` holds in every state that performing `as` one by one gets to. -/
def Throughout (step : σ → α → σ → Prop) (P : σ → Prop) (s : σ) (as : List α) : Prop :=
  ∀ pre s', pre <+: as → Run step s pre s' → P s'

/-- Every action of `as` that the run gets to is performed under `cond`. -/
def Meets (step : σ → α → σ → Prop) (cond : σ → α → Prop) (s : σ) (as : List α) : Prop :=
  ∀ pre a s', pre ++ [a] <+: as → Run step s pre s' → cond s' a

theorem Run.one {step : σ → α → σ → Prop} {s s' : σ} {a : α} (h : step s a s') :
    Run step s [a] s' := Run.snoc Run.nil h

theorem Run.eq_of_nil {step : σ → α → σ → Prop} {s s' : σ} {as : List α} (h : Run step s as s')
    (hNil : as = []) : s' = s := by
  cases h with
  | nil => rfl
  | snoc => simp at hNil

theorem Run.trans {step : σ → α → σ → Prop} {s s' s'' : σ} {as as' : List α}
    (h : Run step s as s') (h' : Run step s' as' s'') : Run step s (as ++ as') s'' := by
  induction h' with
  | nil => simpa using h
  | snoc _ hStep ih =>
    rw [← List.append_assoc]
    exact Run.snoc ih hStep

/-- A run from its first action on. -/
theorem run_cons {step : σ → α → σ → Prop} {s s'' : σ} {a : α} {as : List α} :
    Run step s (a :: as) s'' ↔ ∃ s', step s a s' ∧ Run step s' as s'' := by
  constructor
  · intro h
    generalize hEq : a :: as = bs at h
    induction h generalizing as with
    | nil => cases hEq
    | @snoc bs t b t' hRun hStep ih =>
      cases bs with
      | nil =>
        obtain ⟨rfl, rfl⟩ := List.cons.inj hEq
        obtain rfl := hRun.eq_of_nil rfl
        exact ⟨t', hStep, Run.nil⟩
      | cons b' bs =>
        obtain ⟨rfl, rfl⟩ := List.cons.inj hEq
        obtain ⟨s', hFirst, hRest⟩ := ih rfl
        exact ⟨s', hFirst, Run.snoc hRest hStep⟩
  · rintro ⟨s', hFirst, hRest⟩
    exact (Run.one hFirst).trans hRest

theorem meets_nil {step : σ → α → σ → Prop} {cond : σ → α → Prop} {s : σ} :
    Meets step cond s [] := by
  intro pre a s' hPre
  have hLength := hPre.length_le
  simp at hLength

theorem meets_cons {step : σ → α → σ → Prop} {cond : σ → α → Prop} {s : σ} {a : α}
    {as : List α} :
    Meets step cond s (a :: as) ↔ cond s a ∧ ∀ s', step s a s' → Meets step cond s' as := by
  constructor
  · intro h
    refine ⟨h [] a s (by simp) Run.nil, ?_⟩
    intro s' hStep pre b t hPre hRun
    exact h (a :: pre) b t (by simpa using hPre) (run_cons.mpr ⟨s', hStep, hRun⟩)
  · rintro ⟨hFirst, hRest⟩ pre b t hPre hRun
    cases pre with
    | nil =>
      obtain rfl := hRun.eq_of_nil rfl
      obtain rfl : b = a := by simpa using hPre
      exact hFirst
    | cons c pre =>
      obtain ⟨rfl, hTail⟩ : c = a ∧ pre ++ [b] <+: as := by simpa using hPre
      obtain ⟨s', hStep, hRun⟩ := run_cons.mp hRun
      exact hRest s' hStep pre b t hTail hRun

/-- A single action is performed in the first state. -/
theorem meets_singleton {step : σ → α → σ → Prop} {cond : σ → α → Prop} {s : σ} {a : α} :
    Meets step cond s [a] ↔ cond s a :=
  meets_cons.trans (and_iff_left fun _ _ => meets_nil)

theorem Run.mono {step step' : σ → α → σ → Prop} (hImp : ∀ s a s', step s a s' → step' s a s')
    {s s' : σ} {as : List α} (h : Run step s as s') : Run step' s as s' := by
  induction h with
  | nil => exact Run.nil
  | snoc _ hStep ih => exact Run.snoc ih (hImp _ _ _ hStep)

/-- What every step preserves, every run preserves. -/
theorem Run.invariant {step : σ → α → σ → Prop} (Inv : σ → Prop)
    (hStep : ∀ s a s', Inv s → step s a s' → Inv s') {s s' : σ} {as : List α}
    (h : Run step s as s') (hs : Inv s) : Inv s' := by
  induction h with
  | nil => exact hs
  | snoc _ hLast ih => exact hStep _ _ _ ih hLast

theorem Reach.invariant {step : σ → α → σ → Prop} (Inv : σ → Prop)
    (hStep : ∀ s a s', Inv s → step s a s' → Inv s') {s s' : σ}
    (h : Reach step s s') (hs : Inv s) : Inv s' := by
  obtain ⟨_, h⟩ := h
  exact h.invariant Inv hStep hs

/-- What steps under `cond` preserve, a run that meets `cond` preserves. -/
theorem Meets.invariant {step : σ → α → σ → Prop} {cond : σ → α → Prop} (Inv : σ → Prop)
    (hStep : ∀ s a s', Inv s → cond s a → step s a s' → Inv s') {s s' : σ} {as pre : List α}
    (h : Meets step cond s as) (hs : Inv s) (hPre : pre <+: as) (hRun : Run step s pre s') :
    Inv s' := by
  induction hRun with
  | nil => exact hs
  | @snoc pre s' a s'' hRun hLast ih =>
    exact hStep _ _ _ (ih ((List.prefix_append pre [a]).trans hPre)) (h _ _ _ hPre hRun) hLast

/-- The exact condition for a property of runs. Under `cond` the steps keep an invariant
that gives `P`; a step taken against `cond` is possible and ends outside `P`. -/
theorem throughout_iff_meets {step : σ → α → σ → Prop} {cond : σ → α → Prop}
    {P : σ → Prop} (Inv : σ → Prop) (hP : ∀ s, Inv s → P s)
    (hStep : ∀ s a s', Inv s → cond s a → step s a s' → Inv s')
    (hBreak : ∀ s a, Inv s → ¬ cond s a → ∃ s', step s a s' ∧ ¬ P s')
    {s : σ} (hs : Inv s) (as : List α) :
    Throughout step P s as ↔ Meets step cond s as := by
  constructor
  · intro hAll
    -- as long as `P` has held, the run is still inside the invariant
    have hInv : ∀ pre s', Run step s pre s' → pre <+: as → Inv s' := by
      intro pre s' hRun
      induction hRun with
      | nil => exact fun _ => hs
      | @snoc pre s' a s'' hRun hLast ih =>
        intro hPre
        have hMid : Inv s' := ih ((List.prefix_append pre [a]).trans hPre)
        by_cases hc : cond s' a
        · exact hStep _ _ _ hMid hc hLast
        · obtain ⟨t, hStep', hNot⟩ := hBreak _ _ hMid hc
          exact absurd (hAll _ _ hPre (Run.snoc hRun hStep')) hNot
    intro pre a s' hPre hRun
    by_contra hc
    obtain ⟨t, hStep', hNot⟩ :=
      hBreak _ _ (hInv pre s' hRun ((List.prefix_append pre [a]).trans hPre)) hc
    exact hNot (hAll _ _ hPre (Run.snoc hRun hStep'))
  · intro hMeets pre s' hPre hRun
    exact hP _ (hMeets.invariant Inv hStep hs hPre hRun)

/-- The exact condition for a property that is asked before each action. Where it holds, the
step keeps the invariant that makes the two the same. -/
theorem meets_iff_meets {step : σ → α → σ → Prop} {cond P : σ → α → Prop} (Inv : σ → Prop)
    (hIff : ∀ s a, Inv s → (P s a ↔ cond s a))
    (hStep : ∀ s a s', Inv s → cond s a → step s a s' → Inv s')
    {s : σ} (hs : Inv s) (as : List α) : Meets step P s as ↔ Meets step cond s as := by
  constructor
  · intro hMeets pre a s' hPre hRun
    have hInv := hMeets.invariant Inv (fun t b t' h hP => hStep t b t' h ((hIff t b h).mp hP)) hs
      ((List.prefix_append pre [a]).trans hPre) hRun
    exact (hIff s' a hInv).mp (hMeets pre a s' hPre hRun)
  · intro hMeets pre a s' hPre hRun
    have hInv := hMeets.invariant Inv hStep hs ((List.prefix_append pre [a]).trans hPre) hRun
    exact (hIff s' a hInv).mpr (hMeets pre a s' hPre hRun)

/-- The exact condition on the actions of a completed run. Here a step taken against `cond`
need not exist, but it always ends outside `P`. -/
theorem throughout_iff_forall {step : σ → α → σ → Prop} {P : σ → Prop} (cond : α → Prop)
    (Inv : σ → Prop) (hP : ∀ s, Inv s → P s)
    (hStep : ∀ s a s', Inv s → cond a → step s a s' → Inv s')
    (hBreak : ∀ s a s', Inv s → ¬ cond a → step s a s' → ¬ P s')
    {s s' : σ} {as : List α} (hs : Inv s) (hRun : Run step s as s') :
    Throughout step P s as ↔ ∀ a ∈ as, cond a := by
  constructor
  · intro hAll
    have hBoth : ∀ pre t, Run step s pre t → pre <+: as → Inv t ∧ ∀ a ∈ pre, cond a := by
      intro pre t hPart
      induction hPart with
      | nil => exact fun _ => ⟨hs, by simp⟩
      | @snoc pre t a t' hPart hLast ih =>
        intro hPre
        obtain ⟨hInv, hPast⟩ := ih ((List.prefix_append pre [a]).trans hPre)
        have hc : cond a := by
          by_contra hNot
          exact hBreak _ _ _ hInv hNot hLast (hAll _ _ hPre (Run.snoc hPart hLast))
        refine ⟨hStep _ _ _ hInv hc hLast, ?_⟩
        intro x hx
        rcases List.mem_append.mp hx with hOld | hNew
        · exact hPast x hOld
        · obtain rfl := List.mem_singleton.mp hNew
          exact hc
    exact (hBoth as s' hRun (List.prefix_refl as)).2
  · intro hCond pre t hPre hPart
    apply hP
    have hPast : ∀ a ∈ pre, cond a := fun a ha => hCond a (hPre.subset ha)
    clear hPre
    induction hPart with
    | nil => exact hs
    | @snoc pre t a t' hPart hLast ih =>
      exact hStep _ _ _ (ih fun x hx => hPast x (List.mem_append_left _ hx))
        (hPast a (by simp)) hLast

end LunarOS.Logic
