import Mathlib.Data.Option.Basic

/-!
# Fuelled loops

A loop is a function `step : σ → σ ⊕ ρ` from a state to the next state (`inl`) or to the
result (`inr`). `Loop.run step fuel s` runs it for at most `fuel` steps after the first and
is `none` when it is still going. The fuel is only a device to define the run: `run_mono`
makes the result independent of it, `Returns` and `Diverges` speak about every amount,
and the two rules below decide which of them holds.
-/

namespace LunarOS.Logic.Loop

variable {σ ρ : Type*}

def run (step : σ → σ ⊕ ρ) : Nat → σ → Option ρ
  | 0, s => match step s with
    | .inl _ => none
    | .inr r => some r
  | fuel + 1, s => match step s with
    | .inl s' => run step fuel s'
    | .inr r => some r

/-- Some amount of fuel gives the result `r`. -/
def Returns (step : σ → σ ⊕ ρ) (s : σ) (r : ρ) : Prop := ∃ fuel, run step fuel s = some r

/-- No amount of fuel gives a result. -/
def Diverges (step : σ → σ ⊕ ρ) (s : σ) : Prop := ∀ fuel, run step fuel s = none

theorem run_of_inr {step : σ → σ ⊕ ρ} {s : σ} {r : ρ} (h : step s = .inr r) (fuel : Nat) :
    run step fuel s = some r := by
  cases fuel <;> simp [run, h]

theorem run_succ_of_inl {step : σ → σ ⊕ ρ} {s s' : σ} (h : step s = .inl s') (fuel : Nat) :
    run step (fuel + 1) s = run step fuel s' := by
  simp [run, h]

theorem run_mono {step : σ → σ ⊕ ρ} {fuel fuel' : Nat} {s : σ} {r : ρ} (hle : fuel ≤ fuel')
    (h : run step fuel s = some r) : run step fuel' s = some r := by
  induction fuel generalizing fuel' s with
  | zero =>
    cases hs : step s with
    | inl s' => simp [run, hs] at h
    | inr r' =>
      rw [run_of_inr hs] at h ⊢
      exact h
  | succ fuel ih =>
    cases hs : step s with
    | inl s' =>
      obtain ⟨extra, rfl⟩ : ∃ extra, fuel' = extra + 1 := ⟨fuel' - 1, by omega⟩
      rw [run_succ_of_inl hs] at h ⊢
      exact ih (by omega) h
    | inr r' =>
      rw [run_of_inr hs] at h ⊢
      exact h

theorem Returns.unique {step : σ → σ ⊕ ρ} {s : σ} {r r' : ρ} (h : Returns step s r)
    (h' : Returns step s r') : r = r' := by
  obtain ⟨fuel, h⟩ := h
  obtain ⟨fuel', h'⟩ := h'
  have hLeft := run_mono (Nat.le_max_left fuel fuel') h
  have hRight := run_mono (Nat.le_max_right fuel fuel') h'
  exact Option.some.inj (hLeft.symm.trans hRight)

/-- A state set the loop cannot leave keeps it going for ever. -/
theorem diverges_of_invariant {step : σ → σ ⊕ ρ} (Inv : σ → Prop)
    (hStep : ∀ s, Inv s → ∃ s', step s = .inl s' ∧ Inv s') {s : σ} (h : Inv s) :
    Diverges step s := by
  intro fuel
  induction fuel generalizing s with
  | zero =>
    obtain ⟨s', hs, _⟩ := hStep s h
    simp [run, hs]
  | succ fuel ih =>
    obtain ⟨s', hs, h'⟩ := hStep s h
    rw [run_succ_of_inl hs]
    exact ih h'

/-- Total correctness: a variant that every continuing step decreases bounds the fuel, and
the result satisfies what the invariant gives at the exit. -/
theorem run_of_variant {step : σ → σ ⊕ ρ} (Inv : σ → Prop) (variant : σ → Nat)
    (Post : ρ → Prop)
    (hStep : ∀ s, Inv s → (∃ s', step s = .inl s' ∧ Inv s' ∧ variant s' < variant s) ∨
      ∃ r, step s = .inr r ∧ Post r)
    {fuel : Nat} {s : σ} (h : Inv s) (hFuel : variant s ≤ fuel) :
    ∃ r, run step fuel s = some r ∧ Post r := by
  induction fuel generalizing s with
  | zero =>
    rcases hStep s h with ⟨s', _, _, hLess⟩ | ⟨r, hs, hPost⟩
    · omega
    · exact ⟨r, run_of_inr hs _, hPost⟩
  | succ fuel ih =>
    rcases hStep s h with ⟨s', hs, h', hLess⟩ | ⟨r, hs, hPost⟩
    · rw [run_succ_of_inl hs]
      exact ih h' (by omega)
    · exact ⟨r, run_of_inr hs _, hPost⟩

/-- Partial correctness: what the invariant gives at the exit holds of every result. -/
theorem post_of_invariant {step : σ → σ ⊕ ρ} (Inv : σ → Prop) (Post : ρ → Prop)
    (hNext : ∀ s s', Inv s → step s = .inl s' → Inv s')
    (hExit : ∀ s r, Inv s → step s = .inr r → Post r) {fuel : Nat} {s : σ} {r : ρ} (h : Inv s)
    (hRun : run step fuel s = some r) : Post r := by
  induction fuel generalizing s with
  | zero =>
    cases hs : step s with
    | inl s' => simp [run, hs] at hRun
    | inr r' =>
      rw [run_of_inr hs] at hRun
      exact Option.some.inj hRun ▸ hExit s r' h hs
  | succ fuel ih =>
    cases hs : step s with
    | inl s' =>
      rw [run_succ_of_inl hs] at hRun
      exact ih (hNext s s' h hs) hRun
    | inr r' =>
      rw [run_of_inr hs] at hRun
      exact Option.some.inj hRun ▸ hExit s r' h hs

end LunarOS.Logic.Loop
