import Mathlib.Data.List.Basic

/-!
# Computations that write before they fail

`Writer ω ε α` is a list of symbols and the way the computation ended. What was written before
a failure stays written, so the list is part of the meaning of every run, not only of those that
return. The laws of the monad hold, and `mapM_of_ok` and `mapM_of_error` are the rules for a loop
over a list: all turns return, or the first that does not is named.
-/

namespace LunarOS.Logic

@[ext]
structure Writer (ω ε α : Type) where
  out : List ω
  result : Except ε α

namespace Writer

variable {ω ε α β γ : Type}

protected def pure (a : α) : Writer ω ε α := ⟨[], .ok a⟩

/-- After a failure nothing more is written. -/
protected def bind (x : Writer ω ε α) (f : α → Writer ω ε β) : Writer ω ε β :=
  match x.result with
  | .ok a => ⟨x.out ++ (f a).out, (f a).result⟩
  | .error e => ⟨x.out, .error e⟩

instance : Monad (Writer ω ε) where
  pure := Writer.pure
  bind := Writer.bind

def tell (out : List ω) : Writer ω ε Unit := ⟨out, .ok ()⟩

def fail (e : ε) : Writer ω ε α := ⟨[], .error e⟩

theorem pure_eq (a : α) : (pure a : Writer ω ε α) = ⟨[], .ok a⟩ := rfl

theorem bind_of_ok {x : Writer ω ε α} {a : α} (h : x.result = .ok a) (f : α → Writer ω ε β) :
    x >>= f = ⟨x.out ++ (f a).out, (f a).result⟩ := by
  change Writer.bind x f = _
  unfold Writer.bind
  rw [h]

theorem bind_of_error {x : Writer ω ε α} {e : ε} (h : x.result = .error e)
    (f : α → Writer ω ε β) : x >>= f = ⟨x.out, .error e⟩ := by
  change Writer.bind x f = _
  unfold Writer.bind
  rw [h]

@[simp]
theorem tell_bind (out : List ω) (f : Unit → Writer ω ε β) :
    tell out >>= f = ⟨out ++ (f ()).out, (f ()).result⟩ := bind_of_ok rfl f

theorem tell_append (out out' : List ω) (f : Unit → Writer ω ε β) :
    tell (out ++ out') >>= f = tell out >>= fun _ => tell out' >>= f := by
  rw [tell_bind, tell_bind, tell_bind, List.append_assoc]

theorem mk_bind (out : List ω) (a : α) (f : α → Writer ω ε β) :
    (⟨out, .ok a⟩ : Writer ω ε α) >>= f = tell out >>= fun _ => f a := by
  rw [bind_of_ok rfl, tell_bind]

theorem mk_error_bind (out : List ω) (e : ε) (f : α → Writer ω ε β) :
    (⟨out, .error e⟩ : Writer ω ε α) >>= f = ⟨out, .error e⟩ := bind_of_error rfl f

theorem pure_bind (a : α) (f : α → Writer ω ε β) : pure a >>= f = f a := bind_of_ok rfl f

theorem bind_pure (x : Writer ω ε α) : x >>= pure = x := by
  cases hx : x.result with
  | error e =>
    rw [bind_of_error hx, ← hx]
  | ok a =>
    rw [bind_of_ok hx, pure_eq, List.append_nil, ← hx]

theorem bind_assoc (x : Writer ω ε α) (f : α → Writer ω ε β) (g : β → Writer ω ε γ) :
    x >>= f >>= g = x >>= fun a => f a >>= g := by
  cases hx : x.result with
  | error e => rw [bind_of_error hx, bind_of_error hx, bind_of_error rfl]
  | ok a =>
    rw [bind_of_ok hx, bind_of_ok hx]
    cases hf : (f a).result with
    | error e => rw [bind_of_error rfl, bind_of_error hf]
    | ok b =>
      rw [bind_of_ok rfl, bind_of_ok hf]
      simp

instance : LawfulMonad (Writer ω ε) :=
  LawfulMonad.mk' (Writer ω ε) bind_pure pure_bind bind_assoc

/-- A loop over a list, when every turn returns. -/
theorem mapM_of_ok {f : α → Writer ω ε β} {line : α → List ω} {g : α → β} {xs : List α}
    (h : ∀ x ∈ xs, f x = ⟨line x, .ok (g x)⟩) :
    xs.mapM f = ⟨xs.flatMap line, .ok (xs.map g)⟩ := by
  induction xs with
  | nil => rfl
  | cons x xs ih =>
    have hTail := ih fun y hy => h y (List.mem_cons_of_mem _ hy)
    rw [List.mapM_cons, h x List.mem_cons_self, bind_of_ok rfl, hTail, bind_of_ok rfl, pure_eq,
      List.append_nil]
    rfl

/-- The turns before the first failure have written. -/
theorem mapM_of_error {f : α → Writer ω ε β} {line : α → List ω} {g : α → β} {before after : List α}
    {x : α} {out : List ω} {e : ε} (h : ∀ y ∈ before, f y = ⟨line y, .ok (g y)⟩)
    (hx : f x = ⟨out, .error e⟩) :
    (before ++ x :: after).mapM f = ⟨before.flatMap line ++ out, .error e⟩ := by
  rw [List.mapM_append, mapM_of_ok h, bind_of_ok rfl, List.mapM_cons, hx, bind_of_error rfl,
    bind_of_error rfl]

end Writer

end LunarOS.Logic
