/-!
# Computations that may fault or run out of fuel

Reading a program and running one are both computations over a state that may stop with a fault.
A fault keeps the state it was met in: a reader that goes on after a fault needs its position, and
what a program printed before it failed has been printed. Running out of fuel is kept apart from
both: it says nothing about the computation, only that too little fuel was given.
-/

namespace ScopedScript

/-- How a computation over a state of type `σ` ends. -/
inductive Outcome (ε σ α : Type) where
  | ok (value : α) (state : σ)
  | fault (error : ε) (state : σ)
  | exhausted

/-- A computation over a state of type `σ` that may stop with a fault of type `ε`. -/
def Run (ε σ α : Type) : Type := σ → Outcome ε σ α

namespace Run

variable {ε ε' σ α β : Type}

/-- The computation that does nothing but give `a`. -/
@[always_inline, inline] protected def pure (a : α) : Run ε σ α := fun s => .ok a s

/-- Run `m`, then what `f` makes of its result, unless `m` does not end well. -/
@[always_inline, inline] protected def bind (m : Run ε σ α) (f : α → Run ε σ β) : Run ε σ β :=
  fun s => match m s with
    | .ok a s => f a s
    | .fault e s => .fault e s
    | .exhausted => .exhausted

@[always_inline] instance : Monad (Run ε σ) where
  pure := Run.pure
  bind := Run.bind

/-- Stop with the fault `e`. -/
@[always_inline, inline] def fail (e : ε) : Run ε σ α := fun s => .fault e s

/-- The computation that has no fuel left. -/
@[always_inline, inline] def outOfFuel : Run ε σ α := fun _ => .exhausted

/-- The state. -/
@[always_inline, inline] def get : Run ε σ σ := fun s => .ok s s

/-- A part of the state, or something computed from it. -/
@[always_inline, inline] def gets (f : σ → α) : Run ε σ α := fun s => .ok (f s) s

/-- Change the state by `f`. -/
@[always_inline, inline] def modify (f : σ → σ) : Run ε σ Unit := fun s => .ok () (f s)

/-- Change the state by `f`, which also gives a result. -/
@[always_inline, inline] def update (f : σ → α × σ) : Run ε σ α :=
  fun s => let (a, s) := f s; .ok a s

/-- The result of `r`, whose failure is a fault. -/
@[always_inline, inline] def ofExcept (r : Except ε α) : Run ε σ α :=
  fun s => match r with
    | .ok a => .ok a s
    | .error e => .fault e s

/-- Run `m`, and go on whether it ends well or with a fault. -/
@[always_inline, inline] def attempt (m : Run ε σ α) : Run ε' σ (Except ε α) :=
  fun s => match m s with
    | .ok a s => .ok (.ok a) s
    | .fault e s => .ok (.error e) s
    | .exhausted => .exhausted

/-- Run `m`, whose faults `f` turns into others. -/
@[always_inline, inline] def mapError (f : ε → ε') (m : Run ε σ α) : Run ε' σ α :=
  fun s => match m s with
    | .ok a s => .ok a s
    | .fault e s => .fault (f e) s
    | .exhausted => .exhausted

section Equations

variable (a : α) (m : Run ε σ α) (f : α → Run ε σ β) (e : ε) (s : σ)

@[simp] theorem pure_apply : (pure a : Run ε σ α) s = .ok a s := rfl

theorem bind_apply : (m >>= f) s =
    match m s with
    | .ok a s => f a s
    | .fault e s => .fault e s
    | .exhausted => .exhausted := rfl

@[simp] theorem fail_apply : (fail e : Run ε σ α) s = .fault e s := rfl

@[simp] theorem outOfFuel_apply : (outOfFuel : Run ε σ α) s = .exhausted := rfl

@[simp] theorem get_apply : (get : Run ε σ σ) s = .ok s s := rfl

@[simp] theorem gets_apply (g : σ → α) : (gets g : Run ε σ α) s = .ok (g s) s := rfl

@[simp] theorem modify_apply (g : σ → σ) : (modify g : Run ε σ Unit) s = .ok () (g s) := rfl

@[simp] theorem update_apply (g : σ → α × σ) :
    (update g : Run ε σ α) s = .ok (g s).1 (g s).2 := rfl

end Equations

instance : LawfulMonad (Run ε σ) := LawfulMonad.mk' _
  (fun m => by
    funext s
    change Run.bind m (fun a => Run.pure a) s = m s
    unfold Run.bind
    cases m s <;> rfl)
  (fun _ _ => rfl)
  (fun m _ _ => by
    funext s
    change Run.bind (Run.bind m _) _ s = Run.bind m (fun a => Run.bind _ _) s
    unfold Run.bind
    cases m s <;> rfl)

end Run

end ScopedScript
