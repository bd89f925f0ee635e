import ScopedScript.Proofs.Session.Identities

/-!
# Back where it was

Blocks, calls and initializers are executed in scopes of their own, and each may be left by a
`return`, by a fault of the program or by a write that is refused. Whatever is evaluated or
executed, and however it ends, the scope that was current before is current again, and the global
scope is the same. So between two source texts a session is always at the top level.
-/

namespace ScopedScript

/-- A state at the same place: the same scope is current, and the same one is global. -/
structure State.SamePlace (s s' : State) : Prop where
  current_eq : s'.current = s.current
  globals_eq : s'.globals = s.globals

theorem State.Grows.samePlace {s s' : State} (h : s.Grows s') : s.SamePlace s' :=
  ⟨h.current_eq, h.globals_eq⟩

namespace State.SamePlace

variable {s s₁ s₂ s₃ : State}

theorem refl (s : State) : s.SamePlace s := ⟨rfl, rfl⟩

theorem trans (h₁ : s₁.SamePlace s₂) (h₂ : s₂.SamePlace s₃) : s₁.SamePlace s₃ :=
  ⟨h₂.current_eq.trans h₁.current_eq, h₂.globals_eq.trans h₁.globals_eq⟩

end State.SamePlace

theorem Eval.samePlace_of_ends {α : Type} {m : Eval α} {s s' : State} (hkeeps : KeepsPlace m)
    (hends : m.Ends s s') : s.SamePlace s' :=
  ((hkeeps s).of_ends hends).samePlace

namespace Session

/-- A computation of a session that ends at the place where it began. -/
abbrev StaysInPlace {ε α : Type} (m : Run ε Session α) : Prop :=
  m.Keeps fun s s' => s.state.SamePlace s'.state

variable {ε ε' α β : Type}

theorem StaysInPlace.bind {m : Run ε Session α} {f : α → Run ε Session β} (h : StaysInPlace m)
    (hf : ∀ a, StaysInPlace (f a)) : StaysInPlace (m >>= f) :=
  Run.Keeps.bind (fun _ _ _ => State.SamePlace.trans) h hf

theorem StaysInPlace.mapError {m : Run ε Session α} {f : ε → ε'} (h : StaysInPlace m) :
    StaysInPlace (m.mapError f) := fun s => (h s).mapError fun _ _ => id

theorem SameButDistances.samePlace {s s' : Session} (h : s.SameButDistances s') :
    s.state.SamePlace s'.state := by
  obtain ⟨D, hstate⟩ := h
  rw [hstate]
  exact ⟨rfl, rfl⟩

theorem staysInPlace_prepare (source : String) : StaysInPlace (prepare source) :=
  (keeps_prepare source).mono fun _ _ => SameButDistances.samePlace

theorem staysInPlace_prepareLine (source : String) : StaysInPlace (prepareLine source) :=
  (keeps_prepareLine source).mono fun _ _ => SameButDistances.samePlace

theorem staysInPlace_evaluate {m : Eval α} (h : Eval.KeepsPlace m) : StaysInPlace (evaluate m) :=
  fun s => ensures_evaluate_of
    ((h s.state).mono (fun _ _ => State.Grows.samePlace) (fun _ _ => State.Grows.samePlace))

theorem staysInPlace_run (fuel : Nat) (source : String) : StaysInPlace (run fuel source) :=
  (staysInPlace_prepare source).bind fun program =>
    staysInPlace_evaluate (Eval.keepsPlace_runProgram fuel program)

theorem staysInPlace_runLine (fuel : Nat) (source : String) : StaysInPlace (runLine fuel source) :=
  (staysInPlace_prepareLine source).bind fun program =>
    (staysInPlace_evaluate (Eval.keepsPlace_runProgram fuel program)).mapError

theorem LeadsTo.samePlace {s t : Session} (h : s.LeadsTo t) : s.state.SamePlace t.state := by
  induction h with
  | refl => exact .refl _
  | setEcho _ ih => exact ⟨ih.current_eq, ih.globals_eq⟩
  | run _ hends ih => exact ih.trans ((staysInPlace_run _ _ _).of_ends hends)
  | runLine _ hends ih => exact ih.trans ((staysInPlace_runLine _ _ _).of_ends hends)

/-- In every state, whatever distances are known, whatever natives answer and whichever writes are
refused: when the evaluation of an expression, the execution of a statement or of the body of a
block in a scope, a call, or that of a declared function with whatever arguments, ends, with a
value, with or without a `return`, or with a fault met at any depth, the current scope is the one
that it was at the beginning, and so is the global one. Hence after each source text that was run in
a session or typed in, the current scope is the global one, which is the scope that the session
began with. -/
theorem place_restored :
    (∀ (fuel : Nat) (s s' : State),
      (∀ e, (Eval.eval fuel e).Ends s s' → s.SamePlace s') ∧
      (∀ stmt, (Eval.exec fuel stmt).Ends s s' → s.SamePlace s') ∧
      (∀ body scope, (Eval.execBlock fuel body scope).Ends s s' → s.SamePlace s') ∧
      (∀ callee arguments line,
        (Eval.call fuel callee arguments line).Ends s s' → s.SamePlace s') ∧
      ∀ f arguments, (Eval.invoke fuel f arguments).Ends s s' → s.SamePlace s') ∧
    ∀ host sink t, (initial host sink).LeadsTo t →
      t.state.current = t.state.globals ∧ t.state.globals = (initial host sink).state.globals := by
  refine ⟨fun fuel s s' => ?_, fun host sink t hleads => ?_⟩
  · have hkeeps := Eval.keepsPlaceWith fuel
    refine ⟨fun e => ?_, fun stmt => ?_, fun body scope => ?_, fun callee arguments line => ?_,
      fun f arguments => ?_⟩
    · exact Eval.samePlace_of_ends (hkeeps.eval e)
    · exact Eval.samePlace_of_ends (hkeeps.exec stmt)
    · exact Eval.samePlace_of_ends (Eval.keeps_within (hkeeps.execAll body))
    · exact Eval.samePlace_of_ends (hkeeps.call callee arguments line)
    · exact Eval.samePlace_of_ends (hkeeps.invoke f arguments)
  · have hplace := hleads.samePlace
    exact ⟨hplace.current_eq.trans hplace.globals_eq.symm, hplace.globals_eq⟩

/-- For example, of a write that is refused in a block, wherever that is executed, and of a fault in
a block of a function that is called in another block. -/
theorem place_restored_after_faults :
    (∃ s', Eval.exec 9 (.block [.print (.literal .nil)])
        { State.initial (.ofClock fun _ => 0) ⟨fun _ => some "closed", 0, ""⟩ with current := 7 } =
      .fault (.output "closed") s' ∧ s'.current = 7) ∧
    ∃ t, run 19 "{ fun f() { { nil(); } } f(); }" (initial (.ofClock fun _ => 0) .accepting) =
      .fault (.halt (.runtime .notCallable 1)) t ∧ t.state.current = t.state.globals := by
  have hexec : ∃ s', Eval.exec 9 (.block [.print (.literal .nil)])
      { State.initial (.ofClock fun _ => 0) ⟨fun _ => some "closed", 0, ""⟩ with current := 7 } =
        .fault (.output "closed") s' := ⟨_, by cbv⟩
  have hrun : ∃ t, run 19 "{ fun f() { { nil(); } } f(); }"
      (initial (.ofClock fun _ => 0) .accepting) = .fault (.halt (.runtime .notCallable 1)) t :=
    ⟨_, by cbv⟩
  obtain ⟨s', hexec⟩ := hexec
  obtain ⟨t, hrun⟩ := hrun
  refine ⟨⟨s', hexec, ?_⟩, t, hrun, ?_⟩
  · exact ((place_restored.1 9 _ s').2.1 _ (.inr ⟨_, hexec⟩)).current_eq
  · exact (place_restored.2 _ _ t (.run .refl (.inr ⟨_, hrun⟩))).1

end Session

end ScopedScript
