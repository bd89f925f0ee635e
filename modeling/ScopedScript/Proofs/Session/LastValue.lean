import ScopedScript.Proofs.Eval.Notes
import ScopedScript.Proofs.Session.Preparation

/-!
# The last value of a session

The value that a session reports as its last one is that of the last expression statement that was
through in any of the source texts that were run, also if the text failed later on. It need not be a
statement at the top level: one in a block, a branch, a loop or the body of a function counts as
well. So the last value is that of the last statement at the top level only as long as no other one
was through after it.
-/

namespace ScopedScript

theorem lastOf_filter {notes : List Note} {note : Note} (h : notes.getLast? = some note)
    (htop : note.isAtTop = true) (v : Value) :
    lastOf (notes.filter Note.isAtTop) v = lastOf notes v := by
  obtain ⟨front, rfl⟩ := List.getLast?_eq_some_iff.mp h
  rw [List.filter_append, List.filter_cons_of_pos htop, List.filter_nil, lastOf_append,
    lastOf_append, lastOf_singleton, lastOf_singleton]

namespace Session

/-- What is noted when the program that a preparation gives is run. -/
def preparedNotes {ε : Type} (fuel : Nat) (preparation : Run ε Session (List Stmt)) (s : Session) :
    List Note :=
  match preparation s with
  | .ok program s₁ => Eval.programNotes fuel program s₁.state
  | .fault _ _ | .exhausted => []

/-- The sessions that a session leads to by running source texts, with all that was noted on the
way. -/
inductive History (s : Session) : List Note → Session → Prop where
  | start : History s [] s
  | setEcho {t : Session} {notes : List Note} {echo : Bool} : History s notes t →
      History s notes (t.setEcho echo)
  | run {t t' : Session} {notes : List Note} {fuel : Nat} {source : String} :
      History s notes t → (run fuel source).Ends t t' →
      History s (notes ++ preparedNotes fuel (prepare source) t) t'
  | runLine {t t' : Session} {notes : List Note} {fuel : Nat} {source : String} :
      History s notes t → (runLine fuel source).Ends t t' →
      History s (notes ++ preparedNotes fuel (prepareLine source) t) t'

/-- However a computation ends, the last value is then that of the last of the notes. -/
abbrev Noted {ε α : Type} (notes : List Note) (m : Run ε Session α) (s : Session) : Prop :=
  m.Ensures s (fun _ s' => s'.state.lastValue = lastOf notes s.state.lastValue)
    (fun _ s' => s'.state.lastValue = lastOf notes s.state.lastValue)

theorem SameButDistances.lastValue_eq {s s' : Session} (h : s.SameButDistances s') :
    s'.state.lastValue = s.state.lastValue := by
  obtain ⟨D, hstate⟩ := h
  rw [hstate]

theorem noted_prepare (source : String) (s : Session) : Noted [] (prepare source) s :=
  (keeps_prepare source).mono (fun _ _ => SameButDistances.lastValue_eq) s

theorem noted_prepareLine (source : String) (s : Session) : Noted [] (prepareLine source) s :=
  (keeps_prepareLine source).mono (fun _ _ => SameButDistances.lastValue_eq) s

theorem noted_evaluate (fuel : Nat) (program : List Stmt) (s : Session) :
    Noted (Eval.programNotes fuel program s.state) (evaluate (Eval.runProgram fuel program)) s :=
  ensures_evaluate_of (Eval.explains_runProgram fuel program s.state)

theorem noted_bind {ε : Type} {fuel : Nat} {preparation : Run ε Session (List Stmt)} {s : Session}
    {m : List Stmt → Run ε Session Unit} (hprepare : Noted [] preparation s)
    (hm : ∀ program s₁, Noted (Eval.programNotes fuel program s₁.state) (m program) s₁) :
    Noted (preparedNotes fuel preparation s) (preparation >>= m) s := by
  unfold preparedNotes
  cases hend : preparation s with
  | ok program s₁ =>
      have hlast : s₁.state.lastValue = s.state.lastValue := hprepare.ok hend
      refine .bind_of_ok hend ?_
      rw [← hlast]
      exact hm program s₁
  | fault e s₁ => exact .bind_of_fault hend (hprepare.fault hend)
  | exhausted => exact .bind_of_exhausted hend

theorem noted_run (fuel : Nat) (source : String) (s : Session) :
    Noted (preparedNotes fuel (prepare source) s) (run fuel source) s :=
  noted_bind (noted_prepare source s) (noted_evaluate fuel)

theorem noted_runLine (fuel : Nat) (source : String) (s : Session) :
    Noted (preparedNotes fuel (prepareLine source) s) (runLine fuel source) s :=
  noted_bind (noted_prepareLine source s) fun program s₁ =>
    (noted_evaluate fuel program s₁).mapError fun _ _ => id

theorem History.lastValue_eq {s t : Session} {notes : List Note} (h : s.History notes t) :
    t.state.lastValue = lastOf notes s.state.lastValue := by
  induction h with
  | start => rfl
  | setEcho _ ih => exact ih
  | run _ hends ih =>
      rw [lastOf_append, ← ih]
      exact (noted_run _ _ _).of_ends hends
  | runLine _ hends ih =>
      rw [lastOf_append, ← ih]
      exact (noted_runLine _ _ _).of_ends hends

/-- Whatever has been run in a session and however it ended, the last value is that of the last
expression statement that was through, wherever it stands, and `nil` if there has been none. If that
was a statement at the top level, the last value is that of the last such statement. -/
theorem lastValue_eq_lastOf {host : Host} {sink : Sink} {notes : List Note} {t : Session}
    (h : (initial host sink).History notes t) :
    t.state.lastValue = lastOf notes .nil ∧
    ((∀ note, notes.getLast? = some note → note.isAtTop = true) →
      t.state.lastValue = lastOf (notes.filter Note.isAtTop) .nil) := by
  have hlast : t.state.lastValue = lastOf notes .nil := h.lastValue_eq
  refine ⟨hlast, fun htop => ?_⟩
  cases hend : notes.getLast? with
  | none =>
      obtain rfl := List.getLast?_eq_none_iff.mp hend
      exact hlast
  | some note => rw [hlast, lastOf_filter hend (htop note hend)]

/-- For example, of a text that fails in a block and of one that goes on after it. -/
theorem lastValue_eq_lastOf_block :
    (∃ t, run 9 "true; { false; nil(); }" (initial (.ofClock fun _ => 0) .accepting) =
      .fault (.halt (.runtime .notCallable 1)) t ∧ t.state.lastValue = .bool false) ∧
    ∃ t, run 9 "{ false; } true;" (initial (.ofClock fun _ => 0) .accepting) = .ok () t ∧
      t.state.lastValue = .bool true := by
  let s := initial (.ofClock fun _ => 0) .accepting
  have hfault : ∃ t, run 9 "true; { false; nil(); }" s =
      .fault (.halt (.runtime .notCallable 1)) t := ⟨_, by cbv⟩
  have hok : ∃ t, run 9 "{ false; } true;" s = .ok () t := ⟨_, by cbv⟩
  have hnotes : preparedNotes 9 (prepare "true; { false; nil(); }") s =
      [.atTop (.bool true), .nested (.bool false)] := by cbv
  have hnotes' : preparedNotes 9 (prepare "{ false; } true;") s =
      [.nested (.bool false), .atTop (.bool true)] := by cbv
  obtain ⟨t, hfault⟩ := hfault
  obtain ⟨t', hok⟩ := hok
  refine ⟨⟨t, hfault, ?_⟩, t', hok, ?_⟩
  · have hlast := (lastValue_eq_lastOf (.run .start (.inr ⟨_, hfault⟩))).1
    rw [hnotes] at hlast
    exact hlast
  · have hlast := (lastValue_eq_lastOf (.run .start (.inl ⟨_, hok⟩))).2
    rw [hnotes'] at hlast
    exact hlast fun note hnote => by cases hnote; rfl

/-- An expression statement in a block is enough: its value is the last one, though there was none
at the top level. -/
theorem not_lastValue_eq_lastOf_atTop : ¬∀ (host : Host) (sink : Sink) (notes : List Note)
    (t : Session), (initial host sink).History notes t →
    t.state.lastValue = lastOf (notes.filter Note.isAtTop) .nil := by
  intro h
  have hrun : ∃ t, run 9 "{ true; }" (initial (.ofClock fun _ => 0) .accepting) = .ok () t ∧
      t.state.lastValue = .bool true := ⟨_, by cbv, by cbv⟩
  have hnotes : preparedNotes 9 (prepare "{ true; }")
      (initial (.ofClock fun _ => 0) .accepting) = [.nested (.bool true)] := by cbv
  obtain ⟨t, hrun, hlast⟩ := hrun
  have hclaimed := h _ _ _ t (.run .start (.inl ⟨_, hrun⟩))
  rw [hnotes, hlast] at hclaimed
  cases hclaimed

end Session

end ScopedScript
