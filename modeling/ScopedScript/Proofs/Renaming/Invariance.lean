import Mathlib
import ScopedScript.Proofs.Renaming.Resolution
import ScopedScript.Proofs.Renaming.Simulation
import ScopedScript.Proofs.Session.Agreement

/-!
# Renaming a local variable changes nothing

In whatever state a session is, a program in which a local variable is renamed to a name that does
not occur in it is accepted like the program itself, and runs like it. At the start of the run the
two states are the same one, which is its own twin: nothing is marked in it yet.
-/

namespace ScopedScript

section Unmarked

variable {ρ : Renaming} {n : NodeId} {s : State}

theorem Marks.at_replicate (k : Nat) : ∀ d, Marks.at (List.replicate k false) d = false := by
  induction k with
  | zero => exact fun _ => rfl
  | succ k ih => exact Marks.at_cons_of_unmarked ih

/-- In a store in which nothing is marked, the marks of a chain are as many as its scopes. -/
theorem State.Matches.unmarked {e : EnvId} {Γ : Scopes} (h : s.Matches e Γ) :
    s.Marked (fun _ => false) e (List.replicate Γ.length false) := by
  induction Γ generalizing e with
  | nil => exact h
  | cons scope Γ ih =>
      obtain ⟨_, outer, houter, hmatches⟩ := h
      exact ⟨rfl, outer, houter, ih hmatches⟩

theorem Function.Sound.twin_self {f : Function} (h : f.Sound n s) :
    Function.Twin ρ s (fun _ => false) [] f f := by
  obtain ⟨⟨_, Γ, hmatches, _⟩, _⟩ := h
  exact .mk hmatches.unmarked (f.declaration.twin_self (Marks.at_replicate Γ.length))

theorem Function.SoundMethod.twin_self {f : Function} (h : f.SoundMethod n s) :
    Function.Twin ρ s (fun _ => false) [false] f f := by
  obtain ⟨_, Γ, hmatches, _⟩ := h
  exact .mk hmatches.unmarked
    (f.declaration.twin_self (Marks.at_cons_of_unmarked (Marks.at_replicate Γ.length)))

theorem Class.Sound.twin_self {c : Class} (h : c.Sound n s) :
    Class.Twin ρ s (fun _ => false) c c where
  id_eq := rfl
  name_eq := rfl
  methods _ := .of_self fun _ hmethod => (Eval.soundMethod_of_findMethod? h hmethod).twin_self

/-- A sound value is its own twin as long as nothing is marked. -/
theorem Value.Sound.twin_self {v : Value} (h : v.Sound n s) :
    Value.Twin ρ s (fun _ => false) v v := by
  cases v with
  | nil => exact .nil
  | bool _ => exact .bool
  | number _ => exact .number
  | string _ => exact .string
  | native _ => exact .native
  | function f => exact .function (Function.Sound.twin_self h)
  | cls c => exact .cls (Class.Sound.twin_self h)
  | object o => exact .object (Class.Sound.twin_self h)

/-- A sound state beside itself. -/
def TwinStates.same (ρ : Renaming) (hs : s.Sound n) (hgrounded : s.Grounded)
    (hdistances : s.distances = ρ.distances) : TwinStates ρ where
  state := s
  marking := fun _ => false
  store := s.store
  lastValue := s.lastValue
  grounded := hgrounded
  globals_unmarked := rfl
  distances_eq := hdistances
  nextEnv_eq := rfl
  nextObject_eq := rfl
  enclosing_eq _ := rfl
  binding _ _ := .of_self fun _ hv => (hs.binding hv).twin_self
  field _ _ := .of_self fun _ hv => (hs.field hv).twin_self
  render_eq := rfl

end Unmarked

/-- What can be seen of how a program ends: the fault that it ends with, if any, what has been
printed, and the text of the last value. -/
def Outcome.seen? {α : Type} :
    Outcome ProgramError Session α → Option (Option ProgramError × Sink × String)
  | .ok _ s => some (none, s.state.sink, s.state.lastValue.render)
  | .fault e s => some (some e, s.state.sink, s.state.lastValue.render)
  | .exhausted => none

namespace Session

/-- A session after a program has been read from a source text, whose references have numbers
now. -/
def afterReading (s : Session) (source : String) : Session :=
  ⟨s.state, (readProgram (scan source).tokens s.nextId).nextId⟩

/-- Accept a program and run it. -/
def execute (fuel : Nat) (program : List Stmt) : Run ProgramError Session Unit := do
  accept program
  evaluate (Eval.runProgram fuel program)

variable {s : Session} {program program' : List Stmt}

/-- Running a source text is executing the program that is read from it. -/
theorem run_eq_execute {source : String} (fuel : Nat) (hscan : (scan source).errors = [])
    (hread : (readProgram (scan source).tokens s.nextId).result = .ok program) :
    run fuel source s = execute fuel program (s.afterReading source) := by
  unfold run prepare execute
  simp only [hscan, bind_assoc]
  rw [Run.bind_of_ok (Run.get_apply s), hread]
  rfl

/-- From a session in which a program can be run, its twin is seen to end alike. -/
theorem seen?_evaluate_of_twin {ρ : Renaming} (hs : s.ReadyFor program)
    (hdistances : s.state.distances = ρ.distances) (hold : Ordinary ρ.old) (hnew : Ordinary ρ.new)
    (htwin : Stmt.TwinAll ρ [] program program') (fuel : Nat) :
    (evaluate (Eval.runProgram fuel program') s).seen? =
      (evaluate (Eval.runProgram fuel program) s).seen? := by
  let p : TwinStates ρ := .same ρ hs.sound hs.grounded hdistances
  have hsafe := Eval.safe_runProgram fuel hs.sound hs.current_eq hs.formed hs.fits
  have hend : Outcome.Twin p (fun _ _ _ => True) (Eval.runProgram fuel program s.state)
      (Eval.runProgram fuel program' s.state) :=
    Eval.lockstep_runProgram hold hnew fuel hs.current_eq htwin
  unfold Eval.Safe Run.Ensures at hsafe
  unfold evaluate
  generalize Eval.runProgram fuel program s.state = o at hsafe hend
  generalize Eval.runProgram fuel program' s.state = o' at hend
  cases hend with
  | @ok q _ _ _ _ => simp only [Outcome.seen?, TwinStates.other, q.render_eq]
  | @fault q e e' he =>
      -- a run without a programming error ends in a lawful fault, which twins share
      obtain rfl := he hsafe.2
      simp only [Outcome.seen?, TwinStates.other, q.render_eq]
  | exhausted => rfl

/-- A local variable can be renamed to any name that does not occur in the program, be it that of a
global variable: the program is accepted with the same distances, and from the same session it is
seen to end alike, however much fuel it is given. -/
theorem execute_seen_eq_of_renamesTo {source : String} {distances : Distances} {x y : String}
    (h : s.Reachable) (hread : (readProgram (scan source).tokens s.nextId).result = .ok program)
    (hresolve : resolve program = .ok distances)
    (hrename : Stmt.RenamesToAll ⟨distances, x, y⟩ program program') (hword : NoKeyword y)
    (hfresh : y ∉ Stmt.namesAll program) :
    resolve program' = .ok distances ∧ ∀ fuel,
      (execute fuel program' (s.afterReading source)).seen? =
        (execute fuel program (s.afterReading source)).seen? := by
  have hprepared := prepared_of_readProgram hread
  have hnumbers := hprepared.numbers []
  obtain ⟨hobeys, hdistances⟩ := resolve_eq_ok.mp hresolve
  obtain ⟨hrecorded, _⟩ := recorded_union hnumbers h.sound.unknown
  rw [← hdistances] at hrecorded
  let ρ : Renaming := ⟨distances, x, y⟩
  have hold : Ordinary x := hrename.ordinary hprepared.formed
  -- the session knows nothing yet of the references of this program
  have hagree : AgreeOn distances (s.state.distances ∪ distances)
      (Stmt.recordsAll [] program) := by
    intro id hid
    rw [Std.TreeMap.getElem?_union, h.sound.unknown id (hnumbers.mem_iff.mp hid).1, Option.or_none]
  have htwin : Stmt.TwinAll (ρ.over (s.state.distances ∪ distances)) [] program program' :=
    hrename.twin (fun _ => rfl) hprepared.formed hobeys hfresh hagree
  have halike := Stmt.resolvedAlikeAll program ⟨.topLevel, .outside⟩ hold
    hword.ordinary htwin .nil hfresh hrecorded
  have hresolve' : resolve program' = .ok distances := by
    refine resolve_eq_ok.mpr ⟨halike.keeps hobeys, ?_⟩
    rw [halike.records_eq]
    exact hdistances
  refine ⟨hresolve', fun fuel => ?_⟩
  let t : Session := s.afterReading source
  let t' : Session := ⟨{ s.state with distances := s.state.distances ∪ distances }, t.nextId⟩
  have haccept : accept program t = .ok () t' := by
    unfold accept
    rw [hresolve]
    rfl
  have haccept' : accept program' t = .ok () t' := by
    unfold accept
    rw [hresolve']
    rfl
  -- both programs are accepted into one session, and only then do their runs differ
  have hready : t'.ReadyFor program := (ensures_accept (s := t) h.sound hprepared).ok haccept
  unfold execute
  rw [Run.bind_of_ok haccept, Run.bind_of_ok haccept']
  exact seen?_evaluate_of_twin hready rfl hold hword.ordinary htwin fuel

/-- For example, the variable of a block at the start of a session. -/
theorem execute_seen_eq_of_block :
    resolve [.block [.var ⟨"b", 1⟩ none, .print (.name ⟨0, ⟨"b", 1⟩⟩)]] =
        .ok ((∅ : Distances).insert 0 0) ∧
      ∀ fuel,
        (execute fuel [.block [.var ⟨"b", 1⟩ none, .print (.name ⟨0, ⟨"b", 1⟩⟩)]]
          ((initial (.ofClock fun _ => 0) .accepting).afterReading "{var a;print a;}")).seen? =
        (execute fuel [.block [.var ⟨"a", 1⟩ none, .print (.name ⟨0, ⟨"a", 1⟩⟩)]]
          ((initial (.ofClock fun _ => 0) .accepting).afterReading "{var a;print a;}")).seen? :=
  execute_seen_eq_of_renamesTo (x := "a") (y := "b") .initial (by cbv) rfl
    (.first (.here ⟨1, none, List.mem_cons_self⟩)) (by decide) (by decide)

end Session

end ScopedScript
