import ScopedScript.Proofs.Session.Preparation

/-!
# Resolution and evaluation agree

Through a whole session, whatever is run and however it ends, each run finds the scopes that were
worked out for it beforehand: also when it calls functions that an earlier program declared, and
after a program that failed.
-/

namespace ScopedScript

/-- What can be said of the names that a fault of a program is about. -/
def ProgramError.Lawful (s : State) : ProgramError → Prop
  | .halt reason => reason.Lawful s
  | .lex _ | .parse _ | .scope _ => True

namespace Session

/-- The sessions that arise by running source texts one after the other, whether they end well or
with faults, and by switching the printing of values on and off. -/
inductive Reachable : Session → Prop where
  | initial {readings : Nat → Float} {sink : Sink} : Reachable (.initial (.ofClock readings) sink)
  | setEcho {s : Session} {echo : Bool} : Reachable s → Reachable (s.setEcho echo)
  | run {s s' : Session} {fuel : Nat} {source : String} : Reachable s →
      (run fuel source).Ends s s' → Reachable s'
  | runLine {s s' : Session} {fuel : Nat} {source : String} : Reachable s →
      (runLine fuel source).Ends s s' → Reachable s'

/-- Between two programs, a session is at the top level, everything it holds is sound, and nothing
is known of references with numbers that have not been given out. -/
structure Sound (s : Session) : Prop where
  sound : s.state.Sound s.nextId
  grounded : s.state.Grounded
  current_eq : s.state.current = s.state.globals
  unknown : ∀ id, s.nextId ≤ id → s.state.distances[id]? = none

/-- A session in which a program can be run. -/
structure ReadyFor (s : Session) (program : List Stmt) : Prop extends s.Sound where
  formed : Stmt.FormedAll program
  fits : Fits s.nextId s.state.distances (Stmt.ObeysAll ⟨.topLevel, .outside⟩ [] program)
    (Stmt.recordsAll [] program)

variable {s : Session} {program : List Stmt}

theorem Sound.later {n : NodeId} (h : s.Sound) (hle : s.nextId ≤ n) : Sound ⟨s.state, n⟩ where
  sound := h.sound.mono hle ⟨rfl, .refl _, .refl _ _⟩ rfl (fun _ _ _ hv => Or.inl hv)
    (fun _ _ _ hv => Or.inl hv)
  grounded := h.grounded
  current_eq := h.current_eq
  unknown id hid := h.unknown id (Nat.le_trans hle hid)

theorem sound_initial (readings : Nat → Float) (sink : Sink) :
    (initial (.ofClock readings) sink).Sound where
  sound := {
    binding := by
      intro e x v hv
      simp only [initial, State.initial, Store.binding?_define, Store.binding?_addEnv] at hv
      by_cases hclock : 0 = e ∧ clock.name = x ∧ (Store.empty.addEnv none).HasEnv 0
      · rw [if_pos hclock] at hv
        cases hv
        trivial
      · rw [if_neg hclock] at hv
        cases hv
    field := fun hv => nomatch hv
    answer := by
      intro f calls arguments v hv n' s'
      cases hv
      trivial }
  grounded := ⟨Nat.zero_lt_one, rfl, readings, rfl⟩
  current_eq := rfl
  unknown _ _ := Std.TreeMap.getElem?_emptyc

/-- A program that is accepted is ready to be run. -/
theorem ensures_accept {base : NodeId} (hs : Sound ⟨s.state, base⟩)
    (hprepared : Prepared base s.nextId program) : (accept program).Ensures s
      (fun _ s' => s'.ReadyFor program) (fun e s' => s'.Sound ∧ e.Lawful s'.state) := by
  have hle : base ≤ s.nextId := (hprepared.numbers []).le
  have hlater : s.Sound := hs.later hle
  unfold accept
  cases hresolve : resolve program with
  | error e => exact .of_fault rfl ⟨hlater, trivial⟩
  | ok distances =>
      obtain ⟨hobeys, hdistances⟩ := resolve_eq_ok.mp hresolve
      obtain ⟨hrecorded, hagree⟩ := recorded_union (hprepared.numbers []) hs.unknown
      rw [← hdistances] at hrecorded hagree
      refine .of_ok rfl ⟨⟨?_, ?_, hlater.current_eq, ?_⟩, hprepared.formed, ⟨hobeys, hrecorded⟩⟩
      · exact hs.sound.mono hle ⟨rfl, .refl _, hagree⟩ rfl (fun _ _ _ hv => Or.inl hv)
          (fun _ _ _ hv => Or.inl hv)
      · exact hs.grounded.later rfl (.refl _) rfl
      · intro id hid
        have hnew : id ∉ idsOf (Stmt.recordsAll [] program) := fun hmem =>
          Nat.not_lt_of_le hid ((hprepared.numbers []).mem_iff.mp hmem).2
        have hunknown : s.state.distances[id]? = none := hlater.unknown id hid
        rw [Std.TreeMap.getElem?_union, hunknown, Option.or_none, hdistances,
          getElem?_recordAll_of_notMem hnew]
        exact Std.TreeMap.getElem?_emptyc

/-- Running a program that is ready leaves a sound session, however it ends. -/
theorem ensures_evaluate (fuel : Nat) (hs : s.ReadyFor program) :
    (evaluate (Eval.runProgram fuel program)).Ensures s
      (fun _ s' => s'.Sound) (fun e s' => s'.Sound ∧ e.Lawful s'.state) := by
  have hsafe := Eval.safe_runProgram fuel hs.sound hs.current_eq hs.formed hs.fits
  have hkeeps := Eval.keepsPlace_runProgram fuel program s.state
  have hlater {state : State} (hstate : state.Sound s.nextId) (hgrows : s.state.Grows state) :
      Sound ⟨state, s.nextId⟩ := by
    refine ⟨hstate, ?_, ?_, ?_⟩
    · exact hs.grounded.later hgrows.globals_eq hgrows.store_extends hgrows.host_eq
    · exact hgrows.current_eq.trans (hs.current_eq.trans hgrows.globals_eq.symm)
    · intro id hid
      exact (congrArg (fun D : Distances => D[id]?) hgrows.distances_eq).trans (hs.unknown id hid)
  refine ensures_evaluate_of ((hsafe.and hkeeps).mono ?_ ?_)
  · intro _ state h
    exact hlater h.1.1 h.2
  · intro reason state h
    exact ⟨hlater h.1.1 h.2, h.1.2⟩

theorem ensures_prepare (source : String) (hs : s.Sound) : (prepare source).Ensures s
    (fun program s' => s'.ReadyFor program) (fun e s' => s'.Sound ∧ e.Lawful s'.state) := by
  apply ensures_prepare_of
  · intro error errors _
    exact ⟨hs, trivial⟩
  · intro error _ _
    exact ⟨hs.later le_nextId_readProgram, trivial⟩
  · intro program _ hread
    let s₁ : Session := ⟨s.state, (readProgram (scan source).tokens s.nextId).nextId⟩
    exact ensures_accept (s := s₁) hs (prepared_of_readProgram hread)

theorem ensures_prepareLine (source : String) (hs : s.Sound) : (prepareLine source).Ensures s
    (fun program s' => s'.ReadyFor program)
    (fun errors s' => s'.Sound ∧ ∀ e ∈ errors, e.Lawful s'.state) := by
  apply ensures_prepareLine_of
  · intro _
    refine ⟨hs.later le_nextId_readPastFaults, ?_⟩
    intro e he
    rw [List.mem_append, List.mem_map, List.mem_map] at he
    obtain ⟨_, _, rfl⟩ | ⟨_, _, rfl⟩ := he <;> trivial
  · intro _ hread
    let s₁ : Session := ⟨s.state, (readPastFaults (scan source).tokens s.nextId).nextId⟩
    have haccept := ensures_accept (s := s₁) hs (prepared_of_readPastFaults hread)
    refine haccept.mono (fun _ _ h => h) ?_
    intro e s' he
    exact ⟨he.1, List.forall_mem_singleton.mpr he.2⟩

theorem ensures_run (fuel : Nat) (source : String) (hs : s.Sound) : (run fuel source).Ensures s
    (fun _ s' => s'.Sound) (fun e s' => s'.Sound ∧ e.Lawful s'.state) :=
  (ensures_prepare source hs).bind fun _ _ hready => ensures_evaluate fuel hready

theorem ensures_runLine (fuel : Nat) (source : String) (hs : s.Sound) :
    (runLine fuel source).Ensures s (fun _ s' => s'.Sound)
      (fun errors s' => s'.Sound ∧ ∀ e ∈ errors, e.Lawful s'.state) := by
  refine (ensures_prepareLine source hs).bind fun program s' hready => ?_
  refine (ensures_evaluate fuel hready).mapError fun e s'' he => ?_
  exact ⟨he.1, List.forall_mem_singleton.mpr he.2⟩

/-- A session that has been reached is sound. -/
theorem Reachable.sound (h : s.Reachable) : s.Sound := by
  induction h with
  | initial => exact sound_initial _ _
  | setEcho _ ih =>
      exact ⟨ih.sound.of_same rfl rfl rfl rfl, ih.grounded.later rfl (.refl _) rfl, ih.current_eq,
        ih.unknown⟩
  | run _ hends ih =>
      exact ((ensures_run _ _ ih).mono (fun _ _ h => h) (fun _ _ h => h.1)).of_ends hends
  | runLine _ hends ih =>
      exact ((ensures_runLine _ _ ih).mono (fun _ _ h => h) (fun _ _ h => h.1)).of_ends hends

/-- Resolution and evaluation agree. Whatever has been run in a session before and however it ended,
a source text that is run next never asks for a scope beyond the end of a chain, never looks in vain
for a name at the distance that was worked out for it, and never returns from the top level; and
where it finds a variable undefined, that is one which the global scope does not bind. A fault ends
a run at once, so this holds of each step of a run, also of one that has no end: it is said for
every amount of fuel. -/
theorem lawful_of_reachable (h : s.Reachable) (fuel : Nat) (source : String) :
    (∀ e s', run fuel source s = .fault e s' → e.Lawful s'.state) ∧
      ∀ errors s', runLine fuel source s = .fault errors s' → ∀ e ∈ errors, e.Lawful s'.state := by
  refine ⟨fun e s' hrun => ?_, fun errors s' hrun => ?_⟩
  · exact ((ensures_run fuel source h.sound).fault hrun).2
  · exact ((ensures_runLine fuel source h.sound).fault hrun).2

/-- In particular, this is so of a function that an earlier text declared and that a line failed in:
called once more, it finds its parameter from the block inside its body, and the variable that it
does not find is none of the session. -/
theorem lawful_after_failed_line : ∃ s₁ s₂ s₃ errors,
    run 14 "fun f(x) { { print x; y; } }" (initial (.ofClock fun _ => 0) .accepting) = .ok () s₁ ∧
      runLine 14 "f(nil);" s₁ = .fault errors s₂ ∧
      run 14 "f(true);" s₂ = .fault (.halt (.runtime (.undefinedVariable "y") 1)) s₃ ∧
      s₃.state.sink.text = "nil\ntrue\n" ∧ ¬s₃.state.store.Binds s₃.state.globals "y" := by
  obtain ⟨s₁, s₂, s₃, errors, hdeclare, hfail, hcall, htext⟩ : ∃ s₁ s₂ s₃ errors,
      run 14 "fun f(x) { { print x; y; } }" (initial (.ofClock fun _ => 0) .accepting) = .ok () s₁ ∧
        runLine 14 "f(nil);" s₁ = .fault errors s₂ ∧
        run 14 "f(true);" s₂ = .fault (.halt (.runtime (.undefinedVariable "y") 1)) s₃ ∧
        s₃.state.sink.text = "nil\ntrue\n" :=
    ⟨_, _, _, _, by cbv, by cbv, by cbv, by cbv⟩
  have hreached : s₂.Reachable := .runLine (.run .initial (.inl ⟨_, hdeclare⟩)) (.inr ⟨_, hfail⟩)
  have hlawful := (lawful_of_reachable hreached 14 "f(true);").1 _ s₃ hcall
  exact ⟨s₁, s₂, s₃, errors, hdeclare, hfail, hcall, htext, hlawful⟩

end Session

end ScopedScript
