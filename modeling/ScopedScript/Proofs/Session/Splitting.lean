import ScopedScript.Proofs.Concatenation.Reading
import ScopedScript.Proofs.Concatenation.Resolution
import ScopedScript.Proofs.Session.Bounds
import ScopedScript.Proofs.Session.Identities

/-!
# One source text or two

Two source texts that are run one after the other do what they do as one text. What is known of
references that no code has yet does not matter to a run, so it is all the same whether the second
text is resolved before the first one is run or afterwards. But the words of the second text stand
further down in the longer text. This shows in the line of a fault, if the fault is met at one of
these words: a function that was declared before keeps the lines that it had.
-/

namespace ScopedScript

/-- A state in which other distances are known. -/
def State.knowing (D : Distances) (s : State) : State := { s with distances := D }

/-- Programs one after the other are run one after the other. -/
theorem Eval.runProgram_append (fuel : Nat) (p q : List Stmt) :
    runProgram fuel (p ++ q) = runProgram fuel p >>= fun _ => runProgram fuel q := by
  induction p with
  | nil => rfl
  | cons s p ih =>
      simp only [List.cons_append, runProgram, ih, bind_assoc]
      refine congrArg (exec fuel s >>= ·) (funext fun flow => ?_)
      cases flow with
      | normal => rw [bind_assoc]
      | returning value line => rfl

section Lines

open Relabelling (Composes reline)

namespace Relabelling

/-- Lines with even numbers, for the words of functions that are there before a text is run. -/
def others : Relabelling := reline (2 * ·)

/-- Lines with odd numbers, for the words of the text itself. -/
def own : Relabelling := reline (2 * · + 1)

/-- The lines as they were, but for the words of the text itself, which stand `n` lines further
down. -/
def lowered (n : Nat) : Relabelling :=
  reline fun line => if line % 2 = 1 then line / 2 + n else line / 2

theorem composes_others (n : Nat) : Composes (fun _ => True) others (lowered n) .none where
  node_eq _ _ := rfl
  line_eq line := by
    change (if 2 * line % 2 = 1 then 2 * line / 2 + n else 2 * line / 2) = line
    rw [if_neg (by omega)]
    omega

theorem composes_own (n : Nat) : Composes (fun _ => True) own (lowered n) (reline (· + n)) where
  node_eq _ _ := rfl
  line_eq line := by
    change (if (2 * line + 1) % 2 = 1 then (2 * line + 1) / 2 + n else (2 * line + 1) / 2) =
      line + n
    rw [if_pos (by omega)]
    omega

end Relabelling

end Lines

namespace Session

open Relabelling (renumber reline own others lowered)

variable {s : Session} {p q : String} {P Q : List Stmt}

theorem Bounded.relabel_eq (h : s.Bounded) {ψ : Nat → Nat}
    (hψ : Continues s.nextId s.nextId id ψ) (D : Distances) :
    s.state.relabel (renumber ψ) D = s.state.knowing D :=
  (congrArg (State.knowing D) (h.state_eq ψ hψ)).symm

/-- What is known of references that have not been given a number does not matter to a run. -/
theorem BoundedFor.runProgram_knowing (h : s.BoundedFor P) (fuel : Nat) {D : Distances}
    {n : Nat} (hn : s.nextId ≤ n) (hbelow : s.state.distances.Agree s.nextId D)
    (hbeyond : ∀ id, n ≤ id → D[id]? = none)
    (hunknown : ∀ id, s.nextId ≤ id → s.state.distances[id]? = none) :
    Eval.runProgram fuel P (s.state.knowing D) =
      (Eval.runProgram fuel P s.state).map id (State.knowing D) id := by
  obtain ⟨readings, hclock⟩ := h.clock
  -- the numbers that have not been given out are changed into ones of which nothing is known
  have hψ : Continues s.nextId n id (onward s.nextId n id) :=
    Renumbers.continues_onward ⟨fun _ hid => Nat.lt_of_lt_of_le hid hn, fun _ _ _ _ hij => hij⟩
  have hψ' := hψ.mono hn
  have hcarries : (renumber (onward s.nextId n id)).Carries s.state.distances D := by
    intro id
    by_cases hid : id < s.nextId
    · exact (congrArg (D[·]?) (hψ.eq_of_lt id hid)).trans (hbelow id hid)
    · have hle := Nat.le_of_not_lt hid
      exact (hbeyond _ (hψ.le_of_le id hle)).trans (hunknown id hle).symm
  have hrun := (Eval.relabels_runProgram (S := ⟨_, _, hcarries, readings⟩) fuel P s.state
    ⟨rfl, hclock⟩).1
  rw [← h.program_eq _ hψ'] at hrun
  change Eval.runProgram fuel P (s.state.relabel _ D) = (Eval.runProgram fuel P s.state).map
    (Halt.relabel _) (State.relabel _ D) id at hrun
  rw [Bounded.relabel_eq h.toCounterpart hψ'] at hrun
  rw [hrun]
  have hends := (h.evaluate fuel).ensures
  unfold Run.Ensures Session.evaluate at hends
  cases hend : Eval.runProgram fuel P s.state with
  | ok _ state =>
      rw [hend] at hends
      exact congrArg (Outcome.ok ()) (Bounded.relabel_eq hends hψ' D)
  | fault reason state =>
      rw [hend] at hends
      simp only [Outcome.map, Halt.relabel_renumber]
      exact congrArg (Outcome.fault reason) (Bounded.relabel_eq hends hψ' D)
  | exhausted => rfl

/-- How a program ends that is run with its own words told apart from all others. -/
def runApart (fuel : Nat) (program : List Stmt) (D : Distances) (state : State) :
    Outcome Halt State Unit :=
  Eval.runProgram fuel (Stmt.relabelAll own program) (state.relabel others D)

/-- How a session ends if its last text stands `n` lines further down. -/
def settle (n : Nat) (D : Distances) (nextId : NodeId) :
    Outcome Halt State Unit → Outcome ProgramError Session Unit :=
  Outcome.map (fun reason => .halt (reason.relabel (lowered n)))
    (fun state => ⟨state.relabel (lowered n) D, nextId⟩) id

/-- A program whose words stand further down does the same. -/
theorem Bounded.evaluate_lower (h : s.Bounded) (fuel n : Nat) (program : List Stmt)
    {D : Distances} (hD : ∀ id : NodeId, s.state.distances[id]? = D[id]?) :
    evaluate (Eval.runProgram fuel (Stmt.relabelAll (reline (· + n)) program)) s =
      settle n s.state.distances s.nextId (runApart fuel program D s.state) := by
  obtain ⟨readings, hclock⟩ := h.clock
  have hcarries : (lowered n).Carries D s.state.distances := hD
  have hsame : s.state.relabel .none s.state.distances = s.state :=
    (h.state_eq id ⟨fun _ _ => id, fun _ _ => rfl, fun _ => id⟩).symm
  have hrun := (Eval.relabels_runProgram (S := ⟨_, _, hcarries, readings⟩) fuel
    (Stmt.relabelAll own program) (s.state.relabel others D) ⟨rfl, hclock⟩).1
  rw [Stmt.relabelAll_relabelAll (Relabelling.composes_own n) program fun _ _ => trivial] at hrun
  change Eval.runProgram fuel _ ((s.state.relabel others D).relabel _ _) =
    (runApart fuel program D s.state).map (Halt.relabel _) (State.relabel _ _) id at hrun
  rw [State.relabel_relabel (Relabelling.composes_others n), hsame] at hrun
  unfold Session.evaluate settle
  rw [hrun]
  cases runApart fuel program D s.state <;> rfl

/-- It does not matter how what is known has come together. -/
theorem Bounded.knowing (h : s.Bounded) {D : Distances}
    (hD : ∀ id : NodeId, D[id]? = s.state.distances[id]?) :
    Bounded ⟨s.state.knowing D, s.nextId⟩ where
  renumbers := h.renumbers
  clock := h.clock
  carries ψ hψ id := by
    change D[(renumber ψ).node id]? = D[id]?
    rw [hD, hD]
    exact h.carries ψ hψ id
  state_eq ψ hψ := (Bounded.relabel_eq h hψ D).symm

/-- Two texts that can be run one after the other can be run as one, with the same known then. -/
theorem prepare_append {s₁ s₂ : Session} (hp : prepare p s = .ok P s₁)
    (hq : prepare q s₁ = .ok Q s₂) :
    ∃ D, (∀ id : NodeId, D[id]? = s₂.state.distances[id]?) ∧
      prepare (p ++ "\n" ++ q) s = .ok (P ++ Stmt.relabelAll (reline (· + linesBefore p)) Q)
        ⟨s₁.state.knowing D, s₂.nextId⟩ := by
  obtain ⟨hscan, hread, D, hresolve, rfl⟩ := prepare_eq_ok.mp hp
  obtain ⟨hscan', hread', D', hresolve', rfl⟩ := prepare_eq_ok.mp hq
  obtain ⟨hscan₁, hread₁, hnextId⟩ := readProgram_append hscan hscan' hread hread'
  obtain ⟨_, D'', h, hresolve'', hcarries⟩ | ⟨_, h, _⟩ :=
    resolve_relabelAll (g := reline (· + linesBefore p)) (fun _ _ => id) Q
  · rw [hresolve'] at h
    cases h
    obtain ⟨D₁, hresolve₁, hD₁⟩ := resolve_append hresolve hresolve''
    refine ⟨s.state.distances ∪ D₁, fun id => ?_,
      prepare_eq_ok.mpr ⟨hscan₁, hread₁, D₁, hresolve₁, ?_⟩⟩
    · have hsame : D''[id]? = D'[id]? := hcarries id
      simp only [Std.TreeMap.getElem?_union, hD₁, hsame, Option.or_assoc]
    · rw [hnextId]
      rfl
  · rw [hresolve'] at h
    cases h

/-- A text is prepared alike in a session that knows the same of references. -/
theorem prepare_of_knowsAlike {s₁ s₂ : Session} (h : s.KnowsAlike s₁)
    (hp : prepare p s = .ok P s₂) :
    prepare p s₁ = .ok P ⟨s₁.state.knowing s₂.state.distances, s₂.nextId⟩ := by
  obtain ⟨hscan, hread, D, hresolve, rfl⟩ := prepare_eq_ok.mp hp
  refine prepare_eq_ok.mpr ⟨hscan, ?_, D, hresolve, ?_⟩
  · rw [h.nextId_eq]
    exact hread
  · rw [h.nextId_eq, h.distances_eq]
    rfl

theorem run_of_prepare (fuel : Nat) {s₁ : Session} (h : prepare p s = .ok P s₁) :
    run fuel p s = evaluate (Eval.runProgram fuel P) s₁ := Run.bind_of_ok h

/-- Typing in a text does what running it does. -/
def TypedAlike (fuel : Nat) (source : String) (s : Session) : Prop :=
  runLine fuel source s = (run fuel source).mapError ([·]) s

theorem typedAlike_of_prepare (fuel : Nat) {s₁ : Session} (h : prepare p s = .ok P s₁) :
    TypedAlike fuel p s := by
  obtain ⟨hscan, hread, D, hresolve, _⟩ := prepare_eq_ok.mp h
  obtain ⟨herrors, hstatements, hnextId⟩ := readPastFaults_of_readProgram_ok hread
  have hline : prepareLine p s = .ok P s₁ := by
    rw [prepareLine_of_program hscan herrors, hstatements, hnextId]
    rw [prepare_of_program hscan hread, Run.map_eq_ok] at h
    obtain ⟨_, haccept, _⟩ := h
    refine Run.map_eq_ok.mpr ⟨(), ?_, rfl⟩
    unfold Run.mapError
    rw [haccept]
  unfold TypedAlike runLine run
  rw [Run.bind_of_ok hline]
  unfold Run.mapError
  rw [Run.bind_of_ok h]

/-- The same fault, on the same line or `n` lines further down. -/
inductive Displaced (n : Nat) : ProgramError → ProgramError → Prop where
  | same (e : ProgramError) : Displaced n e e
  | lower (fault : RuntimeFault) (line : Nat) :
    Displaced n (.halt (.runtime fault line)) (.halt (.runtime fault (line + n)))

theorem displaced_lowered (n : Nat) (reason : Halt) :
    Displaced n (.halt (reason.relabel (lowered 0))) (.halt (reason.relabel (lowered n))) := by
  cases reason with
  | output reason => exact .same _
  | runtime fault line =>
      by_cases hown : line % 2 = 1
      · have hline (m : Nat) : (lowered m).line line = line / 2 + m := if_pos hown
        simp only [Halt.relabel, hline]
        exact .lower fault (line / 2)
      · have hline (m : Nat) : (lowered m).line line = line / 2 := if_neg hown
        simp only [Halt.relabel, hline]
        exact .same _

/-- Nothing that a session shows depends on where its last text stands, but for the line of a
fault. -/
theorem endsAlike_settle (n : Nat) (D D' : Distances) (i j : NodeId)
    (o : Outcome Halt State Unit) :
    EndsAlike (Displaced n) (fun _ s _ t => ShowsAlike s t) ShowsAlike
      (settle 0 D i o) (settle n D' j o) := by
  have hshows (state : State) : ShowsAlike ⟨state.relabel (lowered 0) D, i⟩
      ⟨state.relabel (lowered n) D', j⟩ :=
    ⟨rfl, state.lastValue.render_relabel.trans state.lastValue.render_relabel.symm⟩
  cases o with
  | ok _ state => exact hshows state
  | fault reason state => exact ⟨displaced_lowered n reason, hshows state⟩
  | exhausted => trivial

/-- A text that follows one that ended well ends the same whether it is run next or was part of the
same text, but for the lines of its words. -/
theorem settle_of_ok {s₁ s₂ s' : Session} {fuel : Nat} {D : Distances} (hs : s.Reachable)
    (hp : prepare p s = .ok P s₁) (hq : prepare q s₁ = .ok Q s₂)
    (hD : ∀ id : NodeId, D[id]? = s₂.state.distances[id]?) (hrun : run fuel p s = .ok () s') :
    TypedAlike fuel q s' ∧
    run fuel q s' = settle 0 s₂.state.distances s₂.nextId
      (runApart fuel Q s₂.state.distances s'.state) ∧
    ∀ n, evaluate (Eval.runProgram fuel (Stmt.relabelAll (reline (· + n)) Q))
      ⟨s'.state.knowing D, s₂.nextId⟩ =
        settle n D s₂.nextId (runApart fuel Q s₂.state.distances s'.state) := by
  have halike := (ensures_evaluate_alike fuel P s₁).ok ((run_of_prepare fuel hp).symm.trans hrun)
  have hprepare := prepare_of_knowsAlike halike hq
  have hbounded : Bounded ⟨s'.state.knowing s₂.state.distances, s₂.nextId⟩ :=
    ((ensures_prepare_bounded q (hs.run (.inl ⟨_, hrun⟩)).bounded).ok hprepare).toCounterpart
  refine ⟨typedAlike_of_prepare fuel hprepare, ?_, fun n => ?_⟩
  · have hsecond := Bounded.evaluate_lower hbounded fuel 0 Q fun _ => rfl
    change evaluate (Eval.runProgram fuel (Stmt.relabelAll .none Q)) _ = _ at hsecond
    rw [Stmt.relabelAll_none] at hsecond
    exact (run_of_prepare fuel hprepare).trans hsecond
  · exact Bounded.evaluate_lower (Bounded.knowing hbounded hD) fuel n Q hD

/-- Two source texts that are run as one do what they do one after the other. If the first one ends
with a fault, then so does the whole text, in the same state but for what is known of the second
text. If it ends well, the whole text ends as the second one does if that is run next: there is one
run of it, with its words told apart from all others, from which both ends arise, by having these
words stand where they do in each case. So both have printed the same and show the same last value,
and both end well, or with the same fault, whose line is another one only if it is that of a word of
the second text. Typing in these texts does what running them does. -/
theorem run_append {s₁ s₂ : Session} (hs : s.Reachable) (hp : prepare p s = .ok P s₁)
    (hq : prepare q s₁ = .ok Q s₂) (fuel : Nat) :
    TypedAlike fuel p s ∧ TypedAlike fuel (p ++ "\n" ++ q) s ∧
    ∃ D, (∀ id : NodeId, D[id]? = s₂.state.distances[id]?) ∧
      match run fuel p s with
      | .ok _ s' =>
        TypedAlike fuel q s' ∧
        run fuel q s' = settle 0 s₂.state.distances s₂.nextId
          (runApart fuel Q s₂.state.distances s'.state) ∧
        run fuel (p ++ "\n" ++ q) s = settle (linesBefore p) D s₂.nextId
          (runApart fuel Q s₂.state.distances s'.state) ∧
        EndsAlike (Displaced (linesBefore p)) (fun _ s _ t => ShowsAlike s t) ShowsAlike
          (run fuel q s') (run fuel (p ++ "\n" ++ q) s)
      | .fault e s' => run fuel (p ++ "\n" ++ q) s = .fault e ⟨s'.state.knowing D, s₂.nextId⟩
      | .exhausted => run fuel (p ++ "\n" ++ q) s = .exhausted := by
  obtain ⟨D, hD, hprepare⟩ := prepare_append hp hq
  refine ⟨typedAlike_of_prepare fuel hp, typedAlike_of_prepare fuel hprepare, D, hD, ?_⟩
  have hsound := ((ensures_prepare p hs.sound).ok hp).toSound
  have hbounded := (ensures_prepare_bounded p hs.bounded).ok hp
  have hremembers := ((ensures_prepare_settles q hsound).ok hq).remembers
  have hfirst := BoundedFor.runProgram_knowing hbounded fuel (D := D) hremembers.nextId_le
    (fun id hid => (hD id).trans (hremembers.agree id hid))
    (fun id hid => (hD id).trans (((ensures_prepare q hsound).ok hq).unknown id hid))
    hsound.unknown
  have hwhole : run fuel (p ++ "\n" ++ q) s = evaluate (Eval.runProgram fuel P >>= fun _ =>
      Eval.runProgram fuel (Stmt.relabelAll (reline (· + linesBefore p)) Q))
      ⟨s₁.state.knowing D, s₂.nextId⟩ := by
    rw [run_of_prepare fuel hprepare, Eval.runProgram_append]
  have hrun := run_of_prepare fuel hp
  unfold Session.evaluate at hwhole hrun
  rw [Run.bind_apply, hfirst] at hwhole
  cases hend : Eval.runProgram fuel P s₁.state with
  | ok _ state =>
      rw [hend] at hrun hwhole
      obtain ⟨htyped, hsecond, hlower⟩ := settle_of_ok hs hp hq hD hrun
      have hsettle := hwhole.trans (hlower (linesBefore p))
      rw [hrun]
      refine ⟨htyped, hsecond, hsettle, ?_⟩
      rw [hsecond, hsettle]
      exact endsAlike_settle _ _ _ _ _ _
  | fault reason state =>
      rw [hend] at hrun hwhole
      rw [hrun]
      exact hwhole
  | exhausted =>
      rw [hend] at hrun hwhole
      rw [hrun]
      exact hwhole

/-- For example, of a fault that the second text meets at one of its own words. -/
theorem run_append_of_call : ∃ s' t t',
    run 9 "var a;" (initial (.ofClock fun _ => 0) .accepting) = .ok () s' ∧
    run 9 "a();" s' = .fault (.halt (.runtime .notCallable 1)) t ∧
    run 9 ("var a;" ++ "\n" ++ "a();") (initial (.ofClock fun _ => 0) .accepting) =
      .fault (.halt (.runtime .notCallable 2)) t' ∧ ShowsAlike t t' := by
  have hprepare : ∃ Q s₂, (prepare "var a;" >>= fun _ => prepare "a();")
      (initial (.ofClock fun _ => 0) .accepting) = .ok Q s₂ := ⟨_, _, by cbv⟩
  have hfirst : ∃ s', run 9 "var a;" (initial (.ofClock fun _ => 0) .accepting) = .ok () s' :=
    ⟨_, by cbv⟩
  have hsecond : ∃ t, (run 9 "var a;" >>= fun _ => run 9 "a();")
      (initial (.ofClock fun _ => 0) .accepting) = .fault (.halt (.runtime .notCallable 1)) t :=
    ⟨_, by cbv⟩
  have hwhole : ∃ t', run 9 ("var a;" ++ "\n" ++ "a();")
      (initial (.ofClock fun _ => 0) .accepting) = .fault (.halt (.runtime .notCallable 2)) t' :=
    ⟨_, by cbv⟩
  obtain ⟨Q, s₂, hprepare⟩ := hprepare
  obtain ⟨P, s₁, hp, hq⟩ := Run.bind_eq_ok.mp hprepare
  obtain ⟨s', hfirst⟩ := hfirst
  obtain ⟨t, hsecond⟩ := hsecond
  rw [Run.bind_of_ok hfirst] at hsecond
  obtain ⟨t', hwhole⟩ := hwhole
  obtain ⟨_, _, D, _, hends⟩ := run_append .initial hp hq 9
  rw [hfirst] at hends
  obtain ⟨_, _, _, halike⟩ := hends
  rw [hsecond, hwhole] at halike
  exact ⟨s', t, t', hfirst, hsecond, hwhole, halike.2⟩

/-- A fault in a function that was declared before keeps its line, though it is met when the second
text calls the function. -/
theorem not_line_add_linesBefore : ¬∀ (s s₁ s₂ s' t : Session) (p q : String) (P Q : List Stmt)
    (fuel : Nat) (e : ProgramError), s.Reachable → prepare p s = .ok P s₁ →
    prepare q s₁ = .ok Q s₂ → run fuel p s = .ok () s' → run fuel q s' = .fault e t →
    ∃ e' t', run fuel (p ++ "\n" ++ q) s = .fault e' t' ∧
      e'.line? = e.line?.map (· + linesBefore p) := by
  intro h
  have hprepare : ∃ Q s₂, (prepare "fun f() { return nil + nil; }" >>= fun _ => prepare "f();")
      (initial (.ofClock fun _ => 0) .accepting) = .ok Q s₂ := ⟨_, _, by cbv⟩
  have hrun : ∃ s', run 9 "fun f() { return nil + nil; }"
      (initial (.ofClock fun _ => 0) .accepting) = .ok () s' := ⟨_, by cbv⟩
  have hrun' : ∃ t, (run 9 "fun f() { return nil + nil; }" >>= fun _ => run 9 "f();")
      (initial (.ofClock fun _ => 0) .accepting) =
        .fault (.halt (.runtime .operandsNotNumbersOrStrings 1)) t := ⟨_, by cbv⟩
  have hwhole : ∃ t, run 9 ("fun f() { return nil + nil; }" ++ "\n" ++ "f();")
      (initial (.ofClock fun _ => 0) .accepting) =
        .fault (.halt (.runtime .operandsNotNumbersOrStrings 1)) t := ⟨_, by cbv⟩
  have hlines : linesBefore "fun f() { return nil + nil; }" = 1 := by cbv
  obtain ⟨Q, s₂, hprepare⟩ := hprepare
  obtain ⟨P, s₁, hp, hq⟩ := Run.bind_eq_ok.mp hprepare
  obtain ⟨s', hrun⟩ := hrun
  obtain ⟨t, hrun'⟩ := hrun'
  rw [Run.bind_of_ok hrun] at hrun'
  obtain ⟨t', hwhole⟩ := hwhole
  obtain ⟨e, t'', hfault, hline⟩ := h _ s₁ s₂ s' t _ _ P Q 9 _ .initial hp hq hrun hrun'
  rw [hwhole] at hfault
  cases hfault
  rw [hlines] at hline
  cases hline

end Session

end ScopedScript
