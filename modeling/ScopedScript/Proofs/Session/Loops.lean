import ScopedScript.Proofs.Loop.Meaning
import ScopedScript.Proofs.Loop.Start
import ScopedScript.Proofs.Session.Assignments
import ScopedScript.Proofs.Syntax.StatementCompleteness

/-!
# Loops in a session

Wherever a `for` is executed in a session, the statement that it abbreviates ends as the loop does
that is run directly: with the same output, in the same way, and with the same effect on all that
there was before.
-/

namespace ScopedScript

theorem ForLoop.declares_stmt (loop : ForLoop) : loop.stmt.declares = false := by
  obtain ⟨initial, _, _, _⟩ := loop
  cases initial <;> rfl

/-- What can stand as a branch or as the body of a loop declares nothing. -/
theorem WrittenStmt.declares_eq_false {dangling : Bool} {s : Stmt} {i j : NodeId} {w : List Token}
    (h : WrittenStmt (.statement dangling s) i w j) : s.declares = false := by
  cases h with
  | forLoop => exact ForLoop.declares_stmt ⟨_, _, _, _⟩
  | ifThen | ifElse | print | giveBack | whileLoop | block => rfl
  | expression h =>
      cases h
      rfl

/-- What is written as a `for` is the statement that a loop abbreviates. -/
theorem WrittenStmt.exists_loop {dangling : Bool} {s : Stmt} {i j : NodeId} {t : Token}
    {w : List Token} (h : WrittenStmt (.statement dangling s) i (t :: w) j)
    (ht : t.kind = .keyword .forWord) :
    ∃ loop : ForLoop, s = loop.stmt ∧ loop.body.declares = false := by
  generalize hw : t :: w = v at h
  cases h with
  | forLoop _ _ _ _ _ _ _ hbody => exact ⟨⟨_, _, _, _⟩, rfl, hbody.declares_eq_false⟩
  | ifThen hkind | ifElse hkind | print hkind | giveBack hkind | whileLoop hkind | block hkind =>
      rw [(List.cons.inj hw).1, hkind] at ht
      cases ht
  | expression h =>
      obtain ⟨u, v, rfl, hstarts⟩ := h.opens
      rw [← (List.cons.inj hw).1, ht] at hstarts
      cases hstarts

namespace ForLoop

/-- A table with which a loop can be run directly. For the references of the loop, under other
numbers, it says what is found in the scopes that the parts of the loop stand in, and for the
references of all programs that have been read it says what is known of them. -/
structure Told (loop : ForLoop) (n : NodeId) (Γ : Scopes) (distances : Distances)
    (node : NodeId → NodeId) (distances' : Distances) : Prop where
  agree : distances.Agree n distances'
  found : ∀ r ∈ loop.records Γ, distances'[node r.1]? = r.2

/-- From a state, the statement that a loop abbreviates and the loop itself, which is run with
another table, end alike: with the same output and in the same way, and each scope and object that
there was holds values that are alike. -/
def KeepsMeaning (loop : ForLoop) (s : State) (node : NodeId → NodeId) (distances : Distances)
    (fuel fuel' : Nat) : Prop :=
  Outcome.Alike ⟨s.distances, distances⟩ (.start s distances) (Flow.Alike ⟨s.distances, distances⟩)
    (Eval.exec fuel loop.stmt s)
    (Eval.runLoop fuel' (loop.renumber node) { s with distances := distances })

variable {n : NodeId} {Γ : Scopes} {D : Distances}

theorem sameIds_turnRecords (loop : ForLoop) (Γ : Scopes) :
    SameIds (loop.turnRecords Γ) loop.repetition.occurrences := by
  obtain ⟨initial, condition, step, body⟩ := loop
  have hcondition : SameIds (Expr.recordsOption Γ condition)
      (condition.getD (.literal (.bool true))).occurrences := by
    cases condition with
    | none => exact .refl _
    | some e => exact e.sameIds Γ
  refine hcondition.append ?_
  cases step with
  | none =>
      rw [Expr.recordsOption, List.append_nil]
      exact body.sameIds Γ
  | some e =>
      have hstep :
          SameIds (Expr.recordsOption Γ (some e)) (Stmt.occurrencesAll [.expression e]) := by
        rw [Stmt.occurrencesAll, Stmt.occurrencesAll, List.append_nil]
        exact e.sameIds Γ
      exact (body.sameIds Γ).append hstep

/-- The references of a loop are those of the statement that it abbreviates. -/
theorem sameIds_records (loop : ForLoop) (Γ : Scopes) :
    SameIds (loop.records Γ) loop.stmt.occurrences := by
  obtain ⟨initial, condition, step, body⟩ := loop
  cases initial with
  | none => exact sameIds_turnRecords _ _
  | some initial =>
      have hturns := sameIds_turnRecords ⟨some initial, condition, step, body⟩
        (initial.after ([] :: Γ))
      rw [← List.append_nil (Stmt.occurrences _)] at hturns
      exact (initial.sameIds _).append hturns

/-- There is a table for each loop that has been read: its references can have numbers that no
program has used yet. -/
theorem exists_told (loop : ForLoop) (h : Recorded n D (loop.stmt.records Γ)) :
    ∃ node D', loop.Told n Γ D node D' := by
  let rs : List Record := (loop.records Γ).map fun r => (r.1 + n, r.2)
  let old : Distances := D.filter fun id _ => decide (id < n)
  have hids : idsOf rs = (idsOf (loop.records Γ)).map (· + n) := by
    simp [rs, idsOf]
  have hlarge : ∀ id ∈ idsOf rs, ¬id < n := by
    intro id hid
    rw [hids] at hid
    obtain ⟨id, _, rfl⟩ := List.mem_map.mp hid
    exact Nat.not_lt_of_le (Nat.le_add_left n id)
  have hdistinct : (idsOf rs).Nodup := by
    have hperm := (loop.sameIds_records Γ).trans (loop.stmt.sameIds Γ).symm
    rw [hids]
    exact (hperm.nodup_iff.mpr h.distinct).map fun _ _ => Nat.add_right_cancel
  have hold (id : NodeId) : old[id]? = if id < n then D[id]? else none := by
    rw [Std.TreeMap.getElem?_filter']
    cases D[id]? <;> simp [Option.filter]
  refine ⟨(· + n), recordAll old rs, fun id hid => ?_, fun r hr => ?_⟩
  · rw [getElem?_recordAll_of_notMem fun hmem => hlarge id hmem hid, hold, if_pos hid]
  · have hr : (r.1 + n, r.2) ∈ rs := List.mem_map_of_mem hr
    refine getElem?_recordAll_of_mem hr hdistinct fun id hid => ?_
    rw [hold, if_neg (hlarge id hid)]

end ForLoop

namespace Session

/-- Loops mean what they abbreviate. What is written as a `for` is the statement that a loop
abbreviates. Wherever this is executed in a session, its references are known as they are found in
the scopes around the place, and there are tables with which the loop can be run directly, in a
scope of its own in which all its parts stand. With any of them, the statement ends as the loop
does, and either ends if the other one does: they end both normally, with a `return` of values that
are alike or with the same fault, having printed the same, and all scopes and objects that there
were before hold values that are alike. Values are alike if they are the same but for scopes on the
chains of functions in which nothing is bound. -/
theorem loops_keep_meaning :
    (∀ {dangling : Bool} {s : Stmt} {i j : NodeId} {t : Token} {w : List Token},
      WrittenStmt (.statement dangling s) i (t :: w) j → t.kind = .keyword .forWord →
      ∃ loop : ForLoop, s = loop.stmt ∧ loop.body.declares = false) ∧
    ∀ {h : List Moment} {m : Moment} {loop : ForLoop}, Occurs h m →
      m.event = .executes loop.stmt → loop.body.declares = false →
      ∃ n setting Γ, m.state.SoundAt n setting Γ ∧
        Fits n m.state.distances (loop.stmt.Obeys setting Γ) (loop.stmt.records Γ) ∧
        (∃ node D, loop.Told n Γ m.state.distances node D) ∧
        ∀ node D, loop.Told n Γ m.state.distances node D → ∀ fuel,
          (Eval.exec fuel loop.stmt m.state ≠ .exhausted →
            loop.KeepsMeaning m.state node D fuel fuel) ∧
          (Eval.runLoop fuel (loop.renumber node) { m.state with distances := D } ≠ .exhausted →
            loop.KeepsMeaning m.state node D (fuel + 7) fuel) := by
  refine ⟨WrittenStmt.exists_loop, fun {h m loop} hm hevent hbody => ?_⟩
  obtain ⟨n, hplaced⟩ := hm.placed
  obtain ⟨_, hchronicle⟩ := hm.exists_chronicle
  rw [hevent] at hplaced
  obtain ⟨setting, Γ, hs, hopen, hformed, hfits⟩ := hplaced
  refine ⟨n, setting, Γ, hs, hfits, loop.exists_told hfits.recorded, fun node D htold fuel => ?_⟩
  have hcoupled := World.coupled_start htold.agree hs.sound hchronicle.grounded
  have hat : (World.start m.state D).At (Γ.map fun _ => .both) := World.chains_start hs.matches
  have haligned : loop.Aligned ⟨m.state.distances, D⟩ node (Γ.map fun _ => .both) :=
    loop.aligned_of_found (.same Γ) hopen hopen hformed hbody
      ⟨fun r hr => (hfits.recorded.known r hr).2, htold.found⟩
  have hless : Side.Allows .first 7 fuel fuel := Nat.le_refl fuel
  have hmore : Side.Allows .second 7 (fuel + 7) fuel := Nat.le_refl (fuel + 7)
  exact ⟨(Eval.endAlike_loop loop hless hcoupled hat haligned).resolve_left,
    (Eval.endAlike_loop loop hmore hcoupled hat haligned).resolve_left⟩

/-- For example, of a loop that has all its parts and takes one turn. -/
theorem loops_keep_meaning_of_one_turn : ∃ h m n Γ node D, ∃ loop : ForLoop, Occurs h m ∧
    (firstMoments 19 "for (var x = true; x; x = false) print x;")[0]? = some m ∧
    m.event = .executes loop.stmt ∧ loop.Told n Γ m.state.distances node D ∧
    loop.KeepsMeaning m.state node D 19 19 := by
  let x : Name := ⟨"x", 1⟩
  let loop : ForLoop :=
    ⟨some (.var x (some (.literal (.bool true)))), some (.name ⟨0, x⟩),
      some (.assign ⟨1, x⟩ (.literal (.bool false))), .print (.name ⟨2, x⟩)⟩
  have hfirst : ∃ m flow t,
      (firstMoments 19 "for (var x = true; x; x = false) print x;")[0]? = some m ∧
      m.event = .executes loop.stmt ∧ Eval.exec 19 loop.stmt m.state = .ok flow t :=
    ⟨_, _, _, by cbv, by cbv, by cbv⟩
  obtain ⟨m, flow, t, hmoment, hevent, hend⟩ := hfirst
  have hm := occurs_of_getElem? hmoment
  obtain ⟨n, setting, Γ, _, _, ⟨node, D, htold⟩, halike⟩ := loops_keep_meaning.2 hm hevent rfl
  refine ⟨_, m, n, Γ, node, D, loop, hm, hmoment, hevent, htold, (halike node D htold 19).1 ?_⟩
  intro hexhausted
  rw [hend] at hexhausted
  cases hexhausted

end Session

end ScopedScript
