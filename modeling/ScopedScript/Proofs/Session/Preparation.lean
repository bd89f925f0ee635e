import ScopedScript.Proofs.Eval.Soundness
import ScopedScript.Proofs.Syntax.Acceptance
import ScopedScript.Proofs.Syntax.Identities
import ScopedScript.Proofs.Syntax.Progress
import ScopedScript.Proofs.Syntax.Recovery
import ScopedScript.Proofs.Token.Words
import ScopedScript.Session.Basic

/-!
# Programs that are ready to be run

A source text from which a program is read, at once or past its faults, gives a well-formed program
whose references have new numbers, each its own.
-/

namespace ScopedScript

/-- What is known of a program by being read: it is well formed, and its references are numbered
from `i` on, up to `j`. -/
structure Prepared (i j : NodeId) (program : List Stmt) : Prop where
  formed : Stmt.FormedAll program
  numbers : ∀ Γ, Numbers i j (idsOf (Stmt.recordsAll Γ program))

theorem WrittenStmt.prepared {program : List Stmt} {i j : NodeId} {w : List Token}
    (h : WrittenStmt (.declarations program) i w j) (hw : NamesOrdinary w) :
    Prepared i j program := ⟨h.formed hw, h.numbered⟩

/-- A word that is no keyword is an ordinary name. -/
theorem NoKeyword.ordinary {x : String} (h : NoKeyword x) : Ordinary x :=
  ⟨fun hx => h .thisWord hx.symm, fun hx => h .superWord hx.symm⟩

/-- Where reading a source text begins. -/
theorem exists_ofTokens_scan (source : String) (base : NodeId) : ∃ front eof,
    Cursor.ofTokens (scan source).tokens base = ⟨front, eof, base⟩ ∧ eof.kind = .eof ∧
      NamesOrdinary front := by
  obtain ⟨front, eof, htokens, heof, hfront⟩ := exists_tokens_scan_eq source
  refine ⟨front, eof, ?_, heof, fun t ht hkind => ((hfront t ht).2 hkind).ordinary⟩
  rw [htokens]
  exact Cursor.ofTokens_append (fun t ht => (hfront t ht).1) heof

namespace Reader

/-- A program that is read past its faults, and has none, is what is read up to its first fault. -/
theorem program_of_recoveringProgram {fuel : Nat} {c c' : Cursor}
    {ds : List (Except SyntaxError Stmt)} (h : recoveringProgram fuel c = .ok ds c')
    (herrors : errorsOf ds = []) : program fuel c = .ok (statementsOf ds) c' := by
  induction fuel generalizing c ds with
  | zero => cases h
  | succ fuel ih =>
      unfold program
      rcases recoveringProgram_succ_eq_ok.mp h with ⟨hended, rfl, rfl⟩ |
        ⟨hended, ⟨s, c₁, rest, hs, hrest, rfl⟩ | ⟨e, c₁, rest, _, _, rfl⟩⟩
      · refine Run.bind_eq_ok.mpr ⟨c'.atEnd, c', rfl, ?_⟩
        rw [hended, if_pos rfl]
        rfl
      · refine Run.bind_eq_ok.mpr ⟨c.atEnd, c, rfl, ?_⟩
        rw [hended, if_neg Bool.false_ne_true, Run.bind_of_ok hs, Run.bind_of_ok (ih hrest herrors)]
        rfl
      · cases herrors

end Reader

section Source

variable {source : String} {base : NodeId}

/-- Numbers that have been given out are not given out again. -/
theorem le_nextId_readProgram : base ≤ (readProgram (scan source).tokens base).nextId := by
  have hforward := Reader.goesForward_program (readingFuel (scan source).tokens)
    (Cursor.ofTokens (scan source).tokens base)
  unfold readProgram
  cases hread : Reader.program (readingFuel (scan source).tokens)
      (Cursor.ofTokens (scan source).tokens base) with
  | ok program c =>
      simp only [hread]
      exact (hforward.ok hread).nextId_le
  | fault error c =>
      simp only [hread]
      exact (hforward.fault hread).precedes.nextId_le
  | exhausted =>
      simp only [hread]
      exact Nat.le_refl base

theorem le_nextId_readPastFaults : base ≤ (readPastFaults (scan source).tokens base).nextId := by
  have hforward := Reader.goesForward_recoveringProgram (readingFuel (scan source).tokens)
    (Cursor.ofTokens (scan source).tokens base)
  unfold readPastFaults
  cases hread : Reader.recoveringProgram (readingFuel (scan source).tokens)
      (Cursor.ofTokens (scan source).tokens base) with
  | ok declarations c => exact (hforward.ok hread).nextId_le
  | fault error c => exact (hforward.fault hread).precedes.nextId_le
  | exhausted => exact Nat.le_refl base

/-- A program that is read to its end is prepared. -/
theorem prepared_of_program {program : List Stmt} {fuel : Nat} {c : Cursor}
    (h : Reader.program fuel (Cursor.ofTokens (scan source).tokens base) = .ok program c) :
    Prepared base c.nextId program := by
  obtain ⟨front, eof, hstart, heof, hordinary⟩ := exists_ofTokens_scan source base
  rw [hstart] at h
  exact (Reader.program_sound h heof).prepared hordinary

theorem prepared_of_readProgram {program : List Stmt}
    (h : (readProgram (scan source).tokens base).result = .ok program) :
    Prepared base (readProgram (scan source).tokens base).nextId program := by
  obtain ⟨c, hread, hnextId⟩ := readProgram_eq_ok h
  rw [hnextId]
  exact prepared_of_program hread

theorem prepared_of_readPastFaults
    (h : errorsOf (readPastFaults (scan source).tokens base).result = []) :
    Prepared base (readPastFaults (scan source).tokens base).nextId
      (statementsOf (readPastFaults (scan source).tokens base).result) := by
  unfold readPastFaults at h ⊢
  cases hread : Reader.recoveringProgram (readingFuel (scan source).tokens)
      (Cursor.ofTokens (scan source).tokens base) with
  | ok declarations c =>
      simp only [hread] at h
      exact prepared_of_program (Reader.program_of_recoveringProgram hread h)
  | fault error c =>
      simp only [hread] at h
      cases h
  | exhausted => exact ⟨trivial, fun _ => .nil base⟩

/-- The statements that are read from a source text past its faults have numbers that differ. -/
theorem distinctWithin_readPastFaults :
    DistinctWithin base (readPastFaults (scan source).tokens base).nextId
      (Stmt.idsAll (statementsOf (readPastFaults (scan source).tokens base).result)) := by
  obtain ⟨front, eof, hstart, heof, _⟩ := exists_ofTokens_scan source base
  unfold readPastFaults
  rw [hstart]
  cases hread : Reader.recoveringProgram (readingFuel (scan source).tokens)
      ⟨front, eof, base⟩ with
  | ok declarations c => exact Reader.distinctWithin_recoveringProgram hread heof
  | fault error c => exact .nil
  | exhausted => exact .nil

end Source

namespace Session

variable {s : Session} {source : String}

section Equations

variable {program : List Stmt}

theorem accept_of_ok {distances : Distances} (h : resolve program = .ok distances) :
    accept program s = .ok ()
      ⟨{ s.state with distances := s.state.distances ∪ distances }, s.nextId⟩ := by
  unfold accept
  rw [h]
  rfl

theorem accept_of_error {e : ScopeError} (h : resolve program = .error e) :
    accept program s = .fault (.scope e) s := by
  unfold accept
  rw [h]
  rfl

theorem prepare_of_lex {error : LexError} {errors : List LexError}
    (hscan : (scan source).errors = error :: errors) :
    prepare source s = .fault (.lex error) s := by
  unfold prepare
  simp only [hscan]
  rfl

theorem prepare_of_parse {error : SyntaxError} (hscan : (scan source).errors = [])
    (hread : (readProgram (scan source).tokens s.nextId).result = .error error) :
    prepare source s =
      .fault (.parse error) ⟨s.state, (readProgram (scan source).tokens s.nextId).nextId⟩ := by
  unfold prepare
  simp only [hscan]
  rw [Run.bind_of_ok (Run.get_apply s)]
  simp only [hread]
  rfl

theorem prepare_of_program (hscan : (scan source).errors = [])
    (hread : (readProgram (scan source).tokens s.nextId).result = .ok program) :
    prepare source s = ((fun _ => program) <$> accept program)
      ⟨s.state, (readProgram (scan source).tokens s.nextId).nextId⟩ := by
  unfold prepare
  simp only [hscan]
  rw [Run.bind_of_ok (Run.get_apply s)]
  simp only [hread]
  rfl

theorem prepare_of_scope {error : ScopeError} (hscan : (scan source).errors = [])
    (hread : (readProgram (scan source).tokens s.nextId).result = .ok program)
    (hresolve : resolve program = .error error) :
    prepare source s =
      .fault (.scope error) ⟨s.state, (readProgram (scan source).tokens s.nextId).nextId⟩ := by
  rw [prepare_of_program hscan hread]
  exact Run.map_eq_fault.mpr (accept_of_error hresolve)

/-- What it takes for a source text to be ready to be run, and what is known then. -/
theorem prepare_eq_ok {s' : Session} : prepare source s = .ok program s' ↔
    (scan source).errors = [] ∧
    (readProgram (scan source).tokens s.nextId).result = .ok program ∧
    ∃ distances, resolve program = .ok distances ∧
      s' = ⟨{ s.state with distances := s.state.distances ∪ distances },
        (readProgram (scan source).tokens s.nextId).nextId⟩ := by
  constructor
  · intro h
    cases hscan : (scan source).errors with
    | cons error errors =>
        rw [prepare_of_lex hscan] at h
        cases h
    | nil =>
        cases hread : (readProgram (scan source).tokens s.nextId).result with
        | error error =>
            rw [prepare_of_parse hscan hread] at h
            cases h
        | ok program' =>
            rw [prepare_of_program hscan hread, Run.map_eq_ok] at h
            obtain ⟨_, h, rfl⟩ := h
            cases hresolve : resolve program' with
            | error e =>
                rw [accept_of_error hresolve] at h
                cases h
            | ok distances =>
                rw [accept_of_ok hresolve] at h
                cases h
                exact ⟨rfl, rfl, distances, rfl, rfl⟩
  · rintro ⟨hscan, hread, distances, hresolve, rfl⟩
    rw [prepare_of_program hscan hread, Run.map_eq_ok]
    exact ⟨(), accept_of_ok hresolve, rfl⟩

theorem prepareLine_of_faults {errors : List ProgramError} (hne : errors ≠ [])
    (herrors : (scan source).errors.map ProgramError.lex ++
      (errorsOf (readPastFaults (scan source).tokens s.nextId).result).map .parse = errors) :
    prepareLine source s =
      .fault errors ⟨s.state, (readPastFaults (scan source).tokens s.nextId).nextId⟩ := by
  unfold prepareLine
  rw [Run.bind_of_ok (Run.get_apply s)]
  simp only [herrors]
  cases errors with
  | nil => exact (hne rfl).elim
  | cons error errors => rfl

theorem prepareLine_of_program (hscan : (scan source).errors = [])
    (hread : errorsOf (readPastFaults (scan source).tokens s.nextId).result = []) :
    prepareLine source s =
      ((fun _ => statementsOf (readPastFaults (scan source).tokens s.nextId).result) <$>
        (accept
          (statementsOf (readPastFaults (scan source).tokens s.nextId).result)).mapError ([·]))
        ⟨s.state, (readPastFaults (scan source).tokens s.nextId).nextId⟩ := by
  unfold prepareLine
  rw [Run.bind_of_ok (Run.get_apply s)]
  simp only [hscan, hread, List.map_nil, List.append_nil]
  rfl

end Equations

/-- How a source text is prepared: it stops at the first fault of its tokens, or else at that of its
syntax, or else with its scopes. -/
theorem ensures_prepare_of {Q : List Stmt → Session → Prop} {F : ProgramError → Session → Prop}
    (hlex : ∀ error errors, (scan source).errors = error :: errors → F (.lex error) s)
    (hparse : ∀ error, (scan source).errors = [] →
      (readProgram (scan source).tokens s.nextId).result = .error error →
      F (.parse error) ⟨s.state, (readProgram (scan source).tokens s.nextId).nextId⟩)
    (haccept : ∀ program, (scan source).errors = [] →
      (readProgram (scan source).tokens s.nextId).result = .ok program →
      (accept program).Ensures ⟨s.state, (readProgram (scan source).tokens s.nextId).nextId⟩
        (fun _ s' => Q program s') F) :
    (prepare source).Ensures s Q F := by
  cases hscan : (scan source).errors with
  | cons error errors => exact .of_fault (prepare_of_lex hscan) (hlex error errors hscan)
  | nil =>
      cases hread : (readProgram (scan source).tokens s.nextId).result with
      | error error => exact .of_fault (prepare_of_parse hscan hread) (hparse error hscan hread)
      | ok program =>
          unfold Run.Ensures
          rw [prepare_of_program hscan hread]
          exact (haccept program hscan hread).map fun _ _ h => h

/-- How a typed-in source text is prepared: it stops at all the faults of its tokens and its syntax,
or else with its scopes. -/
theorem ensures_prepareLine_of {Q : List Stmt → Session → Prop}
    {F : List ProgramError → Session → Prop}
    (hfaults : (scan source).errors.map ProgramError.lex ++
        (errorsOf (readPastFaults (scan source).tokens s.nextId).result).map .parse ≠ [] →
      F ((scan source).errors.map .lex ++
        (errorsOf (readPastFaults (scan source).tokens s.nextId).result).map .parse)
        ⟨s.state, (readPastFaults (scan source).tokens s.nextId).nextId⟩)
    (haccept : (scan source).errors = [] →
      errorsOf (readPastFaults (scan source).tokens s.nextId).result = [] →
      (accept (statementsOf (readPastFaults (scan source).tokens s.nextId).result)).Ensures
        ⟨s.state, (readPastFaults (scan source).tokens s.nextId).nextId⟩
        (fun _ s' => Q (statementsOf (readPastFaults (scan source).tokens s.nextId).result) s')
        (fun e s' => F [e] s')) :
    (prepareLine source).Ensures s Q F := by
  by_cases hne : (scan source).errors.map ProgramError.lex ++
      (errorsOf (readPastFaults (scan source).tokens s.nextId).result).map .parse = []
  · obtain ⟨hscan, hread⟩ := List.append_eq_nil_iff.mp hne
    have hscan := List.map_eq_nil_iff.mp hscan
    have hread := List.map_eq_nil_iff.mp hread
    unfold Run.Ensures
    rw [prepareLine_of_program hscan hread]
    exact ((haccept hscan hread).mapError fun _ _ h => h).map fun _ _ h => h
  · exact .of_fault (prepareLine_of_faults hne rfl) (hfaults hne)

/-- What is evaluated ends in a session with the same numbers. -/
theorem ensures_evaluate_of {α : Type} {m : Eval α} {Q : α → Session → Prop}
    {F : ProgramError → Session → Prop}
    (h : m.Ensures s.state (fun a state => Q a ⟨state, s.nextId⟩)
      (fun reason state => F (.halt reason) ⟨state, s.nextId⟩)) :
    (evaluate m).Ensures s Q F := by
  unfold Run.Ensures evaluate at *
  cases hm : m s.state with
  | ok _ _ | fault _ _ =>
      rw [hm] at h
      exact h
  | exhausted => trivial

/-- A session with the same state, but for the distances that are known. -/
def SameButDistances (s s' : Session) : Prop :=
  ∃ D, s'.state = { s.state with distances := D }

theorem SameButDistances.refl (s : Session) : s.SameButDistances s := ⟨s.state.distances, rfl⟩

theorem keeps_accept (program : List Stmt) : (accept program).Keeps SameButDistances := by
  intro s
  cases hresolve : resolve program with
  | ok distances => exact .of_ok (accept_of_ok hresolve) ⟨s.state.distances ∪ distances, rfl⟩
  | error e => exact .of_fault (accept_of_error hresolve) (.refl s)

theorem keeps_prepare (source : String) : (prepare source).Keeps SameButDistances := by
  intro s
  apply ensures_prepare_of
  · intro _ _ _
    exact .refl s
  · intro _ _ _
    exact .refl s
  · intro program _ _
    exact keeps_accept program _

theorem keeps_prepareLine (source : String) : (prepareLine source).Keeps SameButDistances := by
  intro s
  apply ensures_prepareLine_of
  · intro _
    exact .refl s
  · intro _ _
    exact keeps_accept _ _

end Session

end ScopedScript
