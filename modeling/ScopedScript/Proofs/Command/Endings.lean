import ScopedScript.Command.Basic
import ScopedScript.Proofs.Eval.Fuel
import ScopedScript.Proofs.Eval.Output
import ScopedScript.Proofs.Session.Atomicity

/-!
# How commands on files end

A source text is malformed or it is a program with known distances, and a program ends in one way
whatever fuel it is given, if it ends. The code that a command ends with tells which of these is the
case.
-/

namespace ScopedScript

/-- Something is wrong with the tokens of a source text, with what is left of it as a program, or
with the scopes of that program. -/
inductive Malformed (source : String) : Prop where
  | tokens : (scan source).errors ≠ [] → Malformed source
  | reading {e : SyntaxError} :
    (readProgram (scan source).tokens 0).result = .error e → Malformed source
  | scopes {program : List Stmt} {e : ScopeError} :
    (readProgram (scan source).tokens 0).result = .ok program → resolve program = .error e →
    Malformed source

/-- A source text is a program, and the distances of its references are known. -/
structure WellFormed (source : String) (program : List Stmt) (D : Distances) : Prop where
  scan_eq : (scan source).errors = []
  read_eq : (readProgram (scan source).tokens 0).result = .ok program
  resolve_eq : resolve program = .ok D

/-- The bytes of a text stand for it. -/
theorem Text.decode_toUTF8 (text : String) : Text.decode text.toUTF8 = .ok text := by
  have hvalid : text.toUTF8.IsValidUTF8 := text.isValidUTF8
  unfold decode String.fromUTF8?
  rw [dif_pos hvalid]
  rfl

/-- What is read of a file that holds a text: all of it if the file reports a length. -/
def StoredFile.portion (f : StoredFile) (text : String) : String := if f.length = 0 then "" else text

theorem StoredFile.portion_eq {f : StoredFile} {text : String}
    (hlength : f.length = 0 → f.bytes = .empty) (htext : Text.decode f.bytes = .ok text) :
    f.portion text = text := by
  unfold portion
  split
  · next hzero =>
    rw [hlength hzero] at htext
    cases htext
    rfl
  · rfl

theorem StoredFile.portion_kept (text : String) : (kept text.toUTF8).portion text = text :=
  portion_eq (fun hlength => ByteArray.size_eq_zero_iff.mp hlength) (Text.decode_toUTF8 text)

section Source

variable {source : String} {program : List Stmt} {D : Distances}

theorem malformed_or_wellFormed (source : String) :
    Malformed source ∨ ∃ program D, WellFormed source program D := by
  cases hscan : (scan source).errors with
  | cons e es => exact .inl (.tokens (by simp [hscan]))
  | nil =>
      cases hread : (readProgram (scan source).tokens 0).result with
      | error e => exact .inl (.reading hread)
      | ok program =>
          cases hresolve : resolve program with
          | error e => exact .inl (.scopes hread hresolve)
          | ok D => exact .inr ⟨program, D, hscan, hread, hresolve⟩

theorem WellFormed.not_malformed (h : WellFormed source program D) : ¬Malformed source := by
  intro hmalformed
  cases hmalformed with
  | tokens hscan => exact hscan h.scan_eq
  | reading hread =>
      rw [h.read_eq] at hread
      cases hread
  | scopes hread hresolve =>
      rw [h.read_eq] at hread
      cases hread
      rw [h.resolve_eq] at hresolve
      cases hresolve

theorem WellFormed.unique {program' : List Stmt} {D' : Distances} (h : WellFormed source program D)
    (h' : WellFormed source program' D') : program' = program ∧ D' = D := by
  have hread := h'.read_eq
  rw [h.read_eq] at hread
  cases hread
  have hresolve := h'.resolve_eq
  rw [h.resolve_eq] at hresolve
  cases hresolve
  exact ⟨rfl, rfl⟩

end Source

namespace Surroundings

/-- The state in which a program begins whose distances are known. -/
def start (w : Surroundings) (D : Distances) : State :=
  { State.initial w.host w.output with distances := ∅ ∪ D }

/-- How the program of a source text ends; with too little fuel it does not. -/
def RunsTo (w : Surroundings) (source : String) (o : Outcome Halt State Unit) : Prop :=
  ∃ program D fuel, WellFormed source program D ∧ Eval.runProgram fuel program (w.start D) = o

/-- The program of a source text runs to its end, and all that it writes is taken. -/
def Completes (w : Surroundings) (source : String) : Prop :=
  ∃ s, w.RunsTo source (.ok () s) ∧ w.output.Takes s.sink

/-- An operation of the program of a source text goes wrong. All that it wrote before was taken. -/
def Fails (w : Surroundings) (source : String) : Prop :=
  ∃ fault line s, w.RunsTo source (.fault (.runtime fault line) s) ∧ w.output.Takes s.sink

/-- The program of a source text is stopped by a write that is refused. -/
def IsRefused (w : Surroundings) (source : String) : Prop :=
  ∃ reason s, w.RunsTo source (.fault (.output reason) s) ∧ w.output.Refuses reason s.sink

/-- A command ends with a code. -/
def ExitsWith (w : Surroundings) (c : Command) (code : Nat) : Prop :=
  ∃ fuel r, c.execute? fuel w = some r ∧ r.code = code

/-- A file is read as a source text. -/
def Reads (w : Surroundings) (file source : String) : Prop := textOf file (w.file file) = .ok source

/-- Surroundings in which there is one file, whatever it is called, and the clock stands still. -/
def ofFile (stored : StoredFile) (output : Sink) : Surroundings :=
  ⟨fun _ => .ok stored, .empty, .ofClock fun _ => 0, output⟩

/-- Surroundings in which there is one file, which holds a text. -/
def ofText (text : String) (output : Sink) : Surroundings := ofFile (.kept text.toUTF8) output

variable {w : Surroundings} {file source : String} {o o' : Outcome Halt State Unit}

theorem reads_of_decode {stored : StoredFile} {text : String} (hfile : w.file file = .ok stored)
    (htext : Text.decode stored.bytes = .ok text) : w.Reads file (stored.portion text) := by
  unfold Reads textOf StoredFile.contents StoredFile.portion
  rw [hfile]
  by_cases hlength : stored.length = 0
  · simp only [hlength, if_true]
    rfl
  · simp only [hlength, if_false, htext]
    rfl

theorem reads_ofText (text : String) (output : Sink) (file : String) :
    (ofText text output).Reads file text := by
  have hreads : (ofText text output).Reads file _ := reads_of_decode rfl (Text.decode_toUTF8 text)
  rwa [StoredFile.portion_kept] at hreads

theorem Reads.withText_eq (h : w.Reads file source) (f : String → Option Report) :
    Command.withText w file f = f source := by
  unfold Command.withText
  rw [show textOf file (w.file file) = .ok source from h]

theorem RunsTo.not_malformed (h : w.RunsTo source o) : ¬Malformed source := by
  obtain ⟨_, _, _, hformed, _⟩ := h
  exact hformed.not_malformed

/-- A program ends in one way. -/
theorem RunsTo.unique (h : w.RunsTo source o) (h' : w.RunsTo source o') (ho : o ≠ .exhausted)
    (ho' : o' ≠ .exhausted) : o = o' := by
  obtain ⟨program, D, n, hformed, rfl⟩ := h
  obtain ⟨program', D', m, hformed', rfl⟩ := h'
  obtain ⟨rfl, rfl⟩ := hformed.unique hformed'
  exact Eval.runProgram_eq_of_ne_exhausted ho ho'

/-- A program ends well, with a fault of its own or with a write that is refused, if it ends. -/
theorem RunsTo.ending (h : w.RunsTo source o) (ho : o ≠ .exhausted) :
    (∃ s, o = .ok () s ∧ w.Completes source) ∨
      ∃ halt s, o = .fault halt s ∧ (w.Fails source ∨ w.IsRefused source) := by
  have hends := h
  obtain ⟨program, D, fuel, _, hrun⟩ := hends
  have hwrites := Eval.writes_runProgram fuel program (w.start D)
  cases o with
  | ok _ s => exact .inl ⟨s, rfl, s, h, hwrites.ok hrun⟩
  | fault halt s =>
      cases halt with
      | runtime fault line => exact .inr ⟨_, s, rfl, .inl ⟨fault, line, s, h, hwrites.fault hrun⟩⟩
      | output reason => exact .inr ⟨_, s, rfl, .inr ⟨reason, s, h, hwrites.fault hrun⟩⟩
  | exhausted => exact (ho rfl).elim

end Surroundings

namespace Session

variable {source : String} {program : List Stmt} {D : Distances}

theorem prepare_of_wellFormed (w : Surroundings) (h : WellFormed source program D) :
    ∃ n, prepare source (initial w.host w.output) = .ok program ⟨w.start D, n⟩ :=
  ⟨_, prepare_eq_ok.mpr ⟨h.scan_eq, h.read_eq, D, h.resolve_eq, rfl⟩⟩

/-- A malformed text is refused before anything of it is run. -/
theorem prepare_of_malformed (host : Host) (sink : Sink) (h : Malformed source) :
    ∃ e s, prepare source (initial host sink) = .fault e s ∧ e.isStatic = true ∧
      s.state = State.initial host sink := by
  have huntouched := ensures_prepare_untouched source (initial host sink)
  have hfault : ∃ e s, prepare source (initial host sink) = .fault e s := by
    cases hscan : (scan source).errors with
    | cons e es => exact ⟨_, _, prepare_of_lex hscan⟩
    | nil =>
        cases h with
        | tokens hne => exact (hne hscan).elim
        | reading hread => exact ⟨_, _, prepare_of_parse hscan hread⟩
        | scopes hread hresolve => exact ⟨_, _, prepare_of_scope hscan hread hresolve⟩
  obtain ⟨e, s, hfault⟩ := hfault
  obtain ⟨hstatic, hsame⟩ := huntouched.fault hfault
  exact ⟨e, s, hfault, hstatic, hsame.state_eq⟩

end Session

namespace Command

variable {w : Surroundings} {source : String} {program : List Stmt} {D : Distances}

/-- What a run of a malformed text leaves behind. -/
theorem runText?_of_malformed (fuel : Nat) (w : Surroundings) (h : Malformed source) :
    ∃ e, runText? fuel w source = some ⟨65, w.output.text, ProgramError.report [e]⟩ := by
  obtain ⟨e, s, hprepare, hstatic, hstate⟩ := Session.prepare_of_malformed w.host w.output h
  have hrun : (Session.initial w.host w.output).run fuel source = .fault e s := by
    unfold Session.run
    rw [Run.bind_apply, hprepare]
  refine ⟨e, ?_⟩
  unfold runText? ProgramError.exitCode
  rw [hrun]
  simp only [hstatic, if_true, hstate]
  rfl

/-- What a run of a program leaves behind, given how it ends. -/
def reportOf : Outcome Halt State Unit → Option Report
  | .ok _ s => some ⟨0, s.sink.text, ""⟩
  | .fault reason s => some ⟨70, s.sink.text, ProgramError.report [.halt reason]⟩
  | .exhausted => none

theorem runText?_of_wellFormed (fuel : Nat) (w : Surroundings) (h : WellFormed source program D) :
    runText? fuel w source = reportOf (Eval.runProgram fuel program (w.start D)) := by
  obtain ⟨n, hprepare⟩ := Session.prepare_of_wellFormed w h
  unfold runText? Session.run
  rw [Run.bind_of_ok hprepare]
  unfold Session.evaluate
  cases Eval.runProgram fuel program (w.start D) <;> rfl

end Command

end ScopedScript
