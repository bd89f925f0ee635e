import ScopedScript.Proofs.Command.ExitCode

/-!
# What the commands see of a malformed text

Tokens are listed of any text, a syntax tree is printed of what is left of it when all that is no
token is passed over, and only a run looks at the text in all ways. So a text that one of the other
commands finds malformed is never run, but a tree may be printed of a text that has none.
-/

namespace ScopedScript.Surroundings

variable {w : Surroundings} {c : Command} {file source : String} {json : Bool} {code : Nat}

/-- A command that has the same to report with any fuel ends with the code in its report. -/
theorem exitsWith_iff_of_report {r : Report} (h : ∀ fuel, c.execute? fuel w = some r) :
    w.ExitsWith c code ↔ r.code = code := by
  constructor
  · rintro ⟨fuel, r', hr', rfl⟩
    rw [h fuel] at hr'
    cases hr'
    rfl
  · rintro rfl
    exact ⟨0, r, h 0, rfl⟩

theorem exitsWith_tokenize_iff (h : w.Reads file source) :
    w.ExitsWith (.tokenize file json) code ↔
      (code = 0 ∧ (scan source).errors = []) ∨ (code = 65 ∧ (scan source).errors ≠ []) := by
  have hexecute (fuel : Nat) :
      (Command.tokenize file json).execute? fuel w = some (Command.tokenizeText json source) :=
    h.withText_eq _
  rw [exitsWith_iff_of_report hexecute, Command.tokenizeText]
  cases herrors : (scan source).errors with
  | nil => simp [ExitCode.number, eq_comm]
  | cons e es => simp [ExitCode.number, eq_comm]

theorem exitsWith_parse_iff (h : w.Reads file source) :
    w.ExitsWith (.parse file) code ↔
      (code = 0 ∧ ∃ program, (readProgram (scan source).tokens 0).result = .ok program) ∨
      (code = 65 ∧ ∃ e, (readProgram (scan source).tokens 0).result = .error e) := by
  have hexecute (fuel : Nat) :
      (Command.parse file).execute? fuel w = some (Command.parseText source) := h.withText_eq _
  rw [exitsWith_iff_of_report hexecute, Command.parseText]
  cases hread : (readProgram (scan source).tokens 0).result with
  | ok program => simp [ExitCode.number, eq_comm]
  | error e => simp [ExitCode.number, eq_comm]

/-- Of a file that holds a text, the list of tokens ends with 65 if and only if the tokens are at
fault, and the syntax tree if and only if what is left of the text is no program, whether or not the
tokens are at fault. A run ends with 65 if and only if either does or the program that is left
breaks a rule of scoping. -/
theorem exitsWith_run_iff_tokenize_or_parse {stored : StoredFile} {text : String}
    (hfile : w.file file = .ok stored) (htext : Text.decode stored.bytes = .ok text) :
    let source := stored.portion text
    let result := (readProgram (scan source).tokens 0).result
    ((stored.length = 0 → stored.bytes = .empty) → source = text) ∧
    (∀ json, w.ExitsWith (.tokenize file json) 65 ↔ (scan source).errors ≠ []) ∧
    (w.ExitsWith (.parse file) 65 ↔ ∃ e, result = .error e) ∧
    (w.ExitsWith (.parse file) 0 ↔ ∃ program, result = .ok program) ∧
    ∀ json, w.ExitsWith (.run file) 65 ↔
      w.ExitsWith (.tokenize file json) 65 ∨ w.ExitsWith (.parse file) 65 ∨
        ∃ program e, result = .ok program ∧ resolve program = .error e := by
  intro source result
  have hreads : w.Reads file source := reads_of_decode hfile htext
  have htokenize (json : Bool) :
      w.ExitsWith (.tokenize file json) 65 ↔ (scan source).errors ≠ [] := by
    simp [exitsWith_tokenize_iff hreads]
  have hparse : w.ExitsWith (.parse file) 65 ↔ ∃ e, result = .error e := by
    simp [exitsWith_parse_iff hreads, result]
  have hrun : w.ExitsWith (.run file) 65 ↔ Malformed source := by
    simp [exitsWith_run_iff hreads]
  refine ⟨fun hlength => StoredFile.portion_eq hlength htext, htokenize, hparse, ?_, ?_⟩
  · simp [exitsWith_parse_iff hreads, result]
  · intro json
    rw [hrun, htokenize, hparse]
    constructor
    · intro hmalformed
      cases hmalformed with
      | tokens hscan => exact .inl hscan
      | reading hread => exact .inr (.inl ⟨_, hread⟩)
      | scopes hread hresolve => exact .inr (.inr ⟨_, _, hread, hresolve⟩)
    · rintro (hscan | ⟨e, hread⟩ | ⟨program, e, hread, hresolve⟩)
      · exact .tokens hscan
      · exact .reading hread
      · exact .scopes hread hresolve

theorem errors_of_strayCharacter :
    (scan "print nil; @").errors = [⟨.unexpectedCharacter '@', 1⟩] := by cbv

theorem result_of_strayCharacter : (readProgram (scan "print nil; @").tokens 0).result =
    .ok [.print (.literal .nil)] := by cbv

/-- For example, of a text with a character that begins no token after a program. -/
theorem exitsWith_of_strayCharacter :
    (ofText "print nil; @" .accepting).ExitsWith (.tokenize "p" true) 65 ∧
    (ofText "print nil; @" .accepting).ExitsWith (.parse "p") 0 ∧
    (ofText "print nil; @" .accepting).ExitsWith (.run "p") 65 := by
  have hfile : (ofText "print nil; @" .accepting).file "p" =
      .ok (.kept "print nil; @".toUTF8) := rfl
  obtain ⟨_, htokenize, _, hparse, hrun⟩ :=
    exitsWith_run_iff_tokenize_or_parse hfile (Text.decode_toUTF8 "print nil; @")
  rw [StoredFile.portion_kept] at htokenize hparse
  have hcode := (htokenize true).mpr (by simp [errors_of_strayCharacter])
  exact ⟨hcode, hparse.mpr ⟨_, result_of_strayCharacter⟩, (hrun true).mpr (.inl hcode)⟩

/-- A text whose tokens are at fault may have a syntax tree that is printed. -/
theorem not_exitsWith_parse_of_tokenize :
    ¬∀ (w : Surroundings) (file : String) (stored : StoredFile) (text : String) (json : Bool),
      w.file file = .ok stored → Text.decode stored.bytes = .ok text →
      w.ExitsWith (.tokenize file json) 65 → w.ExitsWith (.parse file) 65 := by
  intro h
  have hreads := reads_ofText "print nil; @" .accepting "p"
  have hcode : (ofText "print nil; @" .accepting).ExitsWith (.tokenize "p" true) 65 := by
    rw [exitsWith_tokenize_iff hreads, errors_of_strayCharacter]
    simp
  have hclaimed := h _ "p" _ _ true rfl (Text.decode_toUTF8 "print nil; @") hcode
  rw [exitsWith_parse_iff hreads, result_of_strayCharacter] at hclaimed
  simp at hclaimed

end ScopedScript.Surroundings
