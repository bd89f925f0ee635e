import ScopedScript.Proofs.Command.Endings

/-!
# The code of a run

A run of a file ends with a code that tells whether its text was malformed, and if it was not,
whether its program came to its end. It does not tell an operation that went wrong from a write that
was refused. As every run of a program ends in one way, so does every run of a file.
-/

namespace ScopedScript

namespace Surroundings

variable {w : Surroundings} {file source : String} {fuel code code' : Nat} {r : Report}

/-- What is reported of a run: that the text is malformed, or else how its program ended. -/
theorem execute?_run (h : w.Reads file source)
    (hr : Command.execute? fuel w (.run file) = some r) :
    (Malformed source ∧ r.code = 65 ∧ r.output = w.output.text) ∨
      ∃ o, w.RunsTo source o ∧ Command.reportOf o = some r := by
  rw [Command.execute?, h.withText_eq] at hr
  rcases malformed_or_wellFormed source with hmalformed | ⟨program, D, hformed⟩
  · obtain ⟨e, hreport⟩ := Command.runText?_of_malformed fuel w hmalformed
    rw [hreport] at hr
    cases hr
    exact .inl ⟨hmalformed, rfl, rfl⟩
  · rw [Command.runText?_of_wellFormed fuel w hformed] at hr
    exact .inr ⟨_, ⟨program, D, fuel, hformed, rfl⟩, hr⟩

theorem RunsTo.exitsWith {o : Outcome Halt State Unit} (hruns : w.RunsTo source o)
    (h : w.Reads file source) (hr : Command.reportOf o = some r) :
    w.ExitsWith (.run file) r.code := by
  obtain ⟨program, D, fuel, hformed, rfl⟩ := hruns
  refine ⟨fuel, r, ?_, rfl⟩
  rw [Command.execute?, h.withText_eq, Command.runText?_of_wellFormed fuel w hformed, hr]

theorem exitsWith_run_iff (h : w.Reads file source) : w.ExitsWith (.run file) code ↔
    (code = 0 ∧ w.Completes source) ∨ (code = 65 ∧ Malformed source) ∨
      (code = 70 ∧ (w.Fails source ∨ w.IsRefused source)) := by
  constructor
  · rintro ⟨fuel, r, hr, rfl⟩
    obtain ⟨hmalformed, hcode, _⟩ | ⟨o, hruns, hreport⟩ := execute?_run h hr
    · exact .inr (.inl ⟨hcode, hmalformed⟩)
    · have ho : o ≠ .exhausted := by
        rintro rfl
        cases hreport
      obtain ⟨s, rfl, hcompletes⟩ | ⟨halt, s, rfl, hstops⟩ := hruns.ending ho
      · cases hreport
        exact .inl ⟨rfl, hcompletes⟩
      · cases hreport
        exact .inr (.inr ⟨rfl, hstops⟩)
  · rintro (⟨rfl, s, hruns, _⟩ | ⟨rfl, hmalformed⟩ |
      ⟨rfl, ⟨_, _, s, hruns, _⟩ | ⟨_, s, hruns, _⟩⟩)
    · exact hruns.exitsWith h rfl
    · obtain ⟨e, hreport⟩ := Command.runText?_of_malformed 0 w hmalformed
      refine ⟨0, ⟨65, w.output.text, ProgramError.report [e]⟩, ?_, rfl⟩
      rw [Command.execute?, h.withText_eq, hreport]
    · exact hruns.exitsWith h rfl
    · exact hruns.exitsWith h rfl

/-- A run ends with one code. -/
theorem exitsWith_run_unique (h : w.Reads file source) (hcode : w.ExitsWith (.run file) code)
    (hcode' : w.ExitsWith (.run file) code') : code = code' := by
  obtain ⟨fuel, r, hr, rfl⟩ := hcode
  obtain ⟨fuel', r', hr', rfl⟩ := hcode'
  obtain ⟨hmalformed, hr, _⟩ | ⟨o, hruns, hr⟩ := execute?_run h hr
  · obtain ⟨_, hr', _⟩ | ⟨o', hruns', _⟩ := execute?_run h hr'
    · rw [hr, hr']
    · exact (hruns'.not_malformed hmalformed).elim
  · obtain ⟨hmalformed, _, _⟩ | ⟨o', hruns', hr'⟩ := execute?_run h hr'
    · exact (hruns.not_malformed hmalformed).elim
    · have hsame : o = o' := by
        refine hruns.unique hruns' ?_ ?_
        · rintro rfl
          cases hr
        · rintro rfl
          cases hr'
      rw [hsame, hr'] at hr
      cases hr
      rfl

/-- A malformed text is refused before anything is printed. -/
theorem output_eq_of_malformed (h : w.Reads file source)
    (hr : Command.execute? fuel w (.run file) = some r) (hcode : r.code = 65) :
    r.output = w.output.text := by
  obtain ⟨_, _, houtput⟩ | ⟨o, hruns, hreport⟩ := execute?_run h hr
  · exact houtput
  · cases o with
    | ok _ s | fault halt s =>
        cases hreport
        cases hcode
    | exhausted => cases hreport

/-- What the code of a run tells of a file that holds a text, whichever writes are refused: 0 that
its program ran to its end, 65 that the text is malformed, and then nothing was printed, and 70 that
an operation went wrong or that a write was refused. No run ends with another code, or with two. Of
a file that reports no length no text is seen. -/
theorem exitsWith_run {stored : StoredFile} {text : String} (hfile : w.file file = .ok stored)
    (htext : Text.decode stored.bytes = .ok text) :
    ((stored.length = 0 → stored.bytes = .empty) → stored.portion text = text) ∧
    (w.ExitsWith (.run file) 0 ↔ w.Completes (stored.portion text)) ∧
    (w.ExitsWith (.run file) 65 ↔ Malformed (stored.portion text)) ∧
    (∀ fuel r, Command.execute? fuel w (.run file) = some r → r.code = 65 →
      r.output = w.output.text) ∧
    (w.ExitsWith (.run file) 70 ↔
      w.Fails (stored.portion text) ∨ w.IsRefused (stored.portion text)) ∧
    ∀ code code', w.ExitsWith (.run file) code → w.ExitsWith (.run file) code' →
      code' = code ∧ (code = 0 ∨ code = 65 ∨ code = 70) := by
  have hreads := reads_of_decode hfile htext
  refine ⟨fun hlength => StoredFile.portion_eq hlength htext, ?_, ?_, ?_, ?_, ?_⟩
  · simp [exitsWith_run_iff hreads]
  · simp [exitsWith_run_iff hreads]
  · exact fun _ _ => output_eq_of_malformed hreads
  · simp [exitsWith_run_iff hreads]
  · intro code code' hcode hcode'
    refine ⟨exitsWith_run_unique hreads hcode' hcode, ?_⟩
    obtain ⟨hzero, _⟩ | ⟨hdata, _⟩ | ⟨hsoftware, _⟩ := (exitsWith_run_iff hreads).mp hcode
    · exact .inl hzero
    · exact .inr (.inl hdata)
    · exact .inr (.inr hsoftware)

/-- A sink that takes nothing. -/
def closed : Sink := ⟨fun _ => some "closed", 0, ""⟩

theorem isRefused_print : (ofText "print nil;" closed).IsRefused "print nil;" := by
  have hruns : ∃ s, (ofText "print nil;" closed).RunsTo "print nil;"
      (.fault (.output "closed") s) ∧ s.sink = { closed with writes := 1 } :=
    ⟨_, ⟨[.print (.literal .nil)], ∅, 9, ⟨by cbv, by cbv, by cbv⟩, by cbv⟩, by cbv⟩
  obtain ⟨s, hruns, hsink⟩ := hruns
  exact ⟨"closed", s, hruns, closed, .refl closed, rfl, hsink⟩

theorem malformed_print : Malformed "print" :=
  .reading (e := ⟨.noExpression, ⟨.eof, "", 1⟩, 0⟩) (by cbv)

/-- For example, of a program whose output is refused and of a text that is not a program. -/
theorem exitsWith_run_print :
    (ofText "print nil;" closed).ExitsWith (.run "p") 70 ∧
    (ofText "print" closed).ExitsWith (.run "p") 65 := by
  constructor
  · refine (exitsWith_run rfl (Text.decode_toUTF8 "print nil;")).2.2.2.2.1.mpr ?_
    rw [StoredFile.portion_kept]
    exact .inr isRefused_print
  · refine (exitsWith_run rfl (Text.decode_toUTF8 "print")).2.2.1.mpr ?_
    rw [StoredFile.portion_kept]
    exact malformed_print

/-- A write that is refused has no code of its own, and a file that reports no length is not seen to
hold a malformed text. -/
theorem not_exitsWith_run :
    (¬∀ (w : Surroundings) (file : String) (stored : StoredFile) (text : String),
      w.file file = .ok stored → Text.decode stored.bytes = .ok text → w.IsRefused text →
      w.ExitsWith (.run file) 74) ∧
    ¬∀ (w : Surroundings) (file : String) (stored : StoredFile) (text : String),
      w.file file = .ok stored → Text.decode stored.bytes = .ok text → Malformed text →
      w.ExitsWith (.run file) 65 := by
  constructor
  · intro h
    have hcode := h _ "p" _ _ rfl (Text.decode_toUTF8 "print nil;") isRefused_print
    rw [exitsWith_run_iff (reads_ofText _ _ _)] at hcode
    omega
  · intro h
    have hcode := h (ofFile ⟨"print".toUTF8, 0⟩ closed) "p" _ _ rfl (Text.decode_toUTF8 "print")
      malformed_print
    have hreads : (ofFile ⟨"print".toUTF8, 0⟩ closed).Reads "p" "" := rfl
    have hformed : WellFormed "" [] ∅ := ⟨by cbv, by cbv, by cbv⟩
    rw [exitsWith_run_iff hreads] at hcode
    simp [hformed.not_malformed] at hcode

end Surroundings

end ScopedScript
