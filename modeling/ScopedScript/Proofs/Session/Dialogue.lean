import ScopedScript.Proofs.Session.Preparation
import ScopedScript.Session.Interactive

/-!
# Interactive sessions line by line

An interactive session is a fold: it runs the lines of its input in the session, one by one and
each once, up to the first line that says `exit` or is not text, and goes on after each whatever was
wrong with it. What it writes is a prompt for each line that it takes, with what was wrong with the
line after it, and a last prompt for what ends it.
-/

namespace ScopedScript

/-- No text that is still to be written will be refused. -/
def Sink.Working (k : Sink) : Prop := ∀ n, k.writes ≤ n → k.refusal? n = none

/-- A working sink after a text was written, in however many pieces. -/
structure Sink.Shows (k : Sink) (text : String) (k' : Sink) : Prop where
  text_eq : k'.text = k.text ++ text
  working : k'.Working

namespace Sink

variable {k k₁ k₂ : Sink} {text more : String}

theorem Shows.refl (h : k.Working) : k.Shows "" k := ⟨String.append_empty.symm, h⟩

theorem Shows.trans (h₁ : k.Shows text k₁) (h₂ : k₁.Shows more k₂) : k.Shows (text ++ more) k₂ :=
  ⟨by rw [h₂.text_eq, h₁.text_eq, String.append_assoc], h₂.working⟩

/-- A working sink takes a text, and goes on working. -/
theorem Working.exists_write (h : k.Working) (text : String) :
    ∃ k', k.write text = (none, k') ∧ k.Shows text k' := by
  refine ⟨{ k with writes := k.writes + 1, text := k.text ++ text }, ?_, rfl, ?_⟩
  · unfold write
    rw [h k.writes (Nat.le_refl _)]
  · intro n hn
    exact h n (Nat.le_of_succ_le hn)

end Sink

namespace Session

/-- Run lines one after the other, whatever is wrong with any of them; the answer is what was wrong
with each. -/
def answers (fuel : Nat) (lines : List String) :
    Run Empty Session (List (Except (List ProgramError) Unit)) :=
  lines.mapM fun line => Run.attempt (runLine fuel line)

theorem answers_cons (fuel : Nat) (line : String) (lines : List String) :
    answers fuel (line :: lines) = do
      let answer ← Run.attempt (runLine fuel line)
      let answers ← answers fuel lines
      return answer :: answers :=
  List.mapM_cons

theorem length_answers {fuel : Nat} {lines : List String} {s s' : Session}
    {results : List (Except (List ProgramError) Unit)}
    (h : answers fuel lines s = .ok results s') : results.length = lines.length := by
  induction lines generalizing results s with
  | nil =>
      cases h
      rfl
  | cons line lines ih =>
      rw [answers_cons, Run.bind_eq_ok] at h
      obtain ⟨answer, t, _, h⟩ := h
      obtain ⟨rest, _, hrest, h⟩ := Run.bind_eq_ok.mp h
      cases h
      rw [List.length_cons, List.length_cons, ih hrest]

/-- A computation that does not change whether values are printed. -/
abbrev KeepsEcho {ε α : Type} (m : Run ε Session α) : Prop :=
  m.Keeps fun s s' => s'.state.echo = s.state.echo

theorem KeepsEcho.bind {ε α β : Type} {m : Run ε Session α} {f : α → Run ε Session β}
    (h : KeepsEcho m) (hf : ∀ a, KeepsEcho (f a)) : KeepsEcho (m >>= f) :=
  Run.Keeps.bind (fun _ _ _ h₁ h₂ => h₂.trans h₁) h hf

theorem keepsEcho_pure {ε α : Type} (a : α) : KeepsEcho (pure a : Run ε Session α) :=
  fun _ => .of_ok rfl rfl

theorem keepsEcho_runLine (fuel : Nat) (line : String) : KeepsEcho (runLine fuel line) := by
  refine KeepsEcho.bind ?_ fun program => ?_
  · refine (keeps_prepareLine line).mono fun s s' ⟨D, hstate⟩ => ?_
    rw [hstate]
  · intro s
    have hplace := Eval.keepsPlace_runProgram fuel program s.state
    exact (ensures_evaluate_of (hplace.mono (fun _ _ => State.Grows.echo_eq)
      (fun _ _ => State.Grows.echo_eq))).mapError fun _ _ => id

theorem keepsEcho_answers (fuel : Nat) (lines : List String) :
    KeepsEcho (answers fuel lines) := by
  induction lines with
  | nil => exact keepsEcho_pure _
  | cons line lines ih =>
      rw [answers_cons]
      refine KeepsEcho.bind (fun s => ?_) fun _ => ih.bind fun _ => keepsEcho_pure _
      have hline := keepsEcho_runLine fuel line s
      unfold Run.Ensures Run.attempt at *
      cases hrun : runLine fuel line s with
      | ok _ _ | fault _ _ =>
          rw [hrun] at hline
          exact hline
      | exhausted => trivial

end Session

namespace Console

variable (fuel : Nat) (session : Session) {messages : Sink}

/-- Whether a line, with or without white space around it, ends a session. -/
def saysExit (line : String) : Bool := String.ofList (Text.trim line.toList) == exitWord

/-- Whether a line is to be run: it is text and does not end the session. -/
def isTyped (bytes : List UInt8) : Bool :=
  match String.fromUTF8? ⟨bytes.toArray⟩ with
  | some line => !saysExit line
  | none => false

/-- The texts of the lines that are to be run. -/
def typedLines (lines : List (List UInt8)) : List String :=
  (lines.takeWhile isTyped).filterMap fun bytes => String.fromUTF8? ⟨bytes.toArray⟩

/-- What ends a session. -/
inductive Ending where
  | endOfInput | exit | notText
  deriving DecidableEq, Repr

/-- What follows the lines that are to be run. -/
def ending (lines : List (List UInt8)) : Ending :=
  match lines.dropWhile isTyped with
  | [] => .endOfInput
  | bytes :: _ => if (String.fromUTF8? ⟨bytes.toArray⟩).isSome then .exit else .notText

/-- What is written after the last prompt. -/
def Ending.farewell : Ending → String
  | endOfInput => "\n"
  | exit | notText => ""

/-- How a session ends. -/
def Ending.close (c : Console) : Ending → Outcome ConsoleError Console Unit
  | endOfInput | exit => .ok () c
  | notText => .fault .notText c

/-- The messages for what was wrong with a line. -/
def complaints : Except (List ProgramError) Unit → String
  | .ok () => ""
  | .error errors => String.join (errors.map fun error => error.message ++ "\n")

/-- All that is written in a session in which lines were answered in a certain way: a prompt for
each of them and the messages for it, and the last prompt. -/
def transcript (answers : List (Except (List ProgramError) Unit)) (ending : Ending) : String :=
  String.join (answers.map fun answer => prompt ++ complaints answer) ++
    (prompt ++ ending.farewell)

theorem transcript_cons (answer : Except (List ProgramError) Unit)
    (answers : List (Except (List ProgramError) Unit)) (ending : Ending) :
    transcript (answer :: answers) ending =
      prompt ++ (complaints answer ++ transcript answers ending) := by
  simp only [transcript, List.map_cons, String.join_cons, String.append_assoc]

theorem say_of_working (h : messages.Working) (text : String) :
    ∃ messages', say text ⟨session, messages⟩ = .ok () ⟨session, messages'⟩ ∧
      messages.Shows text messages' := by
  obtain ⟨messages', hwrite, hshows⟩ := h.exists_write text
  refine ⟨messages', ?_, hshows⟩
  unfold say
  simp only [hwrite]

theorem report_of_working (errors : List ProgramError) (h : messages.Working) :
    ∃ messages', report errors ⟨session, messages⟩ = .ok () ⟨session, messages'⟩ ∧
      messages.Shows (complaints (.error errors)) messages' := by
  induction errors generalizing messages with
  | nil => exact ⟨messages, rfl, .refl h⟩
  | cons error errors ih =>
      obtain ⟨messages₁, hsay, hshows₁⟩ := say_of_working session h
        (error.message ++ "\n")
      obtain ⟨messages₂, hreport, hshows₂⟩ := ih hshows₁.working
      refine ⟨messages₂, ?_, ?_⟩
      · unfold report
        rw [Run.bind_of_ok hsay, hreport]
      · have hshows := hshows₁.trans hshows₂
        rwa [complaints, List.map_cons, String.join_cons]

/-- A line is run once, and what is wrong with it is reported in order. -/
theorem runLine_of_working (line : String) (h : messages.Working) :
    match (Run.attempt (Session.runLine fuel line) : Run Empty Session _) session with
    | .ok answer session' => ∃ messages', messages.Shows (complaints answer) messages' ∧
        runLine fuel line ⟨session, messages⟩ = .ok () ⟨session', messages'⟩
    | .fault _ _ => False
    | .exhausted => runLine fuel line ⟨session, messages⟩ = .exhausted := by
  unfold runLine Run.attempt
  cases hrun : Session.runLine fuel line session with
  | ok _ session' => exact ⟨messages, .refl h, rfl⟩
  | fault errors session' =>
      obtain ⟨messages', hreport, hshows⟩ := report_of_working session' errors h
      exact ⟨messages', hshows, hreport⟩
  | exhausted => rfl

section Lines

variable {bytes : List UInt8} (rest : List (List UInt8)) {line : String}

theorem typedLines_of_typed (htext : String.fromUTF8? ⟨bytes.toArray⟩ = some line)
    (hexit : saysExit line = false) :
    typedLines (bytes :: rest) = line :: typedLines rest ∧
      ending (bytes :: rest) = ending rest := by
  have htyped : isTyped bytes = true := by
    unfold isTyped
    simp only [htext, hexit, Bool.not_false]
  unfold typedLines ending
  rw [List.takeWhile_cons_of_pos htyped, List.dropWhile_cons_of_pos htyped, List.filterMap_cons,
    htext]
  exact ⟨rfl, rfl⟩

theorem typedLines_of_not (h : ¬isTyped bytes = true) : typedLines (bytes :: rest) = [] ∧
    ending (bytes :: rest) =
      if (String.fromUTF8? ⟨bytes.toArray⟩).isSome then .exit else .notText := by
  unfold typedLines ending
  rw [List.takeWhile_cons_of_neg h, List.dropWhile_cons_of_neg h]
  exact ⟨rfl, rfl⟩

theorem typedLines_of_exit (htext : String.fromUTF8? ⟨bytes.toArray⟩ = some line)
    (hexit : saysExit line = true) :
    typedLines (bytes :: rest) = [] ∧ ending (bytes :: rest) = .exit := by
  have hnot : ¬isTyped bytes = true := by simp [isTyped, htext, hexit]
  have h := typedLines_of_not rest hnot
  rwa [htext] at h

theorem typedLines_of_notText (htext : String.fromUTF8? ⟨bytes.toArray⟩ = none) :
    typedLines (bytes :: rest) = [] ∧ ending (bytes :: rest) = .notText := by
  have hnot : ¬isTyped bytes = true := by simp [isTyped, htext]
  have h := typedLines_of_not rest hnot
  rwa [htext] at h

theorem step_of_typed (htext : String.fromUTF8? ⟨bytes.toArray⟩ = some line)
    (hexit : saysExit line = false) :
    step fuel bytes = do
      runLine fuel line
      return true := by
  have hne : ¬String.ofList (Text.trim line.toList) = exitWord := by
    simpa [saysExit] using hexit
  unfold step
  simp only [htext, hne, if_false]

theorem step_of_exit (htext : String.fromUTF8? ⟨bytes.toArray⟩ = some line)
    (hexit : saysExit line = true) : step fuel bytes = pure false := by
  have heq : String.ofList (Text.trim line.toList) = exitWord := by
    simpa [saysExit] using hexit
  unfold step
  simp only [htext, heq, if_true]

theorem step_of_notText (htext : String.fromUTF8? ⟨bytes.toArray⟩ = none) :
    step fuel bytes = Run.fail .notText := by
  unfold step
  simp only [htext]

end Lines

/-- An interactive session runs the lines before its ending, one after the other and each once,
whatever is wrong with them. -/
theorem runLines_of_working (lines : List (List UInt8)) (h : messages.Working) :
    match Session.answers fuel (typedLines lines) session with
    | .ok answers session' => ∃ messages',
        messages.Shows (transcript answers (ending lines)) messages' ∧
        runLines fuel lines ⟨session, messages⟩ = (ending lines).close ⟨session', messages'⟩
    | .fault _ _ => False
    | .exhausted => runLines fuel lines ⟨session, messages⟩ = .exhausted := by
  induction lines generalizing session messages with
  | nil =>
      obtain ⟨messages₁, hprompt, hshows₁⟩ := say_of_working session h prompt
      obtain ⟨messages₂, hend, hshows₂⟩ := say_of_working session hshows₁.working "\n"
      refine ⟨messages₂, hshows₁.trans hshows₂, ?_⟩
      unfold runLines
      rw [Run.bind_of_ok hprompt, hend]
      rfl
  | cons bytes rest ih =>
      obtain ⟨messages₁, hprompt, hshows₁⟩ := say_of_working session h prompt
      have hlast : messages.Shows (prompt ++ "") messages₁ := by rwa [String.append_empty]
      unfold runLines
      rw [Run.bind_of_ok hprompt]
      cases htext : String.fromUTF8? ⟨bytes.toArray⟩ with
      | none =>
          obtain ⟨htyped, hending⟩ := typedLines_of_notText rest htext
          rw [htyped, hending, step_of_notText fuel htext]
          exact ⟨messages₁, hlast, rfl⟩
      | some line =>
          cases hexit : saysExit line with
          | true =>
              obtain ⟨htyped, hending⟩ := typedLines_of_exit rest htext hexit
              rw [htyped, hending, step_of_exit fuel htext hexit]
              exact ⟨messages₁, hlast, rfl⟩
          | false =>
              obtain ⟨htyped, hending⟩ := typedLines_of_typed rest htext hexit
              have hline := runLine_of_working fuel session line hshows₁.working
              rw [htyped, hending, step_of_typed fuel htext hexit, bind_assoc, Session.answers_cons]
              cases hrun :
                  (Run.attempt (Session.runLine fuel line) : Run Empty Session _) session with
              | ok answer session₁ =>
                  rw [hrun] at hline
                  obtain ⟨messages₂, hshows₂, hline⟩ := hline
                  rw [Run.bind_of_ok hrun, Run.bind_of_ok hline]
                  have hrest := ih session₁ hshows₂.working
                  rw [Run.bind_apply]
                  cases hanswers : Session.answers fuel (typedLines rest) session₁ with
                  | ok answers session₂ =>
                      rw [hanswers] at hrest
                      obtain ⟨messages₃, hshows₃, hrest⟩ := hrest
                      refine ⟨messages₃, ?_, hrest⟩
                      rw [transcript_cons]
                      exact hshows₁.trans (hshows₂.trans hshows₃)
                  | fault e _ => cases e
                  | exhausted =>
                      rw [hanswers] at hrest
                      exact hrest
              | fault e _ => cases e
              | exhausted =>
                  rw [hrun] at hline
                  rw [Run.bind_apply, hrun, Run.bind_apply, hline]

/-- An interactive session whose messages are not refused is a fold over the lines before its
ending, each of them run once and with values printed, in the session that the lines before it left,
whatever was wrong with those. It writes the transcript of what was wrong with them, and only a line
that is not text is an error. -/
theorem run_eq_answers (fuel : Nat) (session : Session) (messages : Sink) (h : messages.Working)
    (input : ByteArray) :
    let lines := Text.lines input.toList
    (∀ before answers session',
      Session.answers fuel before (session.setEcho true) = .ok answers session' →
        answers.length = before.length ∧ session'.state.echo = true) ∧
    match Session.answers fuel (typedLines lines) (session.setEcho true) with
    | .ok answers session' => ∃ messages',
        messages'.text = messages.text ++ transcript answers (ending lines) ∧
        run fuel input (start session messages) = (ending lines).close ⟨session', messages'⟩
    | .fault _ _ => False
    | .exhausted => run fuel input (start session messages) = .exhausted := by
  intro lines
  refine ⟨fun before answers session' hanswers => ?_, ?_⟩
  · have hecho := Session.keepsEcho_answers fuel before (session.setEcho true)
    rw [Run.Ensures, hanswers] at hecho
    exact ⟨Session.length_answers hanswers, hecho⟩
  · have hlines := runLines_of_working fuel (session.setEcho true) lines h
    cases hanswers : Session.answers fuel (typedLines lines) (session.setEcho true) with
    | ok answers session' =>
        rw [hanswers] at hlines
        obtain ⟨messages', hshows, hrun⟩ := hlines
        exact ⟨messages', hshows.text_eq, hrun⟩
    | fault e _ => cases e
    | exhausted =>
        rw [hanswers] at hlines
        exact hlines

/-- For example, a line that fails, an empty one, one that has a value, and what stands after the
end of the session. -/
theorem run_eq_answers_of_exit :
    Sink.accepting.Working ∧
    ∃ session' messages',
      run 9 "nil();\r\n\ntrue;\n exit \n@".toUTF8
        (start (Session.initial (.ofClock fun _ => 0) .accepting) .accepting) =
          .ok () ⟨session', messages'⟩ ∧
      messages'.text = "> Can only call functions and classes.\n[line 1]\n> > > " ∧
      session'.state.sink.text = "true\n" := by
  have hworking : Sink.accepting.Working := fun _ _ => rfl
  let session := Session.initial (.ofClock fun _ => 0) .accepting
  have htyped : typedLines (Text.lines "nil();\r\n\ntrue;\n exit \n@".toUTF8.toList) =
      ["nil();", "", "true;"] := by cbv
  have hending : ending (Text.lines "nil();\r\n\ntrue;\n exit \n@".toUTF8.toList) = .exit := by cbv
  have hanswers : ∃ session',
      Session.answers 9 ["nil();", "", "true;"] (session.setEcho true) =
        .ok [.error [.halt (.runtime .notCallable 1)], .ok (), .ok ()] session' ∧
      session'.state.sink.text = "true\n" := ⟨_, by cbv, by cbv⟩
  obtain ⟨session', hanswers, htext⟩ := hanswers
  have hrun := (run_eq_answers 9 session .accepting hworking
    "nil();\r\n\ntrue;\n exit \n@".toUTF8).2
  rw [htyped, hanswers] at hrun
  obtain ⟨messages', hmessages, hrun⟩ := hrun
  rw [hending] at hmessages hrun
  exact ⟨hworking, session', messages', hrun, hmessages, htext⟩

end Console

end ScopedScript
