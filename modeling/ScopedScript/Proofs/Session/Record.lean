import ScopedScript.Proofs.Eval.Recording
import ScopedScript.Proofs.Session.Agreement

/-!
# The record of a session

All that happens in a session is put on record, through all the source texts that are run in it,
whether they end well, with faults or not at all. Whatever is on record is true at each moment from
then on.
-/

namespace ScopedScript

section Source

variable {source : String} {base : NodeId}

/-- The references of a program that is read to its end show ordinary names. -/
theorem refersPlainly_of_program {program : List Stmt} {fuel : Nat} {c : Cursor}
    (h : Reader.program fuel (Cursor.ofTokens (scan source).tokens base) = .ok program c) :
    ∀ o ∈ Stmt.occurrencesAll program, o.Plain := by
  obtain ⟨front, eof, hstart, heof, hordinary⟩ := exists_ofTokens_scan source base
  rw [hstart] at h
  exact (Reader.program_sound h heof).refersPlainly hordinary

theorem refersPlainly_of_readProgram {program : List Stmt}
    (h : (readProgram (scan source).tokens base).result = .ok program) :
    ∀ o ∈ Stmt.occurrencesAll program, o.Plain := by
  obtain ⟨c, hread, _⟩ := readProgram_eq_ok h
  exact refersPlainly_of_program hread

theorem refersPlainly_of_readPastFaults
    (h : errorsOf (readPastFaults (scan source).tokens base).result = []) :
    ∀ o ∈ Stmt.occurrencesAll (statementsOf (readPastFaults (scan source).tokens base).result),
      o.Plain := by
  unfold readPastFaults at h ⊢
  cases hread : Reader.recoveringProgram (readingFuel (scan source).tokens)
      (Cursor.ofTokens (scan source).tokens base) with
  | ok declarations c =>
      simp only [hread] at h
      exact refersPlainly_of_program (Reader.program_of_recoveringProgram hread h)
  | fault error c =>
      simp only [hread] at h
      cases h
  | exhausted => exact fun _ h => (List.not_mem_nil h).elim

end Source

namespace Session

/-- What happens when the program that a preparation gives is run. -/
def preparedMoments {ε : Type} (fuel : Nat) (preparation : Run ε Session (List Stmt))
    (s : Session) : List Moment :=
  match preparation s with
  | .ok program s₁ => Eval.programMoments fuel program s₁.state
  | .fault _ _ | .exhausted => []

/-- The sessions that arise by running source texts one after the other, whether they end well or
with faults, with all that has happened in them. -/
inductive Past : List Moment → Session → Prop where
  | initial {readings : Nat → Float} {sink : Sink} : Past [] (.initial (.ofClock readings) sink)
  | setEcho {h : List Moment} {s : Session} {echo : Bool} : Past h s → Past h (s.setEcho echo)
  | run {h : List Moment} {s s' : Session} {fuel : Nat} {source : String} : Past h s →
      (run fuel source).Ends s s' → Past (h ++ preparedMoments fuel (prepare source) s) s'
  | runLine {h : List Moment} {s s' : Session} {fuel : Nat} {source : String} : Past h s →
      (runLine fuel source).Ends s s' → Past (h ++ preparedMoments fuel (prepareLine source) s) s'

/-- Something happens in a session when a source text is run, whether the run ends or not, and all
that happened before it in the session is given. -/
inductive Occurs : List Moment → Moment → Prop where
  | run {h front back : List Moment} {m : Moment} {s : Session} {fuel : Nat} {source : String} :
      Past h s → preparedMoments fuel (prepare source) s = front ++ m :: back →
      Occurs (h ++ front) m
  | runLine {h front back : List Moment} {m : Moment} {s : Session} {fuel : Nat}
      {source : String} : Past h s →
      preparedMoments fuel (prepareLine source) s = front ++ m :: back → Occurs (h ++ front) m

/-- What happens when a session begins with a source text. -/
def firstMoments (fuel : Nat) (source : String) : List Moment :=
  preparedMoments fuel (prepare source) (initial (.ofClock fun _ => 0) .accepting)

theorem occurs_of_getElem? {fuel i : Nat} {source : String} {m : Moment}
    (hm : (firstMoments fuel source)[i]? = some m) :
    Occurs ((firstMoments fuel source).take i) m := by
  obtain ⟨hi, rfl⟩ := List.getElem?_eq_some_iff.mp hm
  have hsplit := List.take_append_drop i (firstMoments fuel source)
  rw [List.drop_eq_getElem_cons hi] at hsplit
  exact .run .initial hsplit.symm

theorem Past.reachable {h : List Moment} {s : Session} (hpast : Past h s) : s.Reachable := by
  induction hpast with
  | initial => exact .initial
  | setEcho _ ih => exact .setEcho ih
  | run _ hends ih => exact .run ih hends
  | runLine _ hends ih => exact .runLine ih hends

/-- What is on record is true between two programs. -/
abbrev Chronicled (h : List Moment) (s : Session) : Prop := Chronicle s.nextId h s.state

variable {h : List Moment} {s s' : Session} {program : List Stmt}

theorem Chronicled.later {n : NodeId} (hc : s.Chronicled h) (hle : s.nextId ≤ n) :
    Chronicled h ⟨s.state, n⟩ :=
  hc.follow hle ⟨rfl, rfl, .refl _, .refl _ _, Nat.le_refl _⟩ hc.current
    (fun _ he hnot => (hnot he).elim) (fun _ _ _ hv => Or.inl hv) (fun _ _ _ hv => Or.inl hv)
    hc.last

theorem chronicled_initial (readings : Nat → Float) (sink : Sink) :
    Chronicled [] (initial (.ofClock readings) sink) where
  grounded := (sound_initial readings sink).grounded
  current := Nat.zero_lt_one
  rooted {e} he hne := (hne (Nat.lt_one_iff.mp he)).elim
  later _ hm := (List.not_mem_nil hm).elim
  holds _ hm := (List.not_mem_nil hm).elim
  binding := by
    intro e x v hv
    simp only [initial, State.initial, Store.binding?_define, Store.binding?_addEnv] at hv
    by_cases hclock : 0 = e ∧ clock.name = x ∧ (Store.empty.addEnv none).HasEnv 0
    · rw [if_pos hclock] at hv
      cases hv
      trivial
    · rw [if_neg hclock] at hv
      cases hv
  field hv := nomatch hv
  last := trivial

/-- A program that is accepted adds to what is known of references. -/
theorem chronicled_accept {base : NodeId} (hs : Sound ⟨s.state, base⟩)
    (hprepared : Prepared base s.nextId program) (hc : Chronicled h ⟨s.state, base⟩) :
    (accept program).Ensures s (fun _ s' => s'.Chronicled h) (fun _ s' => s'.Chronicled h) := by
  have hle : base ≤ s.nextId := (hprepared.numbers []).le
  have hlater : s.Chronicled h := hc.later hle
  unfold accept
  cases hresolve : resolve program with
  | error e => exact .of_fault rfl hlater
  | ok distances =>
      obtain ⟨_, hdistances⟩ := resolve_eq_ok.mp hresolve
      have hagree := (recorded_union (hprepared.numbers []) hs.unknown).2
      rw [← hdistances] at hagree
      refine .of_ok rfl (hc.follow hle ⟨rfl, rfl, .refl _, hagree, Nat.le_refl _⟩ hc.current
        (fun _ he hnot => (hnot he).elim) (fun _ _ _ hv => Or.inl hv) (fun _ _ _ hv => Or.inl hv)
        hc.last)

theorem chronicled_prepare (source : String) (hs : s.Sound) (hc : s.Chronicled h) :
    (prepare source).Ensures s
      (fun program s' => s'.Chronicled h ∧ ∀ o ∈ Stmt.occurrencesAll program, o.Plain)
      (fun _ s' => s'.Chronicled h) := by
  apply ensures_prepare_of
  · exact fun _ _ _ => hc
  · exact fun _ _ _ => hc.later le_nextId_readProgram
  · intro program _ hread
    let s₁ : Session := ⟨s.state, (readProgram (scan source).tokens s.nextId).nextId⟩
    have haccept := chronicled_accept (s := s₁) hs (prepared_of_readProgram hread) hc
    exact haccept.mono (fun _ _ hend => ⟨hend, refersPlainly_of_readProgram hread⟩)
      (fun _ _ hend => hend)

theorem chronicled_prepareLine (source : String) (hs : s.Sound) (hc : s.Chronicled h) :
    (prepareLine source).Ensures s
      (fun program s' => s'.Chronicled h ∧ ∀ o ∈ Stmt.occurrencesAll program, o.Plain)
      (fun _ s' => s'.Chronicled h) := by
  apply ensures_prepareLine_of
  · exact fun _ => hc.later le_nextId_readPastFaults
  · intro _ hread
    let s₁ : Session := ⟨s.state, (readPastFaults (scan source).tokens s.nextId).nextId⟩
    have haccept := chronicled_accept (s := s₁) hs (prepared_of_readPastFaults hread) hc
    exact haccept.mono (fun _ _ hend => ⟨hend, refersPlainly_of_readPastFaults hread⟩)
      (fun _ _ hend => hend)

/-- What happens when a program is run is true when it goes on record, and so is what is on record
in the end. -/
theorem chronicled_evaluate (fuel : Nat) (hs : s.ReadyFor program) (hc : s.Chronicled h)
    (hplain : ∀ o ∈ Stmt.occurrencesAll program, o.Plain) :
    Told s.nextId h (Eval.programMoments fuel program s.state) ∧
      (evaluate (Eval.runProgram fuel program)).Ensures s
        (fun _ s' => s'.Chronicled (h ++ Eval.programMoments fuel program s.state))
        (fun _ s' => s'.Chronicled (h ++ Eval.programMoments fuel program s.state)) := by
  have htells := Eval.tells_runProgram fuel hc hs.formed ⟨hs.fits, hplain⟩
  exact ⟨htells.told, ensures_evaluate_of
    (htells.ends.mono (fun _ _ hend => hend.1) (fun _ _ hend => hend))⟩

/-- What a source text does that is prepared and then run. -/
theorem chronicled_bind {ε : Type} {fuel : Nat} {preparation : Run ε Session (List Stmt)}
    {m : List Stmt → Run ε Session Unit}
    (hprepare : preparation.Ensures s
      (fun program s' => s'.Chronicled h ∧ s'.ReadyFor program ∧
        ∀ o ∈ Stmt.occurrencesAll program, o.Plain)
      (fun _ s' => s'.Chronicled h))
    (hm : ∀ program s₁, s₁.ReadyFor program → s₁.Chronicled h →
      (∀ o ∈ Stmt.occurrencesAll program, o.Plain) →
      (m program).Ensures s₁
        (fun _ s' => s'.Chronicled (h ++ Eval.programMoments fuel program s₁.state))
        (fun _ s' => s'.Chronicled (h ++ Eval.programMoments fuel program s₁.state))) :
    (∃ n, Told n h (preparedMoments fuel preparation s)) ∧
      (preparation >>= m).Ensures s
        (fun _ s' => s'.Chronicled (h ++ preparedMoments fuel preparation s))
        (fun _ s' => s'.Chronicled (h ++ preparedMoments fuel preparation s)) := by
  unfold preparedMoments
  cases hend : preparation s with
  | ok program s₁ =>
      obtain ⟨hc, hready, hplain⟩ := hprepare.ok hend
      exact ⟨⟨_, (chronicled_evaluate fuel hready hc hplain).1⟩,
        .bind_of_ok hend (hm program s₁ hready hc hplain)⟩
  | fault e s₁ =>
      refine ⟨⟨0, trivial⟩, .bind_of_fault hend ?_⟩
      simp only [List.append_nil]
      exact hprepare.fault hend
  | exhausted => exact ⟨⟨0, trivial⟩, .bind_of_exhausted hend⟩

theorem chronicled_run (fuel : Nat) (source : String) (hs : s.Sound) (hc : s.Chronicled h) :
    (∃ n, Told n h (preparedMoments fuel (prepare source) s)) ∧
      (run fuel source).Ensures s
        (fun _ s' => s'.Chronicled (h ++ preparedMoments fuel (prepare source) s))
        (fun _ s' => s'.Chronicled (h ++ preparedMoments fuel (prepare source) s)) := by
  have hprepare := (chronicled_prepare source hs hc).and (ensures_prepare source hs)
  refine chronicled_bind (hprepare.mono ?_ (fun _ _ hend => hend.1)) ?_
  · exact fun _ _ hend => ⟨hend.1.1, hend.2, hend.1.2⟩
  · exact fun program s₁ hready hc hplain => (chronicled_evaluate fuel hready hc hplain).2

theorem chronicled_runLine (fuel : Nat) (source : String) (hs : s.Sound) (hc : s.Chronicled h) :
    (∃ n, Told n h (preparedMoments fuel (prepareLine source) s)) ∧
      (runLine fuel source).Ensures s
        (fun _ s' => s'.Chronicled (h ++ preparedMoments fuel (prepareLine source) s))
        (fun _ s' => s'.Chronicled (h ++ preparedMoments fuel (prepareLine source) s)) := by
  have hprepare := (chronicled_prepareLine source hs hc).and (ensures_prepareLine source hs)
  refine chronicled_bind (hprepare.mono ?_ (fun _ _ hend => hend.1)) ?_
  · exact fun _ _ hend => ⟨hend.1.1, hend.2, hend.1.2⟩
  · exact fun program s₁ hready hc hplain =>
      (chronicled_evaluate fuel hready hc hplain).2.mapError fun _ _ => id

/-- Between two source texts, what has happened in a session is true. -/
theorem Past.chronicled (hpast : Past h s) : s.Chronicled h := by
  induction hpast with
  | initial => exact chronicled_initial _ _
  | setEcho _ ih => exact ih.of_same rfl rfl rfl rfl (Nat.le_refl _) ih.current ih.last
  | run hpast hends ih => exact (chronicled_run _ _ hpast.reachable.sound ih).2.of_ends hends
  | runLine hpast hends ih =>
      exact (chronicled_runLine _ _ hpast.reachable.sound ih).2.of_ends hends

/-- Whatever happens in a session is true when it goes on record, with all that is there already. -/
theorem Occurs.exists_chronicle {m : Moment} (hm : Occurs h m) :
    ∃ n, Chronicle n (h ++ [m]) m.state := by
  cases hm with
  | run hpast hsplit =>
      obtain ⟨n, htold⟩ := (chronicled_run _ _ hpast.reachable.sound hpast.chronicled).1
      exact ⟨n, htold.of_split hsplit⟩
  | runLine hpast hsplit =>
      obtain ⟨n, htold⟩ := (chronicled_runLine _ _ hpast.reachable.sound hpast.chronicled).1
      exact ⟨n, htold.of_split hsplit⟩

end Session

end ScopedScript
