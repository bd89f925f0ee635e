import ScopedScript.Proofs.Session.Agreement
import ScopedScript.Proofs.Session.Atomicity
import ScopedScript.Proofs.Syntax.Identities

/-!
# References keep what is known of them

The numbers of references are given out once in a session. So what is found for a reference when
its program is accepted is what is known of it ever after, also when it is that it has no distance.
-/

namespace ScopedScript.Session

/-- The sessions that a session leads to by running source texts one after the other, whether they
end well or with faults, and by switching the printing of values on and off. -/
inductive LeadsTo (s : Session) : Session → Prop where
  | refl : LeadsTo s s
  | setEcho {t : Session} {echo : Bool} : LeadsTo s t → LeadsTo s (t.setEcho echo)
  | run {t t' : Session} {fuel : Nat} {source : String} : LeadsTo s t →
      (run fuel source).Ends t t' → LeadsTo s t'
  | runLine {t t' : Session} {fuel : Nat} {source : String} : LeadsTo s t →
      (runLine fuel source).Ends t t' → LeadsTo s t'

variable {s s' t : Session} {source : String} {program : List Stmt} {distances : Distances}

theorem Reachable.leadsTo (h : s.Reachable) (ht : s.LeadsTo t) : t.Reachable := by
  induction ht with
  | refl => exact h
  | setEcho _ ih => exact ih.setEcho
  | run _ hends ih => exact ih.run hends
  | runLine _ hends ih => exact ih.runLine hends

/-- A later session: no number has been given back, and the same is known of the references that
had one. -/
structure Remembers (s s' : Session) : Prop where
  nextId_le : s.nextId ≤ s'.nextId
  agree : s.state.distances.Agree s.nextId s'.state.distances

namespace Remembers

variable {s₁ s₂ s₃ : Session}

theorem refl (s : Session) : s.Remembers s := ⟨Nat.le_refl _, .refl _ _⟩

theorem trans (h₁ : s₁.Remembers s₂) (h₂ : s₂.Remembers s₃) : s₁.Remembers s₃ where
  nextId_le := Nat.le_trans h₁.nextId_le h₂.nextId_le
  agree id hid := (h₂.agree id (Nat.lt_of_lt_of_le hid h₁.nextId_le)).trans (h₁.agree id hid)

theorem of_untouched (h : s₁.Untouched s₂) : s₁.Remembers s₂ := by
  refine ⟨h.nextId_le, fun id _ => ?_⟩
  rw [h.state_eq]

end Remembers

/-- A session with the same numbers, which knows the same of references. -/
structure KnowsAlike (s s' : Session) : Prop where
  nextId_eq : s'.nextId = s.nextId
  distances_eq : s'.state.distances = s.state.distances

/-- A program has been read, and was resolved if it can be: its references have new numbers, each
its own, and what is known of them is what the resolver found, or that it found nothing. -/
structure Settles (s : Session) (program : List Stmt) (s' : Session) : Prop where
  remembers : s.Remembers s'
  distinct : DistinctWithin s.nextId s'.nextId (Stmt.idsAll program)
  known : ∀ distances, resolve program = .ok distances →
    ∀ id ∈ Stmt.idsAll program, s'.state.distances[id]? = distances[id]?

/-- What is known of a settled program is known ever after. -/
theorem Settles.later {s₁ s₂ : Session} (h : s.Settles program s₁) (hlater : s₁.Remembers s₂)
    (hresolve : resolve program = .ok distances) {id : NodeId} (hid : id ∈ Stmt.idsAll program) :
    s₂.state.distances[id]? = distances[id]? :=
  (hlater.agree id (h.distinct.within id hid).2).trans (h.known distances hresolve id hid)

/-- A program that is refused is settled, as it is not resolved; one that is accepted becomes
known. -/
theorem ensures_accept_settles {n : NodeId} (hs : s.Sound)
    (hprepared : Prepared s.nextId n program) :
    (accept program).Ensures ⟨s.state, n⟩
      (fun _ s' => s.Settles program s') (fun _ s' => s.Settles program s') := by
  have hnumbers := hprepared.numbers []
  have hdistinct := distinctWithin_idsAll hnumbers
  unfold accept
  cases hresolve : resolve program with
  | error e =>
      refine .of_fault rfl ⟨⟨hnumbers.le, .refl _ _⟩, hdistinct, ?_⟩
      intro distances h
      rw [hresolve] at h
      cases h
  | ok distances =>
      obtain ⟨_, hagree⟩ := recorded_union hnumbers hs.unknown
      obtain ⟨_, hdistances⟩ := resolve_eq_ok.mp hresolve
      rw [← hdistances] at hagree
      refine .of_ok rfl ⟨⟨hnumbers.le, hagree⟩, hdistinct, ?_⟩
      intro distances' h id hid
      rw [hresolve] at h
      cases h
      rw [Std.TreeMap.getElem?_union, hs.unknown id (hdistinct.within id hid).1, Option.or_none]

/-- What a source text that is run leaves of what is known: the program that is read from it, if
there is one, is settled. -/
structure SettlesText (s : Session) (source : String) (s' : Session) : Prop where
  remembers : s.Remembers s'
  settles : ∀ program, (scan source).errors = [] →
    (readProgram (scan source).tokens s.nextId).result = .ok program → s.Settles program s'

/-- What a typed-in source text leaves of what is known: the statements that are read from it past
its faults have numbers of their own, and if it has no faults they are settled. -/
structure SettlesLine (s : Session) (source : String) (s' : Session) : Prop where
  remembers : s.Remembers s'
  distinct : DistinctWithin s.nextId s'.nextId
    (Stmt.idsAll (statementsOf (readPastFaults (scan source).tokens s.nextId).result))
  settles : (scan source).errors = [] →
    errorsOf (readPastFaults (scan source).tokens s.nextId).result = [] →
    s.Settles (statementsOf (readPastFaults (scan source).tokens s.nextId).result) s'

namespace KnowsAlike

variable {s₁ s₂ : Session}

theorem remembers (halike : s₁.KnowsAlike s₂) (h : s.Remembers s₁) : s.Remembers s₂ := by
  constructor
  · rw [halike.nextId_eq]
    exact h.nextId_le
  · rw [halike.distances_eq]
    exact h.agree

theorem settles (halike : s₁.KnowsAlike s₂) (h : s.Settles program s₁) :
    s.Settles program s₂ := by
  refine ⟨halike.remembers h.remembers, ?_, ?_⟩
  · rw [halike.nextId_eq]
    exact h.distinct
  · rw [halike.distances_eq]
    exact h.known

theorem settlesText (halike : s₁.KnowsAlike s₂) (h : s.SettlesText source s₁) :
    s.SettlesText source s₂ where
  remembers := halike.remembers h.remembers
  settles program hscan hread := halike.settles (h.settles program hscan hread)

theorem settlesLine (halike : s₁.KnowsAlike s₂) (h : s.SettlesLine source s₁) :
    s.SettlesLine source s₂ := by
  refine ⟨halike.remembers h.remembers, ?_, fun hscan hread => ?_⟩
  · rw [halike.nextId_eq]
    exact h.distinct
  · exact halike.settles (h.settles hscan hread)

end KnowsAlike

theorem ensures_prepare_settles (source : String) (hs : s.Sound) :
    (prepare source).Ensures s (fun _ s' => s.SettlesText source s')
      (fun _ s' => s.SettlesText source s') := by
  apply ensures_prepare_of
  · intro error errors hscan
    refine ⟨.refl s, fun program hnone _ => ?_⟩
    rw [hscan] at hnone
    cases hnone
  · intro error _ hread
    refine ⟨.of_untouched ⟨rfl, le_nextId_readProgram⟩, fun program _ hread' => ?_⟩
    rw [hread] at hread'
    cases hread'
  · intro program hscan hread
    have hsettles {s' : Session} (h : s.Settles program s') : s.SettlesText source s' := by
      refine ⟨h.remembers, fun program' _ hread' => ?_⟩
      rw [hread] at hread'
      cases hread'
      exact h
    exact (ensures_accept_settles hs (prepared_of_readProgram hread)).mono
      (fun _ _ => hsettles) (fun _ _ => hsettles)

theorem ensures_prepareLine_settles (source : String) (hs : s.Sound) :
    (prepareLine source).Ensures s (fun _ s' => s.SettlesLine source s')
      (fun _ s' => s.SettlesLine source s') := by
  apply ensures_prepareLine_of
  · intro hfaults
    refine ⟨.of_untouched ⟨rfl, le_nextId_readPastFaults⟩, distinctWithin_readPastFaults, ?_⟩
    intro hscan hread
    simp [hscan, hread] at hfaults
  · intro _ hread
    have hsettles {s' : Session} (h : s.Settles
        (statementsOf (readPastFaults (scan source).tokens s.nextId).result) s') :
        s.SettlesLine source s' := ⟨h.remembers, h.distinct, fun _ _ => h⟩
    exact (ensures_accept_settles hs (prepared_of_readPastFaults hread)).mono
      (fun _ _ => hsettles) (fun _ _ => hsettles)

/-- What is evaluated changes neither the numbers nor the distances of a session. -/
theorem ensures_evaluate_alike (fuel : Nat) (program : List Stmt) (s : Session) :
    (evaluate (Eval.runProgram fuel program)).Ensures s (fun _ s' => s.KnowsAlike s')
      (fun _ s' => s.KnowsAlike s') := by
  refine ensures_evaluate_of ((Eval.keepsPlace_runProgram fuel program s.state).mono ?_ ?_)
  · intro _ state h
    exact ⟨rfl, h.distances_eq⟩
  · intro _ state h
    exact ⟨rfl, h.distances_eq⟩

theorem ensures_run_settles (fuel : Nat) (source : String) (hs : s.Sound) :
    (run fuel source).Ensures s (fun _ s' => s.SettlesText source s')
      (fun _ s' => s.SettlesText source s') := by
  refine (ensures_prepare_settles source hs).bind fun program s₁ h => ?_
  exact (ensures_evaluate_alike fuel program s₁).mono
    (fun _ _ halike => halike.settlesText h) (fun _ _ halike => halike.settlesText h)

theorem ensures_runLine_settles (fuel : Nat) (source : String) (hs : s.Sound) :
    (runLine fuel source).Ensures s (fun _ s' => s.SettlesLine source s')
      (fun _ s' => s.SettlesLine source s') := by
  refine (ensures_prepareLine_settles source hs).bind fun program s₁ h => ?_
  refine ((ensures_evaluate_alike fuel program s₁).mono (fun _ _ halike => halike.settlesLine h)
    (fun _ _ halike => halike.settlesLine h)).mapError fun _ _ hline => hline

/-- What is known of references is known in all sessions that follow. -/
theorem remembers_of_leadsTo (hs : s.Reachable) (h : s.LeadsTo t) : s.Remembers t := by
  induction h with
  | refl => exact .refl s
  | setEcho _ ih => exact ⟨ih.nextId_le, ih.agree⟩
  | run hbefore hends ih =>
      have hsound := (hs.leadsTo hbefore).sound
      exact ih.trans ((ensures_run_settles _ _ hsound).of_ends hends).remembers
  | runLine hbefore hends ih =>
      have hsound := (hs.leadsTo hbefore).sound
      exact ih.trans ((ensures_runLine_settles _ _ hsound).of_ends hends).remembers

/-- References never share a number. Nothing is known of numbers that have not been given out, and
what is known of one that has been is known in all sessions that follow, in which no number is given
back. The references of a program that is read from a source text, and those that are left of a text
with faults, have numbers of their own, all given out by the reading of this text; and if the
program is accepted, then what the resolver found for a reference, or that it found nothing, is what
is known of it in all sessions that follow. -/
theorem identities_of_reachable (h : s.Reachable) :
    (∀ id, s.nextId ≤ id → s.state.distances[id]? = none) ∧
    (∀ t, s.LeadsTo t → s.nextId ≤ t.nextId ∧
      ∀ id < s.nextId, t.state.distances[id]? = s.state.distances[id]?) ∧
    (∀ fuel source s', (run fuel source).Ends s s' →
      ∀ program, (scan source).errors = [] →
        (readProgram (scan source).tokens s.nextId).result = .ok program →
        DistinctWithin s.nextId s'.nextId (Stmt.idsAll program) ∧
        ∀ distances, resolve program = .ok distances → ∀ t, s'.LeadsTo t →
          ∀ id ∈ Stmt.idsAll program, t.state.distances[id]? = distances[id]?) ∧
    ∀ fuel source s', (runLine fuel source).Ends s s' →
      ∀ declarations, (readPastFaults (scan source).tokens s.nextId).result = declarations →
        DistinctWithin s.nextId s'.nextId (Stmt.idsAll (statementsOf declarations)) ∧
        ((scan source).errors = [] → errorsOf declarations = [] →
          ∀ distances, resolve (statementsOf declarations) = .ok distances → ∀ t, s'.LeadsTo t →
            ∀ id ∈ Stmt.idsAll (statementsOf declarations),
              t.state.distances[id]? = distances[id]?) := by
  refine ⟨h.sound.unknown, fun t ht => ?_, fun fuel source s' hends program hscan hread => ?_,
    fun fuel source s' hends declarations hread => ?_⟩
  · have hremembers := remembers_of_leadsTo h ht
    exact ⟨hremembers.nextId_le, hremembers.agree⟩
  · have hsettles := ((ensures_run_settles fuel source h.sound).of_ends hends).settles
      program hscan hread
    refine ⟨hsettles.distinct, fun distances hresolve t ht id hid => ?_⟩
    exact hsettles.later (remembers_of_leadsTo (h.run hends) ht) hresolve hid
  · subst hread
    have hline := (ensures_runLine_settles fuel source h.sound).of_ends hends
    refine ⟨hline.distinct, fun hscan hread distances hresolve t ht id hid => ?_⟩
    exact (hline.settles hscan hread).later (remembers_of_leadsTo (h.runLine hends) ht) hresolve hid

/-- For example, of the name that is read in a block inside the one that declares it. -/
theorem identities_of_block :
    ∃ s', run 9 "{ var a; { print a; } }" (initial (.ofClock fun _ => 0) .accepting) = .ok () s' ∧
      DistinctWithin 0 s'.nextId [0] ∧ s'.state.distances[0]? = some 1 := by
  let s₀ := initial (.ofClock fun _ => 0) .accepting
  have hread : (readProgram (scan "{ var a; { print a; } }").tokens 0).result =
      .ok [.block [.var ⟨"a", 1⟩ none, .block [.print (.name ⟨0, ⟨"a", 1⟩⟩)]]] := by cbv
  have hscan : (scan "{ var a; { print a; } }").errors = [] := by cbv
  have hresolve : resolve [.block [.var ⟨"a", 1⟩ none, .block [.print (.name ⟨0, ⟨"a", 1⟩⟩)]]] =
      .ok ((∅ : Distances).insert 0 1) := by cbv
  have hrun : ∃ s', run 9 "{ var a; { print a; } }" s₀ = .ok () s' := ⟨_, by cbv⟩
  obtain ⟨s', hrun⟩ := hrun
  obtain ⟨_, _, h, _⟩ := identities_of_reachable (s := s₀) .initial
  obtain ⟨hdistinct, hknown⟩ := h 9 _ s' (.inl ⟨(), hrun⟩) _ hscan hread
  exact ⟨s', hrun, hdistinct, hknown _ hresolve s' .refl 0 (by decide)⟩

end ScopedScript.Session
