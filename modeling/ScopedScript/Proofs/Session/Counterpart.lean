import ScopedScript.Proofs.Relabelling.Evaluation
import ScopedScript.Proofs.Relabelling.Reading
import ScopedScript.Proofs.Session.Preparation
import ScopedScript.Proofs.Syntax.Sufficiency

/-!
# Sources that are run and sources that are typed in

A source text does the same whether it is run or typed in, though typing it in may report more
faults. Reading past the faults of a text gives out more numbers than reading up to the first of
them, so the references of later texts have other numbers in the two sessions. The states of the
sessions are the same but for these numbers, in every function that they hold.
-/

namespace ScopedScript

/-- The numbers below `n` are changed into numbers below `m`, each into another. -/
structure Renumbers (n m : Nat) (φ : Nat → Nat) : Prop where
  lt : ∀ id < n, φ id < m
  injOn : ∀ i < n, ∀ j < n, φ i = φ j → i = j

/-- A change of all numbers that goes on where `φ` ends: the numbers below `n` are changed as by
`φ`, and the others into numbers from `m` on. -/
structure Continues (n m : Nat) (φ ψ : Nat → Nat) : Prop where
  injective : Function.Injective ψ
  eq_of_lt : ∀ id < n, ψ id = φ id
  le_of_le : ∀ id, n ≤ id → m ≤ ψ id

/-- The numbers below `n` are changed as by `φ`, and those from `n` on into those from `m` on. -/
def onward (n m : Nat) (φ : Nat → Nat) (id : Nat) : Nat :=
  if id < n then φ id else m + (id - n)

section Numbers

variable {n m a b id : Nat} {φ ψ : Nat → Nat}

theorem onward_of_lt (h : id < n) : onward n m φ id = φ id := if_pos h

theorem onward_of_le (h : n ≤ id) : onward n m φ id = m + (id - n) := if_neg (Nat.not_lt_of_le h)

namespace Renumbers

theorem injective_onward (h : Renumbers n m φ) : Function.Injective (onward n m φ) := by
  intro i j hij
  by_cases hi : i < n <;> by_cases hj : j < n
  · rw [onward_of_lt hi, onward_of_lt hj] at hij
    exact h.injOn i hi j hj hij
  · have hlt := h.lt i hi
    rw [onward_of_lt hi, onward_of_le (Nat.le_of_not_lt hj)] at hij
    omega
  · have hlt := h.lt j hj
    rw [onward_of_le (Nat.le_of_not_lt hi), onward_of_lt hj] at hij
    omega
  · rw [onward_of_le (Nat.le_of_not_lt hi), onward_of_le (Nat.le_of_not_lt hj)] at hij
    omega

theorem continues_onward (h : Renumbers n m φ) : Continues n m φ (onward n m φ) where
  injective := h.injective_onward
  eq_of_lt _ := onward_of_lt
  le_of_le id hid := by
    rw [onward_of_le hid]
    exact Nat.le_add_right m _

/-- More numbers may be given out on both sides, if no fewer on the other. -/
theorem onward (h : Renumbers n m φ) (hab : a ≤ b) :
    Renumbers (n + a) (m + b) (onward n m φ) where
  lt id hid := by
    by_cases hlt : id < n
    · rw [onward_of_lt hlt]
      exact Nat.lt_of_lt_of_le (h.lt id hlt) (Nat.le_add_right m b)
    · rw [onward_of_le (Nat.le_of_not_lt hlt)]
      omega
  injOn _ _ _ _ hij := h.injective_onward hij

end Renumbers

theorem Continues.mono (h : Continues n m φ ψ) (hle : a ≤ m) : Continues n a φ ψ :=
  ⟨h.injective, h.eq_of_lt, fun id hid => Nat.le_trans hle (h.le_of_le id hid)⟩

theorem Continues.of_onward (h : Continues (n + a) (m + b) (onward n m φ) ψ) :
    Continues n m φ ψ where
  injective := h.injective
  eq_of_lt id hid := (h.eq_of_lt id (by omega)).trans (onward_of_lt hid)
  le_of_le id hid := by
    by_cases hlt : id < n + a
    · rw [h.eq_of_lt id hlt, onward_of_le hid]
      exact Nat.le_add_right m _
    · exact Nat.le_trans (Nat.le_add_right m b) (h.le_of_le id (Nat.le_of_not_lt hlt))

end Numbers

namespace Session

open Relabelling (renumber)

/-- The state of `t` is that of `s` with the numbers of references changed by `φ`. It does not
matter how `φ` is continued, because no number that has not been given out occurs. -/
structure Counterpart (φ : Nat → Nat) (s t : Session) : Prop where
  renumbers : Renumbers s.nextId t.nextId φ
  clock : ∃ readings, s.state.host = .ofClock readings
  carries : ∀ ψ, Continues s.nextId t.nextId φ ψ →
    (renumber ψ).Carries s.state.distances t.state.distances
  state_eq : ∀ ψ, Continues s.nextId t.nextId φ ψ →
    t.state = s.state.relabel (renumber ψ) t.state.distances

/-- The program `q` is `p` with the numbers of references changed like those of the states. -/
structure CounterpartFor (φ : Nat → Nat) (p q : List Stmt) (s t : Session) : Prop
    extends Counterpart φ s t where
  program_eq : ∀ ψ, Continues s.nextId t.nextId φ ψ → q = Stmt.relabelAll (renumber ψ) p

/-- How two computations of sessions end alike: well as `Q` says, or as `F` says with faults that
`E` relates. -/
def EndsAlike {ε ε' α β : Type} (E : ε → ε' → Prop) (Q : α → Session → β → Session → Prop)
    (F : Session → Session → Prop) : Outcome ε Session α → Outcome ε' Session β → Prop
  | .ok a s, .ok b t => Q a s b t
  | .fault e s, .fault e' t => E e e' ∧ F s t
  | .exhausted, .exhausted => True
  | _, _ => False

section EndsAlike

variable {ε ε' α α' β β' : Type} {E : ε → ε' → Prop} {Q : α → Session → β → Session → Prop}
variable {Q' : α' → Session → β' → Session → Prop} {F : Session → Session → Prop}
variable {m : Run ε Session α} {m' : Run ε' Session β} {s t : Session}

theorem EndsAlike.bind {f : α → Run ε Session α'} {f' : β → Run ε' Session β'}
    (h : EndsAlike E Q F (m s) (m' t))
    (hf : ∀ a s' b t', Q a s' b t' → EndsAlike E Q' F (f a s') (f' b t')) :
    EndsAlike E Q' F ((m >>= f) s) ((m' >>= f') t) := by
  rw [Run.bind_apply, Run.bind_apply]
  generalize m s = o at h
  generalize m' t = o' at h
  cases o <;> cases o' <;> first
    | exact hf _ _ _ _ h
    | exact h.elim
    | exact h

theorem EndsAlike.mono {Q₁ : α → Session → β → Session → Prop} {F₁ : Session → Session → Prop}
    (h : EndsAlike E Q F (m s) (m' t)) (hQ : ∀ a s' b t', Q a s' b t' → Q₁ a s' b t')
    (hF : ∀ s' t', F s' t' → F₁ s' t') : EndsAlike E Q₁ F₁ (m s) (m' t) := by
  generalize m s = o at h
  generalize m' t = o' at h
  cases o <;> cases o' <;> first
    | exact hQ _ _ _ _ h
    | exact ⟨h.1, hF _ _ h.2⟩
    | exact h

theorem EndsAlike.of_ends {s' t' : Session} (h : EndsAlike E (fun _ s _ t => F s t) F (m s) (m' t))
    (hs : m.Ends s s') (ht : m'.Ends t t') : F s' t' := by
  obtain ⟨a, hs⟩ | ⟨e, hs⟩ := hs <;> obtain ⟨b, ht⟩ | ⟨e', ht⟩ := ht <;> rw [hs, ht] at h
  · exact h
  · exact h.elim
  · exact h.elim
  · exact h.2

end EndsAlike

/-- A fault is the first of those that are reported. -/
def IsFirst (e : ProgramError) (errors : List ProgramError) : Prop := errors.head? = some e

variable {φ : Nat → Nat} {p q : List Stmt} {s t : Session}

/-- Numbers may be given out without any use, if no fewer on the other side. -/
theorem Counterpart.later (h : Counterpart φ s t) {n m : Nat} (hn : s.nextId ≤ n)
    (hm : t.nextId ≤ m) (hle : n - s.nextId ≤ m - t.nextId) :
    Counterpart (onward s.nextId t.nextId φ) ⟨s.state, n⟩ ⟨t.state, m⟩ := by
  obtain ⟨a, rfl⟩ := Nat.exists_eq_add_of_le hn
  obtain ⟨b, rfl⟩ := Nat.exists_eq_add_of_le hm
  exact ⟨h.renumbers.onward (by omega), h.clock, fun ψ hψ => h.carries ψ hψ.of_onward,
    fun ψ hψ => h.state_eq ψ hψ.of_onward⟩

/-- A program and its counterpart are accepted or refused alike. -/
theorem CounterpartFor.accept (h : CounterpartFor φ p q s t) :
    EndsAlike IsFirst (fun _ s' _ t' => CounterpartFor φ p q s' t') (Counterpart φ)
      (accept p s) ((accept q).mapError ([·]) t) := by
  have hcontinues := h.renumbers.continues_onward
  have hresolve := fun ψ (hψ : Continues s.nextId t.nextId φ ψ) =>
    resolve_relabelAll (g := renumber ψ) hψ.injective p
  unfold Run.mapError
  cases hp : resolve p with
  | ok D =>
      obtain ⟨D', hq⟩ : ∃ D', resolve q = .ok D' := by
        obtain ⟨_, D', _, hq, _⟩ | ⟨_, he, _⟩ := hresolve _ hcontinues
        · rw [← h.program_eq _ hcontinues] at hq
          exact ⟨D', hq⟩
        · rw [hp] at he
          cases he
      rw [accept_of_ok hp, accept_of_ok hq]
      refine ⟨⟨h.renumbers, h.clock, fun ψ hψ => ?_, fun ψ hψ => ?_⟩, h.program_eq⟩
      · obtain ⟨_, _, hp', hq', hcarries⟩ | ⟨_, he, _⟩ := hresolve ψ hψ
        · rw [← h.program_eq ψ hψ, hq] at hq'
          rw [hp] at hp'
          cases hp'
          cases hq'
          exact (h.carries ψ hψ).union hcarries
        · rw [hp] at he
          cases he
      · exact congrArg (fun state : State =>
          { state with distances := t.state.distances ∪ D' }) (h.state_eq ψ hψ)
  | error e =>
      have hq : resolve q = .error e := by
        obtain ⟨_, _, hp', _⟩ | ⟨_, he, hq⟩ := hresolve _ hcontinues
        · rw [hp] at hp'
          cases hp'
        · rw [hp] at he
          cases he
          rw [h.program_eq _ hcontinues, hq, ScopeError.relabel_renumber]
      rw [accept_of_error hp, accept_of_error hq]
      exact ⟨rfl, h.toCounterpart⟩

/-- States in which the same is known as before are counterparts if they are the same but for the
numbers of references. -/
theorem Counterpart.of_states (h : Counterpart φ s t) {readings : Nat → Float}
    {state state' : State} (hdistances : state.distances = s.state.distances)
    (hclock : state.host = .ofClock readings)
    (hstates : ∀ ψ, Continues s.nextId t.nextId φ ψ →
      state' = state.relabel (renumber ψ) t.state.distances) :
    Counterpart φ ⟨state, s.nextId⟩ ⟨state', t.nextId⟩ := by
  have hdistances' : state'.distances = t.state.distances := by
    rw [hstates _ h.renumbers.continues_onward]
    rfl
  refine ⟨h.renumbers, ⟨readings, hclock⟩, fun ψ hψ => ?_, fun ψ hψ => ?_⟩
  · rw [hdistances, hdistances']
    exact h.carries ψ hψ
  · rw [hdistances']
    exact hstates ψ hψ

/-- A program and its counterpart are evaluated alike. -/
theorem CounterpartFor.evaluate (h : CounterpartFor φ p q s t) (fuel : Nat) :
    EndsAlike IsFirst (fun _ s' _ t' => Counterpart φ s' t') (Counterpart φ)
      (evaluate (Eval.runProgram fuel p) s)
      ((evaluate (Eval.runProgram fuel q)).mapError ([·]) t) := by
  obtain ⟨readings, hclock⟩ := h.clock
  have hruns := fun ψ (hψ : Continues s.nextId t.nextId φ ψ) =>
    Eval.relabels_runProgram (S := ⟨_, _, h.carries ψ hψ, readings⟩) fuel p s.state ⟨rfl, hclock⟩
  have heq : ∀ ψ, Continues s.nextId t.nextId φ ψ → Eval.runProgram fuel q t.state =
      (Eval.runProgram fuel p s.state).map (Halt.relabel (renumber ψ))
        (State.relabel (renumber ψ) t.state.distances) id := by
    intro ψ hψ
    have hrun := (hruns ψ hψ).1
    rw [← h.program_eq ψ hψ] at hrun
    exact (congrArg _ (h.state_eq ψ hψ)).trans hrun
  have hcontinues := h.renumbers.continues_onward
  have hholds := (hruns _ hcontinues).2
  have hfirst := heq _ hcontinues
  unfold Run.mapError Session.evaluate
  cases hrun : Eval.runProgram fuel p s.state with
  | ok _ state =>
      obtain ⟨hdistances, hclock'⟩ := hholds.ok hrun
      rw [hrun] at hfirst heq
      simp only [hfirst, Outcome.map]
      refine h.of_states hdistances hclock' fun ψ hψ => ?_
      have hother := heq ψ hψ
      rw [hfirst] at hother
      injection hother
  | fault reason state =>
      obtain ⟨hdistances, hclock'⟩ := hholds.fault hrun
      rw [hrun] at hfirst heq
      simp only [hfirst, Outcome.map, Halt.relabel_renumber]
      refine ⟨rfl, h.of_states hdistances hclock' fun ψ hψ => ?_⟩
      have hother := heq ψ hψ
      rw [hfirst] at hother
      injection hother
  | exhausted =>
      rw [hrun] at hfirst
      simp only [hfirst, Outcome.map]
      trivial

/-- Sessions in which numbers were given out differently, but which are otherwise the same. -/
def Counterparts (s t : Session) : Prop := ∃ φ, Counterpart φ s t

/-- A program that is read from the same text in both sessions is its own counterpart. -/
theorem Counterpart.forProgram (h : Counterpart φ s t) {a : NodeId} {program : List Stmt}
    (hprepared : Prepared 0 a program) :
    CounterpartFor (onward s.nextId t.nextId φ)
      (Stmt.relabelAll (renumber (· + s.nextId)) program)
      (Stmt.relabelAll (renumber (· + t.nextId)) program)
      ⟨s.state, a + s.nextId⟩ ⟨t.state, a + t.nextId⟩ := by
  refine ⟨h.later (Nat.le_add_left _ _) (Nat.le_add_left _ _) ?_, fun ψ hψ => ?_⟩
  · rw [Nat.add_sub_cancel, Nat.add_sub_cancel]
  · refine (Stmt.relabelAll_relabelAll (p := (· < a)) ⟨fun id hid => ?_, fun _ => rfl⟩ program
      fun o ho => ?_).symm
    · have hnumber := hψ.eq_of_lt (id + s.nextId) (Nat.add_lt_add_right hid _)
      rw [onward_of_le (Nat.le_add_left _ _), Nat.add_sub_cancel] at hnumber
      exact hnumber.trans (Nat.add_comm _ _)
    · exact ((distinctWithin_idsAll (hprepared.numbers [])).within o.id
        (List.mem_map_of_mem ho)).2

/-- A source text is prepared alike by being run and by being typed in: the same program is
accepted, but for the numbers of its references, or the first fault is the same. -/
theorem Counterpart.prepare (h : Counterpart φ s t) (source : String) :
    EndsAlike IsFirst (fun p s' q t' => ∃ φ', CounterpartFor φ' p q s' t') Counterparts
      (prepare source s) (prepareLine source t) := by
  have hle : t.nextId ≤ (readPastFaults (scan source).tokens t.nextId).nextId :=
    le_nextId_readPastFaults
  cases hscan : (scan source).errors with
  | cons error errors =>
      rw [prepare_of_lex hscan, prepareLine_of_faults _ rfl]
      · rw [hscan]
        exact ⟨rfl, _, h.later (Nat.le_refl _) hle (by omega)⟩
      · simp [hscan]
  | nil =>
      have hs := readProgram_eq_renumber (scan source).tokens s.nextId
      have ht := readProgram_eq_renumber (scan source).tokens t.nextId
      cases hread : (readProgram (scan source).tokens 0).result with
      | error error =>
          rw [hread] at hs ht
          have hread : (readProgram (scan source).tokens t.nextId).result = .error error := by
            rw [ht]
            rfl
          obtain ⟨es, herrors, hmore⟩ := readPastFaults_of_readProgram_error hread
          rw [prepare_of_parse hscan (by rw [hs]; rfl), prepareLine_of_faults (List.cons_ne_nil _ _)
            (by rw [hscan, herrors]; rfl)]
          refine ⟨rfl, _, h.later ?_ hle ?_⟩
          · rw [hs]
            exact Nat.le_add_left _ _
          · rw [ht] at hmore
            rw [hs]
            exact (Nat.add_sub_cancel _ _).trans_le (Nat.le_sub_of_add_le hmore)
      | ok program =>
          have hprepared := prepared_of_readProgram hread
          rw [hread] at hs ht
          have hp : (readProgram (scan source).tokens s.nextId).result =
              .ok (Stmt.relabelAll (renumber (· + s.nextId)) program) := by
            rw [hs]
            rfl
          have hq : (readProgram (scan source).tokens t.nextId).result =
              .ok (Stmt.relabelAll (renumber (· + t.nextId)) program) := by
            rw [ht]
            rfl
          obtain ⟨herrors, hstatements, hnextId⟩ := readPastFaults_of_readProgram_ok hq
          rw [prepare_of_program hscan hp, prepareLine_of_program hscan herrors, hstatements,
            hnextId, hs, ht]
          rw [map_eq_pure_bind, map_eq_pure_bind]
          refine EndsAlike.bind ((h.forProgram hprepared).accept.mono (fun _ _ _ _ h => h) ?_) ?_
          · exact fun _ _ h => ⟨_, h⟩
          · exact fun _ _ _ _ h => ⟨_, h⟩

/-- A source text is run and typed in alike. -/
theorem Counterparts.run (h : Counterparts s t) (fuel : Nat) (source : String) :
    EndsAlike IsFirst (fun _ s' _ t' => Counterparts s' t') Counterparts
      (run fuel source s) (runLine fuel source t) := by
  obtain ⟨φ, h⟩ := h
  refine (h.prepare source).bind fun p s' q t' hprepared => ?_
  obtain ⟨φ', hprepared⟩ := hprepared
  exact (hprepared.evaluate fuel).mono (fun _ _ _ _ h => ⟨φ', h⟩) (fun _ _ h => ⟨φ', h⟩)

/-- Two sessions side by side, which begin alike: in the first one sources are run, in the second
one the same sources are typed in, and the printing of values is switched on and off in both. -/
inductive SideBySide : Session → Session → Prop where
  | initial {readings : Nat → Float} {sink : Sink} :
      SideBySide (.initial (.ofClock readings) sink) (.initial (.ofClock readings) sink)
  | setEcho {s t : Session} {echo : Bool} : SideBySide s t →
      SideBySide (s.setEcho echo) (t.setEcho echo)
  | source {s t s' t' : Session} {fuel : Nat} {source : String} : SideBySide s t →
      (run fuel source).Ends s s' → (runLine fuel source).Ends t t' → SideBySide s' t'

theorem counterpart_initial {readings : Nat → Float} {sink : Sink} :
    Counterpart id (.initial (.ofClock readings) sink) (.initial (.ofClock readings) sink) where
  renumbers := ⟨fun _ hid => hid, fun _ _ _ _ hij => hij⟩
  clock := ⟨_, rfl⟩
  carries _ _ := .empty
  state_eq _ _ := (State.relabel_initial _ _).symm

theorem Counterpart.setEcho (h : Counterpart φ s t) {echo : Bool} :
    Counterpart φ (s.setEcho echo) (t.setEcho echo) where
  renumbers := h.renumbers
  clock := h.clock
  carries := h.carries
  state_eq ψ hψ := congrArg (fun state : State => { state with echo := echo }) (h.state_eq ψ hψ)

theorem SideBySide.counterparts (h : SideBySide s t) : Counterparts s t := by
  induction h with
  | initial => exact ⟨id, counterpart_initial⟩
  | setEcho _ ih =>
      obtain ⟨φ, h⟩ := ih
      exact ⟨φ, h.setEcho⟩
  | source _ hs ht ih => exact (ih.run _ _).of_ends hs ht

/-- Two sessions have printed the same, and show the same last value. -/
structure ShowsAlike (s t : Session) : Prop where
  sink_eq : t.state.sink = s.state.sink
  lastValue_eq : t.state.lastValue.render = s.state.lastValue.render

theorem Counterparts.showsAlike (h : Counterparts s t) : ShowsAlike s t := by
  obtain ⟨φ, h⟩ := h
  have hstate := h.state_eq _ h.renumbers.continues_onward
  constructor
  · rw [hstate]
    rfl
  · rw [hstate]
    exact s.state.lastValue.render_relabel

/-- Running source texts and typing them in agree. At every step, whatever has been run before and
however it ended, the two sessions have printed the same and show the same last value; a text runs
well in one of them just if it does in the other, and otherwise its fault when it is run is the
first of those when it is typed in. This is said for every amount of fuel, of which both need the
same. -/
theorem endsAlike_of_sideBySide (h : SideBySide s t) : ShowsAlike s t ∧ ∀ fuel source,
    EndsAlike IsFirst (fun _ s' _ t' => ShowsAlike s' t') ShowsAlike
      (run fuel source s) (runLine fuel source t) := by
  refine ⟨h.counterparts.showsAlike, fun fuel source => ?_⟩
  exact (h.counterparts.run fuel source).mono (fun _ _ _ _ h => h.showsAlike)
    fun _ _ h => h.showsAlike

/-- For example, of a text that declares a function, after one with two faults, which leaves the two
sessions with different numbers. -/
theorem endsAlike_of_faults : ∃ s t : Session, s.nextId = 1 ∧ t.nextId = 2 ∧ SideBySide s t ∧
    EndsAlike IsFirst (fun _ s' _ t' => ShowsAlike s' t') ShowsAlike
      (run 9 "fun f(x) { return x; }" s) (runLine 9 "fun f(x) { return x; }" t) := by
  have hrun : run 9 "a b; c d;" (initial (.ofClock fun _ => 0) .accepting) =
      .fault (.parse ⟨.noExpressionEnd, ⟨.identifier, "b", 1⟩, 5⟩)
        ⟨.initial (.ofClock fun _ => 0) .accepting, 1⟩ := by
    cbv
  have hline : runLine 9 "a b; c d;" (initial (.ofClock fun _ => 0) .accepting) =
      .fault [.parse ⟨.noExpressionEnd, ⟨.identifier, "b", 1⟩, 5⟩,
        .parse ⟨.noExpressionEnd, ⟨.identifier, "d", 1⟩, 2⟩]
        ⟨.initial (.ofClock fun _ => 0) .accepting, 2⟩ := by
    cbv
  have hsides := SideBySide.source .initial (.inr ⟨_, hrun⟩) (.inr ⟨_, hline⟩)
  exact ⟨_, _, rfl, rfl, hsides, (endsAlike_of_sideBySide hsides).2 9 _⟩

end Session

end ScopedScript
