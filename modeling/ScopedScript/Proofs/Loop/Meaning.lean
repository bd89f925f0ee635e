import ScopedScript.Proofs.Loop.Direct
import ScopedScript.Proofs.Loop.Simulation

/-!
# Loops mean what they abbreviate

From coupled states, the statement that a `for` abbreviates ends as the loop does that is run
directly. They differ in the scopes that only one of them has, and nothing is bound in these: with a
step, the statement has one for each turn, and without an initial statement, the loop has one of its
own.
-/

namespace ScopedScript

namespace ForLoop

/-- The scopes around the parts of a loop that come in turn. -/
def layers (loop : ForLoop) (P : Layers) : Layers :=
  match loop.initial with
  | some _ => .both :: P
  | none => .second :: P

/-- The scopes around the body of a loop and its step. -/
def turnLayers (loop : ForLoop) (P : Layers) : Layers :=
  match loop.step with
  | some _ => .first :: P
  | none => P

/-- Both runs find the same scopes for the references of the parts that come in turn. -/
structure TurnsAligned (T : Tables) (node : NodeId → NodeId) (P : Layers) (loop : ForLoop) :
    Prop where
  condition : Expr.AlignedOption T node P loop.condition
  body : loop.body.Aligned T node (loop.turnLayers P)
  step : Expr.AlignedOption T node (loop.turnLayers P) loop.step

/-- Both runs find the same scopes for the references of a loop. -/
structure Aligned (T : Tables) (node : NodeId → NodeId) (P : Layers) (loop : ForLoop) :
    Prop where
  initial : ∀ s ∈ loop.initial, s.Aligned T node (.both :: P)
  turns : loop.TurnsAligned T node (loop.layers P)

section OfFound

variable {T : Tables} {node : NodeId → NodeId} {P : Layers} {Γ Γ' : Scopes}

theorem turnsAligned_of_found (loop : ForLoop) (hpaired : P.Paired Γ Γ') (hopen : Γ.Open)
    (hopen' : Γ'.Open) (hformed : loop.repetition.Formed) (hbody : loop.body.declares = false)
    (h : T.Found node (loop.repetition.records Γ) (loop.turnRecords Γ')) :
    loop.TurnsAligned T node P := by
  obtain ⟨initial, condition, step, body⟩ := loop
  have hnone : body.declares = true → ∀ P : Layers, P.Meet := by
    intro hdeclares
    rw [hbody] at hdeclares
    cases hdeclares
  have hcondition : (Expr.records Γ (condition.getD (.literal (.bool true)))) =
      Expr.recordsOption Γ condition := by
    cases condition <;> rfl
  obtain ⟨_, hturn⟩ := hformed
  unfold repetition Stmt.records at h
  rw [hcondition] at h
  obtain ⟨hfoundCondition, hfoundTurn⟩ := h.append
  have hcondition := Expr.alignedOption_of_found hpaired hopen.nested hopen'.nested hfoundCondition
  cases step with
  | none =>
      rw [Expr.recordsOption, List.append_nil] at hfoundTurn
      refine ⟨hcondition, Stmt.aligned_of_found body hpaired hopen hopen' hturn (hnone · P)
        hfoundTurn, ?_⟩
      rintro _ ⟨⟩
  | some step =>
      obtain ⟨hbodyFormed, _⟩ := hturn
      have hinner : Layers.Paired (.first :: P) ([] :: Γ) Γ' := .first hpaired
      have hopenInner : Scopes.Open ([] :: Γ) := hopen.toStable.block
      obtain ⟨hfoundBody, hfoundStep⟩ := hfoundTurn.append
      -- the body declares nothing, so the step stands in the same scopes
      rw [body.after_eq_self hbodyFormed hbody] at hfoundStep
      change T.Found node (step.records ([] :: Γ) ++ []) _ at hfoundStep
      rw [List.append_nil] at hfoundStep
      refine ⟨hcondition, Stmt.aligned_of_found body hinner hopenInner hopen' hbodyFormed
        (hnone · _) hfoundBody, ?_⟩
      exact Expr.alignedOption_of_found hinner hopenInner.nested hopen'.nested hfoundStep

/-- If both runs know what is found in the scopes of a loop, as each of them has these, they find
the same scopes for its references. -/
theorem aligned_of_found (loop : ForLoop) (hpaired : P.Paired Γ Γ') (hopen : Γ.Open)
    (hopen' : Γ'.Open) (hformed : loop.stmt.Formed) (hbody : loop.body.declares = false)
    (h : T.Found node (loop.stmt.records Γ) (loop.records Γ')) : loop.Aligned T node P := by
  obtain ⟨initial, condition, step, body⟩ := loop
  cases initial with
  | none =>
      refine ⟨?_, turnsAligned_of_found _ (.second hpaired) hopen hopen'.toStable.block hformed
        hbody h⟩
      rintro _ ⟨⟩
  | some initial =>
      obtain ⟨hinitialFormed, hrepetition, _⟩ := hformed
      have hinner : Layers.Paired (.both :: P) ([] :: Γ) ([] :: Γ') := .both hpaired
      have hopenInner : Scopes.Open ([] :: Γ) := hopen.toStable.block
      have hopenInner' : Scopes.Open ([] :: Γ') := hopen'.toStable.block
      obtain ⟨hfoundInitial, hfoundRest⟩ := h.append
      rw [Stmt.recordsAll, Stmt.recordsAll, List.append_nil] at hfoundRest
      constructor
      · rintro _ ⟨⟩
        exact Stmt.aligned_of_found initial hinner hopenInner hopenInner' hinitialFormed
          (fun _ => trivial) hfoundInitial
      · exact turnsAligned_of_found _ (hinner.after trivial initial)
          (initial.open_after hinitialFormed hopenInner)
          (initial.open_after hinitialFormed hopenInner') hrepetition hbody hfoundRest

end OfFound

end ForLoop

section Allowances

variable {side : Side} {spare spare' fuel fuel' : Nat}

theorem Side.Allows.mono (h : side.Allows spare fuel fuel') (hle : spare' ≤ spare) :
    side.Allows spare' fuel fuel' := by
  cases side with
  | first => exact h
  | second => exact Nat.le_trans (Nat.add_le_add_left hle fuel') h

/-- The first run spends what it has to spare, or has nothing left. -/
theorem Side.Allows.spend (h : side.Allows (spare + 1) fuel fuel') :
    (side = .first ∧ fuel = 0) ∨ ∃ n, fuel = n + 1 ∧ side.Allows spare n fuel' := by
  cases fuel with
  | zero =>
      cases side with
      | first => exact .inl ⟨rfl, rfl⟩
      | second => exact absurd h (Nat.not_succ_le_zero _)
  | succ n =>
      refine .inr ⟨n, rfl, ?_⟩
      cases side with
      | first => exact Nat.le_trans (Nat.le_succ n) h
      | second => exact Nat.le_of_succ_le_succ h

/-- Both runs spend fuel, or the first one has none left. -/
theorem Side.Allows.spendBoth (h : side.Allows spare fuel (fuel' + 1)) :
    (side = .first ∧ fuel = 0) ∨ ∃ n, fuel = n + 1 ∧ side.Allows spare n fuel' := by
  cases fuel with
  | zero =>
      cases side with
      | first => exact .inl ⟨rfl, rfl⟩
      | second => exact absurd (Nat.le_trans (Nat.le_add_right _ _) h) (Nat.not_succ_le_zero _)
  | succ n =>
      refine .inr ⟨n, rfl, ?_⟩
      cases side with
      | first => exact Nat.le_of_succ_le_succ h
      | second =>
          have h : fuel' + 1 + spare ≤ n + 1 := h
          exact Nat.le_of_succ_le_succ (by omega : fuel' + spare + 1 ≤ n + 1)

end Allowances

namespace Eval

variable {α β : Type} {side : Side} {T : Tables} {w : World} {P : Layers}
variable {node : NodeId → NodeId} {fuel fuel' spare : Nat}

namespace EndAlike

variable {m : Eval α} {m' : Eval β} {Q : World → α → β → Prop}

/-- The first run may spend fuel on its own. -/
theorem spending (run : Nat → Eval α) (h : side.Allows (spare + 1) fuel fuel')
    (hzero : run 0 = Run.outOfFuel)
    (hsucc : ∀ n, side.Allows spare n fuel' → EndAlike side T w (run (n + 1)) m' Q) :
    EndAlike side T w (run fuel) m' Q := by
  obtain ⟨hside, rfl⟩ | ⟨n, rfl, hnext⟩ := h.spend
  · rw [hzero]
    exact .firstSpent hside
  · exact hsucc n hnext

/-- The first run may execute a block on its own. -/
theorem firstBlock {body : List Stmt} {m' : Eval Flow}
    (h : EndAlike side T ((w.addFirst w.first.current).inScopes w.first.store.nextEnv
      w.second.current) (execAll fuel body) m' (Flow.Alike T)) :
    EndAlike side T w (exec (fuel + 1) (.block body)) m' (Flow.Alike T) := by
  have hwithin := withinFirst (w := w.addFirst w.first.current) h fun _ _ _ => Flow.Alike.inScopes
  exact hwithin.imp id (.of_advances (World.advances_withStores .addEnv (.refl _)))

/-- The second run may go on in a new scope on its own. -/
theorem secondScope {m m' : Eval Flow}
    (h : EndAlike side T ((w.addSecond w.second.current).inScopes w.first.current
      w.second.store.nextEnv) m m' (Flow.Alike T)) :
    EndAlike side T w m
      (do
        let outer ← Run.gets State.current
        let scope ← newEnv outer
        Eval.within scope m') (Flow.Alike T) := by
  have hwithin :=
    withinSecond (w := w.addSecond w.second.current) h fun _ _ _ => Flow.Alike.inScopes
  exact hwithin.imp id (.of_advances (World.advances_withStores (.refl _) .addEnv))

/-- The last statement of a block. -/
theorem last {s : Stmt} {m' : Eval Flow} (h : side.Allows (spare + 2) fuel fuel')
    (hs : ∀ n, side.Allows (spare + 1) n fuel' →
      EndAlike side T w (exec n s) m' (Flow.Alike T)) :
    EndAlike side T w (execAll fuel [s]) m' (Flow.Alike T) := by
  refine spending (execAll · [s]) h rfl fun n h => ?_
  rw [← bind_pure m']
  refine (hs n h).bind ?_
  intro flow flow' w' _ hcoupled hflow
  cases hflow with
  | normal => exact spending (execAll · []) h rfl fun n _ => .pure hcoupled .normal
  | returning hv => exact .pure hcoupled (.returning hv)

end EndAlike

/-! ### The parts of a loop -/

theorem endAlike_goesOn {condition : Option Expr} (h : side.Allows 1 fuel fuel')
    (hcoupled : w.Coupled T) (hat : w.At P)
    (hcondition : Expr.AlignedOption T node P condition) :
    EndAlike side T w (eval fuel (condition.getD (.literal (.bool true))))
      (goesOn fuel' (condition.map (Expr.relabel (.renumber node))))
      fun _ v goes => goes = v.isTruthy := by
  cases condition with
  | none => exact .spending (eval · (.literal (.bool true))) h rfl fun _ _ => .pure hcoupled rfl
  | some e =>
      have hvalue := (endAlikeWith side T fuel fuel' (h.mono (Nat.zero_le 1))).eval e hcoupled hat
        (hcondition e rfl)
      change EndAlike side T w (eval fuel e) _ _
      rw [← bind_pure (eval fuel e)]
      refine hvalue.bind ?_
      intro v v' w' _ hcoupled' hv
      exact .pure hcoupled' hv.resembles.isTruthy_eq

/-- The step is taken for what it does, and its value is dropped. -/
theorem endAlike_step {step : Expr} (h : side.Allows 1 fuel fuel') (hcoupled : w.Coupled T)
    (hat : w.At P) (hstep : step.Aligned T node P) :
    EndAlike side T w (exec fuel (.expression step))
      (do
        takeStep fuel' (some (step.relabel (.renumber node)))
        return Flow.normal) (Flow.Alike T) := by
  refine .spending (exec · (.expression step)) h rfl fun n h => ?_
  unfold takeStep
  rw [bind_assoc]
  refine ((endAlikeWith side T n fuel' h).eval step hcoupled hat hstep).bind ?_
  intro v v' w' _ hcoupled' _
  exact endAlike_of_same hcoupled' rfl rfl ⟨rfl, rfl, rfl, rfl⟩ ⟨rfl, rfl, rfl, rfl⟩ rfl rfl
    hcoupled'.even.sink_eq hcoupled'.even.nativeCalls_eq hcoupled'.even.nextIdentity_eq .normal

theorem endAlike_turn (loop : ForLoop) (h : side.Allows 4 fuel fuel') (hcoupled : w.Coupled T)
    (hat : w.At P) (hloop : loop.TurnsAligned T node P) :
    EndAlike side T w (exec fuel loop.turn) (takeTurn fuel' (loop.renumber node))
      (Flow.Alike T) := by
  obtain ⟨initial, condition, step, body⟩ := loop
  obtain ⟨_, hbody, hstep⟩ := hloop
  cases step with
  | none =>
      have hbody := (endAlikeWith side T fuel fuel' (h.mono (Nat.zero_le 4))).exec body hcoupled
        hat hbody
      change EndAlike side T w (exec fuel body) _ _
      rw [← bind_pure (exec fuel body)]
      refine hbody.bind ?_
      intro flow flow' w' _ hcoupled' hflow
      cases hflow with
      | normal => exact .pure hcoupled' .normal
      | returning hv => exact .pure hcoupled' (.returning hv)
  | some step =>
      let turn : List Stmt := [body, .expression step]
      refine .spending (exec · (.block turn)) h rfl fun n h => .firstBlock ?_
      refine .spending (execAll · turn) h rfl fun n h => ?_
      have hat' : World.At _ (.first :: P) :=
        (World.Chains.addFirst hat hcoupled.matched).mono World.precedes_inScopes
      refine ((endAlikeWith side T n fuel' (h.mono (Nat.zero_le 2))).exec body
        hcoupled.addFirst.inScopes hat' hbody).bind ?_
      intro flow flow' w' hw hcoupled' hflow
      cases hflow with
      | normal =>
          exact .last h fun n h => endAlike_step h hcoupled' (hat'.later hw) (hstep step rfl)
      | returning hv => exact .pure hcoupled' (.returning hv)

/-- The repetition goes on as the loop does, by induction on the fuel of the loop. -/
theorem endAlike_rounds (loop : ForLoop) (h : side.Allows 4 fuel fuel') (hcoupled : w.Coupled T)
    (hat : w.At P) (hloop : loop.TurnsAligned T node P) :
    EndAlike side T w (exec fuel loop.repetition) (rounds fuel' (loop.renumber node))
      (Flow.Alike T) := by
  induction fuel' generalizing fuel w with
  | zero =>
      cases side with
      | first =>
          cases Nat.le_zero.mp h
          exact .firstSpent rfl
      | second => exact .secondSpent rfl
  | succ fuel' ih =>
      obtain ⟨hside, rfl⟩ | ⟨n, rfl, hnext⟩ := h.spendBoth
      · exact .firstSpent hside
      refine (endAlike_goesOn (hnext.mono (by decide)) hcoupled hat hloop.condition).bind ?_
      rintro v _ w₁ hw₁ hcoupled₁ rfl
      cases v.isTruthy with
      | false => exact .pure hcoupled₁ .normal
      | true =>
          refine (endAlike_turn loop hnext hcoupled₁ (hat.later hw₁) hloop).bind ?_
          intro flow flow' w₂ hw₂ hcoupled₂ hflow
          cases hflow with
          | normal => exact ih hnext hcoupled₂ (hat.later (hw₁.trans hw₂))
          | returning hv => exact .pure hcoupled₂ (.returning hv)

/-- Where both runs find the same scopes for the references of a loop, the statement that it
abbreviates ends as the loop does. -/
theorem endAlike_loop (loop : ForLoop) (h : side.Allows 7 fuel fuel') (hcoupled : w.Coupled T)
    (hat : w.At P) (hloop : loop.Aligned T node P) :
    EndAlike side T w (exec fuel loop.stmt) (runLoop fuel' (loop.renumber node))
      (Flow.Alike T) := by
  obtain ⟨initial, condition, step, body⟩ := loop
  obtain ⟨hinitial, hturns⟩ := hloop
  cases initial with
  | none =>
      have hat' : World.At _ (.second :: P) :=
        (World.Chains.addSecond hat hcoupled.matched).mono World.precedes_inScopes
      exact .secondScope
        (endAlike_rounds _ (h.mono (by decide)) hcoupled.addSecond.inScopes hat' hturns)
  | some initial =>
      let parts : List Stmt := [initial, ForLoop.repetition ⟨some initial, condition, step, body⟩]
      refine .spending (exec · (.block parts)) h rfl fun n h => ?_
      refine .bind_of_same (Run.gets_apply _ _) (Run.gets_apply _ _) ?_
      refine (endAlike_newEnv hcoupled hat).bind ?_
      intro scope scope' w₁ _ hcoupled₁ hscope
      have hat₁ : (w₁.inScopes scope scope').At (.both :: P) :=
        hscope.mono World.precedes_inScopes
      refine .within (.spending (execAll · parts) h rfl fun n h => ?_)
        fun _ _ _ => Flow.Alike.inScopes
      refine ((endAlikeWith side T n fuel' (h.mono (Nat.zero_le 5))).exec initial
        hcoupled₁.inScopes hat₁ (hinitial initial rfl)).bind ?_
      intro flow flow' w₂ hw₂ hcoupled₂ hflow
      cases hflow with
      | normal =>
          exact .last h fun n h => endAlike_rounds _ h hcoupled₂ (hat₁.later hw₂) hturns
      | returning hv => exact .pure hcoupled₂ (.returning hv)

end Eval

end ScopedScript
