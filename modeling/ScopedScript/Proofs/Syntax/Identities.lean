import ScopedScript.Proofs.Scope.Recorded
import ScopedScript.Proofs.Syntax.Progress
import ScopedScript.Proofs.Syntax.Recovery
import ScopedScript.Proofs.Syntax.StatementSoundness
import ScopedScript.Syntax.Occurrences

/-!
# The numbers of the references of a program

The references of a program, in the order in which they are written, have numbers that differ from
one another. This holds also of what is left of a program that was read past its faults: the numbers
that were given out on the way to a fault are lost, and none is given out again.
-/

namespace ScopedScript

/-- The numbers of the references of statements, in the order in which they are written. -/
def Stmt.idsAll (program : List Stmt) : List NodeId :=
  (Stmt.occurrencesAll program).map Occurrence.id

section Permutation

variable {rs rs' : List Record} {os os' : List Occurrence}

/-- The numbers for which something is found are those of some places. -/
abbrev SameIds (rs : List Record) (os : List Occurrence) : Prop :=
  (idsOf rs).Perm (os.map Occurrence.id)

theorem SameIds.append (h : SameIds rs os) (h' : SameIds rs' os') :
    SameIds (rs ++ rs') (os ++ os') := by
  unfold SameIds
  rw [idsOf_append, List.map_append]
  exact List.Perm.append h h'

theorem SameIds.append_swap (h : SameIds rs os) (h' : SameIds rs' os') :
    SameIds (rs' ++ rs) (os ++ os') := by
  refine List.Perm.trans ?_ (h.append h')
  rw [idsOf_append, idsOf_append]
  exact List.perm_append_comm

mutual

theorem Expr.sameIds (Γ : Scopes) (e : Expr) : SameIds (e.records Γ) e.occurrences := by
  cases e with
  | literal value => exact .refl _
  | unary op line operand => exact operand.sameIds Γ
  | binary op line left right => exact (left.sameIds Γ).append (right.sameIds Γ)
  | logical op line left right => exact (left.sameIds Γ).append (right.sameIds Γ)
  | grouping inner => exact inner.sameIds Γ
  | name ref => exact .refl _
  | assign ref value =>
      have href : SameIds [Γ.record ref.id ref.name.text] [ref.occurrence .assign] := .refl _
      exact href.append_swap (value.sameIds Γ)
  | call callee line arguments => exact (callee.sameIds Γ).append (Expr.sameIdsAll Γ arguments)
  | get object property => exact object.sameIds Γ
  | set object property value => exact (object.sameIds Γ).append_swap (value.sameIds Γ)
  | receiver id line => exact .refl _
  | inherited id line method => exact .refl _

theorem Expr.sameIdsAll (Γ : Scopes) (es : List Expr) :
    SameIds (Expr.recordsAll Γ es) (Expr.occurrencesAll es) := by
  cases es with
  | nil => exact .refl _
  | cons e es => exact (e.sameIds Γ).append (Expr.sameIdsAll Γ es)

end

theorem Expr.sameIdsOption (Γ : Scopes) (e : Option Expr) :
    SameIds (Expr.recordsOption Γ e) (Expr.occurrencesOption e) := by
  cases e with
  | none => exact .refl _
  | some e => simpa [Expr.occurrencesOption, Expr.recordsOption] using e.sameIds Γ

mutual

theorem Stmt.sameIds (Γ : Scopes) (s : Stmt) : SameIds (s.records Γ) s.occurrences := by
  cases s with
  | expression e => exact e.sameIds Γ
  | print e => exact e.sameIds Γ
  | var name initial => exact Expr.sameIdsOption _ initial
  | block body => exact Stmt.sameIdsAll _ body
  | ifThen condition thenBranch => exact (condition.sameIds Γ).append (thenBranch.sameIds Γ)
  | ifElse condition thenBranch elseBranch =>
      rw [Stmt.records, ← List.append_assoc]
      exact ((condition.sameIds Γ).append (thenBranch.sameIds Γ)).append (elseBranch.sameIds _)
  | loop condition body => exact (condition.sameIds Γ).append (body.sameIds Γ)
  | function d => exact d.sameIds _
  | giveBack line value => exact Expr.sameIdsOption Γ value
  | classDef name superclass methods =>
      cases superclass with
      | none => exact FunctionDecl.sameIdsAll _ methods
      | some ref =>
          have href : SameIds [(Γ.introducing name.text).record ref.id ref.name.text]
              [ref.occurrence .read] := .refl _
          exact href.append (FunctionDecl.sameIdsAll _ methods)

theorem Stmt.sameIdsAll (Γ : Scopes) (ss : List Stmt) :
    SameIds (Stmt.recordsAll Γ ss) (Stmt.occurrencesAll ss) := by
  cases ss with
  | nil => exact .refl _
  | cons s ss => exact (s.sameIds Γ).append (Stmt.sameIdsAll _ ss)

theorem FunctionDecl.sameIds (Γ : Scopes) (d : FunctionDecl) :
    SameIds (d.records Γ) (FunctionDecl.occurrences d) := by
  cases d with
  | mk name parameters body => exact Stmt.sameIdsAll _ body

theorem FunctionDecl.sameIdsAll (Γ : Scopes) (ds : List FunctionDecl) :
    SameIds (FunctionDecl.recordsAll Γ ds) (FunctionDecl.occurrencesAll ds) := by
  cases ds with
  | nil => exact .refl _
  | cons d ds => exact (d.sameIds Γ).append (FunctionDecl.sameIdsAll Γ ds)

end

end Permutation

/-- The numbers in a list differ from one another, and each is at least `i` and less than `j`. -/
structure DistinctWithin (i j : Nat) (ids : List Nat) : Prop where
  nodup : ids.Nodup
  within : ∀ id ∈ ids, i ≤ id ∧ id < j

namespace DistinctWithin

variable {i j k l : Nat} {ids ids' : List Nat}

theorem nil : DistinctWithin i j [] := ⟨.nil, fun _ h => (List.not_mem_nil h).elim⟩

theorem of_numbers (h : Numbers i j ids) : DistinctWithin i j ids :=
  ⟨h.nodup, fun _ => h.mem_iff.mp⟩

theorem mono (h : DistinctWithin k l ids) (hi : i ≤ k) (hj : l ≤ j) : DistinctWithin i j ids := by
  refine ⟨h.nodup, fun id hid => ?_⟩
  obtain ⟨hle, hlt⟩ := h.within id hid
  omega

theorem append (h : DistinctWithin i k ids) (h' : DistinctWithin k j ids') (hi : i ≤ k)
    (hj : k ≤ j) : DistinctWithin i j (ids ++ ids') := by
  constructor
  · refine List.nodup_append.mpr ⟨h.nodup, h'.nodup, fun id hid id' hid' => ?_⟩
    have hlt := (h.within id hid).2
    have hle := (h'.within id' hid').1
    omega
  · exact List.forall_mem_append.mpr
      ⟨(h.mono (Nat.le_refl i) hj).within, (h'.mono hi (Nat.le_refl j)).within⟩

end DistinctWithin

/-- Statements whose references are numbered from `i` on have numbers that differ. -/
theorem distinctWithin_idsAll {program : List Stmt} {i j : NodeId}
    (h : Numbers i j (idsOf (Stmt.recordsAll [] program))) :
    DistinctWithin i j (Stmt.idsAll program) :=
  .of_numbers (h.of_perm (Stmt.sameIdsAll [] program).symm)

namespace Reader

/-- What is left of a text that is read past its faults has references that differ. -/
theorem distinctWithin_recoveringProgram {fuel : Nat} {c c' : Cursor}
    {ds : List (Except SyntaxError Stmt)} (h : recoveringProgram fuel c = .ok ds c')
    (hc : c.eof.kind = .eof) :
    DistinctWithin c.nextId c'.nextId (Stmt.idsAll (statementsOf ds)) := by
  induction fuel generalizing c ds with
  | zero => cases h
  | succ fuel ih =>
      rcases recoveringProgram_succ_eq_ok.mp h with ⟨_, rfl, rfl⟩ |
        ⟨_, ⟨s, c₁, rest, hs, hrest, rfl⟩ | ⟨e, c₁, rest, he, hrest, rfl⟩⟩
      · exact .nil
      · have hfirst := ((stmtReadersForward fuel).declaration c).ok hs
        have hids := ih hrest (by rw [hfirst.eof_eq, hc])
        obtain ⟨w, _, hwritten⟩ := (stmtReadersSound fuel).declaration hs hc
        have hnumbers : DistinctWithin c.nextId c₁.nextId (s.occurrences.map Occurrence.id) :=
          .of_numbers ((hwritten.numbered []).of_perm (s.sameIds []).symm)
        have hlater := (goesForward_recoveringProgram fuel c₁).ok hrest
        have hall := hnumbers.append hids hfirst.nextId_le hlater.nextId_le
        rwa [Stmt.idsAll, ← List.map_append] at hall
      · have hlater := (((stmtReadersForward fuel).declaration c).fault he).precedes.trans
          (.synchronize c₁)
        have hids := ih hrest (by rw [hlater.eof_eq, hc])
        exact hids.mono hlater.nextId_le (Nat.le_refl _)

end Reader

end ScopedScript
