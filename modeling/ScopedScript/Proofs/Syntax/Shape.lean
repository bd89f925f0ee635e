import ScopedScript.Proofs.Scope.Rules
import ScopedScript.Proofs.Syntax.Written

/-!
# What is written is well formed

Trees that are read from tokens are fewer than there are trees: the branches of an `if` and the body
of a loop declare nothing by themselves, and nothing is declared under the name of a keyword. So
the scopes after a branch or a body are those before it.
-/

namespace ScopedScript

/-- A name is not one that scopes declare of their own accord. -/
def Ordinary (x : String) : Prop := x ≠ receiverWord ∧ x ≠ superclassWord

/-- The identifiers among some tokens are ordinary names. -/
def NamesOrdinary (w : List Token) : Prop := ∀ t ∈ w, t.kind = .identifier → Ordinary t.lexeme

namespace NamesOrdinary

variable {t : Token} {w v : List Token}

@[simp] theorem nil : NamesOrdinary [] := fun _ h => (List.not_mem_nil h).elim

@[simp] theorem cons :
    NamesOrdinary (t :: w) ↔ (t.kind = .identifier → Ordinary t.lexeme) ∧ NamesOrdinary w :=
  List.forall_mem_cons

@[simp] theorem append : NamesOrdinary (w ++ v) ↔ NamesOrdinary w ∧ NamesOrdinary v :=
  List.forall_mem_append

end NamesOrdinary

/-- Whether a statement is a declaration. -/
def Stmt.declares : Stmt → Bool
  | .var _ _ | .function _ | .classDef _ _ _ => true
  | _ => false

mutual

/-- A statement has no declaration for a branch or a loop body, and declares ordinary names. -/
def Stmt.Formed : Stmt → Prop
  | .expression _ | .print _ | .giveBack _ _ => True
  | .var name _ => Ordinary name.text
  | .block body => Stmt.FormedAll body
  | .ifThen _ thenBranch => thenBranch.declares = false ∧ thenBranch.Formed
  | .ifElse _ thenBranch elseBranch =>
    (thenBranch.declares = false ∧ thenBranch.Formed) ∧
      elseBranch.declares = false ∧ elseBranch.Formed
  | .loop _ body => body.declares = false ∧ body.Formed
  | .function d => d.Formed
  | .classDef name _ methods => Ordinary name.text ∧ FunctionDecl.FormedAll methods

/-- Statements have no declarations for branches and loop bodies, and declare ordinary names. -/
def Stmt.FormedAll : List Stmt → Prop
  | [] => True
  | s :: ss => s.Formed ∧ Stmt.FormedAll ss

/-- The name and the parameters of a function are ordinary, and its body is well formed. -/
def FunctionDecl.Formed : FunctionDecl → Prop
  | ⟨name, parameters, body⟩ =>
    Ordinary name.text ∧ (∀ p ∈ parameters, Ordinary p.text) ∧ Stmt.FormedAll body

/-- Functions have ordinary names and parameters, and well-formed bodies. -/
def FunctionDecl.FormedAll : List FunctionDecl → Prop
  | [] => True
  | d :: ds => d.Formed ∧ FunctionDecl.FormedAll ds

end

theorem Stmt.formed_of_mem {s : Stmt} {ss : List Stmt} (h : Stmt.FormedAll ss) (hs : s ∈ ss) :
    s.Formed := by
  induction ss with
  | nil => cases hs
  | cons t ss ih =>
      rcases List.mem_cons.mp hs with rfl | hlater
      · exact h.1
      · exact ih h.2 hlater

/-- A well-formed statement that is not a declaration declares nothing. -/
theorem Stmt.after_eq_self (s : Stmt) {Γ : Scopes} (hformed : s.Formed)
    (hdeclares : s.declares = false) : s.after Γ = Γ := by
  cases s with
  | expression _ | print _ | block _ | giveBack _ _ => rfl
  | var _ _ | function _ | classDef _ _ _ => cases hdeclares
  | ifThen _ thenBranch => exact thenBranch.after_eq_self hformed.2 hformed.1
  | ifElse _ thenBranch elseBranch =>
      obtain ⟨⟨hthen, hthenFormed⟩, helse, helseFormed⟩ := hformed
      unfold Stmt.after
      rw [thenBranch.after_eq_self hthenFormed hthen, elseBranch.after_eq_self helseFormed helse]
  | loop _ body => exact body.after_eq_self hformed.2 hformed.1

/-- What a phrase stands for is well formed. -/
def StmtPhrase.Formed : StmtPhrase → Prop
  | function d => d.Formed
  | methods ds => FunctionDecl.FormedAll ds
  | varDeclaration s | declaration s | forInitial (some s) => s.Formed
  | forInitial none => True
  | expressionStatement s | statement _ s => s.declares = false ∧ s.Formed
  | declarations ss => Stmt.FormedAll ss

theorem formed_forLoop {initial : Option Stmt} {condition step : Option Expr} {body : Stmt}
    (hinitial : (StmtPhrase.forInitial initial).Formed)
    (hbody : body.declares = false ∧ body.Formed) :
    (Stmt.forLoop initial condition step body).declares = false ∧
      (Stmt.forLoop initial condition step body).Formed := by
  cases initial <;> cases step <;>
    simp_all [Stmt.forLoop, Stmt.declares, Stmt.Formed, Stmt.FormedAll, StmtPhrase.Formed]

theorem WrittenParameters.ordinary {names : List Name} {w : List Token}
    (h : WrittenParameters names w) (hw : NamesOrdinary w) : ∀ p ∈ names, Ordinary p.text := by
  induction h with
  | last ht =>
      intro p hp
      rw [List.mem_singleton.mp hp]
      exact hw _ List.mem_cons_self ht
  | more ht _ _ ih =>
      simp only [NamesOrdinary.cons] at hw
      exact List.forall_mem_cons.mpr ⟨hw.1 ht, ih hw.2.2⟩

/-- What is written in tokens whose identifiers are ordinary names is well formed. -/
theorem WrittenStmt.formed {p : StmtPhrase} {i j : NodeId} {w : List Token}
    (h : WrittenStmt p i w j) (hw : NamesOrdinary w) : p.Formed := by
  induction h with
  | functionWithout ht _ _ _ _ _ ih =>
      simp only [List.cons_append, NamesOrdinary.cons, NamesOrdinary.append] at hw
      exact ⟨hw.1 ht, fun _ h => (List.not_mem_nil h).elim, ih hw.2.2.2.2.1⟩
  | functionWith ht _ _ hparameters _ _ _ _ ih =>
      simp only [List.cons_append, List.append_assoc, NamesOrdinary.cons,
        NamesOrdinary.append] at hw
      exact ⟨hw.1 ht, hparameters.ordinary hw.2.2.1, ih hw.2.2.2.2.2.1⟩
  | noMethods | noInitial | noDeclarations => trivial
  | method _ _ ih ihrest | declaration _ _ ih ihrest =>
      rw [NamesOrdinary.append] at hw
      exact ⟨ih hw.1, ihrest hw.2⟩
  | varWithout ht _ => exact hw _ List.mem_cons_self ht
  | varWith ht _ _ _ => exact hw _ List.mem_cons_self ht
  | expressionStatement _ _ | print _ _ _ | giveBack _ _ _ => exact ⟨rfl, trivial⟩
  | varInitial _ _ ih | funDecl _ _ ih | varDecl _ _ ih => exact ih (NamesOrdinary.cons.mp hw).2
  | expressionInitial _ ih => exact (ih hw).2
  | forLoop _ _ _ _ _ _ _ _ ihinitial ih =>
      simp only [List.cons_append, List.append_assoc, NamesOrdinary.cons,
        NamesOrdinary.append] at hw
      exact formed_forLoop (ihinitial hw.2.2.1) (ih hw.2.2.2.2.2.2.2)
  | ifThen _ _ _ _ _ ih | whileLoop _ _ _ _ _ ih =>
      simp only [List.cons_append, NamesOrdinary.cons, NamesOrdinary.append] at hw
      exact ⟨rfl, ih hw.2.2.2.2⟩
  | ifElse _ _ _ _ _ _ _ ihthen ihelse =>
      simp only [List.cons_append, List.append_assoc, NamesOrdinary.cons,
        NamesOrdinary.append] at hw
      exact ⟨rfl, ihthen hw.2.2.2.2.1, ihelse hw.2.2.2.2.2.2⟩
  | block _ _ _ ih =>
      simp only [List.cons_append, NamesOrdinary.cons, NamesOrdinary.append] at hw
      exact ⟨rfl, ih hw.2.1⟩
  | expression _ ih => exact ih hw
  | classDef _ hu _ _ _ _ ih =>
      simp only [List.cons_append, List.append_assoc, NamesOrdinary.cons,
        NamesOrdinary.append] at hw
      exact ⟨hw.2.1 hu, ih hw.2.2.2.2.1⟩
  | statement _ ih => exact (ih hw).2

end ScopedScript
