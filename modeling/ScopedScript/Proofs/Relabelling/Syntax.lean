import ScopedScript.Proofs.Syntax.Identities

/-!
# Other numbers, other lines

A tree in which references have other numbers and words stand on other lines says the same thing.
Numbers and lines are changed everywhere alike, so a tree in which they are changed twice, or not at
all, is one in which they are changed once. A change matters only for the numbers that occur.
-/

namespace ScopedScript

/-- A change of the numbers of references and of the lines of words. -/
structure Relabelling where
  node : NodeId → NodeId
  line : Nat → Nat

namespace Relabelling

/-- The change of nothing. -/
def none : Relabelling := ⟨id, id⟩

/-- The change of lines alone. -/
def reline (line : Nat → Nat) : Relabelling := ⟨id, line⟩

/-- The change of numbers alone. -/
def renumber (node : NodeId → NodeId) : Relabelling := ⟨node, id⟩

/-- For the numbers that satisfy `p`, and for lines, `g` and then `h` is the change `k`. -/
structure Composes (p : NodeId → Prop) (g h k : Relabelling) : Prop where
  node_eq : ∀ id, p id → h.node (g.node id) = k.node id
  line_eq : ∀ line, h.line (g.line line) = k.line line

end Relabelling

section Definitions

variable (g : Relabelling)

/-- A name on another line. -/
def Name.relabel (name : Name) : Name := ⟨name.text, g.line name.line⟩

/-- A reference with another number, on another line. -/
def Reference.relabel (ref : Reference) : Reference := ⟨g.node ref.id, ref.name.relabel g⟩

mutual

/-- An expression with other numbers and lines. -/
def Expr.relabel : Expr → Expr
  | .literal value => .literal value
  | .unary op line operand => .unary op (g.line line) (operand.relabel)
  | .binary op line left right => .binary op (g.line line) (left.relabel) (right.relabel)
  | .logical op line left right => .logical op (g.line line) (left.relabel) (right.relabel)
  | .grouping inner => .grouping (inner.relabel)
  | .name ref => .name (ref.relabel g)
  | .assign ref value => .assign (ref.relabel g) (value.relabel)
  | .call callee line arguments =>
    .call (callee.relabel) (g.line line) (Expr.relabelAll arguments)
  | .get object property => .get (object.relabel) (property.relabel g)
  | .set object property value => .set (object.relabel) (property.relabel g) (value.relabel)
  | .receiver id line => .receiver (g.node id) (g.line line)
  | .inherited id line method => .inherited (g.node id) (g.line line) (method.relabel g)

/-- Expressions with other numbers and lines. -/
def Expr.relabelAll : List Expr → List Expr
  | [] => []
  | e :: es => e.relabel :: Expr.relabelAll es

end

mutual

/-- A statement with other numbers and lines. -/
def Stmt.relabel : Stmt → Stmt
  | .expression e => .expression (e.relabel g)
  | .print e => .print (e.relabel g)
  | .var name initial => .var (name.relabel g) (initial.map (Expr.relabel g))
  | .block body => .block (Stmt.relabelAll body)
  | .ifThen condition thenBranch => .ifThen (condition.relabel g) thenBranch.relabel
  | .ifElse condition thenBranch elseBranch =>
    .ifElse (condition.relabel g) thenBranch.relabel elseBranch.relabel
  | .loop condition body => .loop (condition.relabel g) body.relabel
  | .function d => .function (FunctionDecl.relabel d)
  | .giveBack line value => .giveBack (g.line line) (value.map (Expr.relabel g))
  | .classDef name superclass methods =>
    .classDef (name.relabel g) (superclass.map (Reference.relabel g))
      (FunctionDecl.relabelAll methods)

/-- Statements with other numbers and lines. -/
def Stmt.relabelAll : List Stmt → List Stmt
  | [] => []
  | s :: ss => s.relabel :: Stmt.relabelAll ss

/-- A declaration of a function with other numbers and lines. -/
def FunctionDecl.relabel : FunctionDecl → FunctionDecl
  | ⟨name, parameters, body⟩ =>
    ⟨name.relabel g, parameters.map (Name.relabel g), Stmt.relabelAll body⟩

/-- Declarations of functions with other numbers and lines. -/
def FunctionDecl.relabelAll : List FunctionDecl → List FunctionDecl
  | [] => []
  | d :: ds => d.relabel :: FunctionDecl.relabelAll ds

end

end Definitions

section Nothing

@[simp] theorem Name.relabel_none (name : Name) : name.relabel .none = name := rfl

@[simp] theorem Reference.relabel_none (ref : Reference) : ref.relabel .none = ref := rfl

mutual

@[simp] theorem Expr.relabel_none (e : Expr) : e.relabel .none = e := by
  cases e with
  | literal _ | name _ | receiver _ _ | inherited _ _ _ => rfl
  | unary op line operand => rw [Expr.relabel, operand.relabel_none]; rfl
  | binary op line left right => rw [Expr.relabel, left.relabel_none, right.relabel_none]; rfl
  | logical op line left right => rw [Expr.relabel, left.relabel_none, right.relabel_none]; rfl
  | grouping inner => rw [Expr.relabel, inner.relabel_none]
  | assign ref value => rw [Expr.relabel, value.relabel_none]; rfl
  | call callee line arguments =>
      rw [Expr.relabel, callee.relabel_none, Expr.relabelAll_none arguments]
      rfl
  | get object property => rw [Expr.relabel, object.relabel_none]; rfl
  | set object property value => rw [Expr.relabel, object.relabel_none, value.relabel_none]; rfl

@[simp] theorem Expr.relabelAll_none (es : List Expr) : Expr.relabelAll .none es = es := by
  cases es with
  | nil => rfl
  | cons e es => rw [Expr.relabelAll, e.relabel_none, Expr.relabelAll_none es]

end

theorem Expr.map_relabel_none (e : Option Expr) : e.map (Expr.relabel .none) = e := by
  cases e with
  | none => rfl
  | some e => exact congrArg some e.relabel_none

mutual

@[simp] theorem Stmt.relabel_none (s : Stmt) : s.relabel .none = s := by
  cases s with
  | expression e => rw [Stmt.relabel, e.relabel_none]
  | print e => rw [Stmt.relabel, e.relabel_none]
  | var name initial => rw [Stmt.relabel, Expr.map_relabel_none]; rfl
  | block body => rw [Stmt.relabel, Stmt.relabelAll_none body]
  | ifThen condition thenBranch =>
      rw [Stmt.relabel, condition.relabel_none, thenBranch.relabel_none]
  | ifElse condition thenBranch elseBranch =>
      rw [Stmt.relabel, condition.relabel_none, thenBranch.relabel_none, elseBranch.relabel_none]
  | loop condition body => rw [Stmt.relabel, condition.relabel_none, body.relabel_none]
  | function d => rw [Stmt.relabel, d.relabel_none]
  | giveBack line value => rw [Stmt.relabel, Expr.map_relabel_none]; rfl
  | classDef name superclass methods =>
      rw [Stmt.relabel, FunctionDecl.relabelAll_none methods]
      cases superclass <;> rfl

@[simp] theorem Stmt.relabelAll_none (ss : List Stmt) : Stmt.relabelAll .none ss = ss := by
  cases ss with
  | nil => rfl
  | cons s ss => rw [Stmt.relabelAll, s.relabel_none, Stmt.relabelAll_none ss]

@[simp] theorem FunctionDecl.relabel_none (d : FunctionDecl) : d.relabel .none = d := by
  cases d with
  | mk name parameters body =>
      rw [FunctionDecl.relabel, Stmt.relabelAll_none body]
      exact congrArg (FunctionDecl.mk name · body) (List.map_id parameters)

@[simp] theorem FunctionDecl.relabelAll_none (ds : List FunctionDecl) :
    FunctionDecl.relabelAll .none ds = ds := by
  cases ds with
  | nil => rfl
  | cons d ds => rw [FunctionDecl.relabelAll, d.relabel_none, FunctionDecl.relabelAll_none ds]

end

end Nothing

section Composition

open Relabelling (Composes)

variable {p : NodeId → Prop} {g h k : Relabelling}

theorem Name.relabel_relabel (hgh : Composes p g h k) (name : Name) :
    (name.relabel g).relabel h = name.relabel k :=
  congrArg (Name.mk name.text) (hgh.line_eq name.line)

theorem Reference.relabel_relabel (hgh : Composes p g h k) (ref : Reference)
    (hid : p ref.id) : (ref.relabel g).relabel h = ref.relabel k := by
  simp only [Reference.relabel, hgh.node_eq ref.id hid, ref.name.relabel_relabel hgh]

mutual

theorem Expr.relabel_relabel (hgh : Composes p g h k) (e : Expr)
    (hids : ∀ o ∈ e.occurrences, p o.id) : (e.relabel g).relabel h = e.relabel k := by
  cases e with
  | literal value => rfl
  | unary op line operand =>
      simp only [Expr.relabel, hgh.line_eq, operand.relabel_relabel hgh hids]
  | binary op line left right =>
      obtain ⟨hleft, hright⟩ := List.forall_mem_append.mp hids
      simp only [Expr.relabel, hgh.line_eq, left.relabel_relabel hgh hleft,
        right.relabel_relabel hgh hright]
  | logical op line left right =>
      obtain ⟨hleft, hright⟩ := List.forall_mem_append.mp hids
      simp only [Expr.relabel, hgh.line_eq, left.relabel_relabel hgh hleft,
        right.relabel_relabel hgh hright]
  | grouping inner => simp only [Expr.relabel, inner.relabel_relabel hgh hids]
  | name ref =>
      have hid : p ref.id := hids (ref.occurrence .read) List.mem_cons_self
      simp only [Expr.relabel, ref.relabel_relabel hgh hid]
  | assign ref value =>
      obtain ⟨href, hvalue⟩ := List.forall_mem_cons.mp hids
      simp only [Expr.relabel, ref.relabel_relabel hgh href, value.relabel_relabel hgh hvalue]
  | call callee line arguments =>
      obtain ⟨hcallee, harguments⟩ := List.forall_mem_append.mp hids
      simp only [Expr.relabel, hgh.line_eq, callee.relabel_relabel hgh hcallee,
        Expr.relabelAll_relabelAll hgh arguments harguments]
  | get object property =>
      simp only [Expr.relabel, object.relabel_relabel hgh hids, property.relabel_relabel hgh]
  | set object property value =>
      obtain ⟨hobject, hvalue⟩ := List.forall_mem_append.mp hids
      simp only [Expr.relabel, object.relabel_relabel hgh hobject, property.relabel_relabel hgh,
        value.relabel_relabel hgh hvalue]
  | receiver id line =>
      have hid : p id := hids ⟨id, .receiver, ⟨receiverWord, line⟩⟩ List.mem_cons_self
      simp only [Expr.relabel, hgh.line_eq, hgh.node_eq id hid]
  | inherited id line method =>
      have hid : p id := hids ⟨id, .inherited, ⟨method.text, line⟩⟩ List.mem_cons_self
      simp only [Expr.relabel, hgh.line_eq, hgh.node_eq id hid, method.relabel_relabel hgh]

theorem Expr.relabelAll_relabelAll (hgh : Composes p g h k) (es : List Expr)
    (hids : ∀ o ∈ Expr.occurrencesAll es, p o.id) :
    Expr.relabelAll h (Expr.relabelAll g es) = Expr.relabelAll k es := by
  cases es with
  | nil => rfl
  | cons e es =>
      obtain ⟨he, hes⟩ := List.forall_mem_append.mp hids
      simp only [Expr.relabelAll, e.relabel_relabel hgh he, Expr.relabelAll_relabelAll hgh es hes]

end

theorem Expr.map_relabel_relabel (hgh : Composes p g h k) (e : Option Expr)
    (hids : ∀ o ∈ Expr.occurrencesOption e, p o.id) :
    (e.map (Expr.relabel g)).map (Expr.relabel h) = e.map (Expr.relabel k) := by
  cases e with
  | none => rfl
  | some e => exact congrArg some (e.relabel_relabel hgh (by simpa [occurrencesOption] using hids))

mutual

theorem Stmt.relabel_relabel (hgh : Composes p g h k) (s : Stmt)
    (hids : ∀ o ∈ s.occurrences, p o.id) : (s.relabel g).relabel h = s.relabel k := by
  cases s with
  | expression e => simp only [Stmt.relabel, e.relabel_relabel hgh hids]
  | print e => simp only [Stmt.relabel, e.relabel_relabel hgh hids]
  | var name initial =>
      simp only [Stmt.relabel, name.relabel_relabel hgh, Expr.map_relabel_relabel hgh initial hids]
  | block body => simp only [Stmt.relabel, Stmt.relabelAll_relabelAll hgh body hids]
  | ifThen condition thenBranch =>
      obtain ⟨hcondition, hthen⟩ := List.forall_mem_append.mp hids
      simp only [Stmt.relabel, condition.relabel_relabel hgh hcondition,
        thenBranch.relabel_relabel hgh hthen]
  | ifElse condition thenBranch elseBranch =>
      obtain ⟨hfirst, helse⟩ := List.forall_mem_append.mp hids
      obtain ⟨hcondition, hthen⟩ := List.forall_mem_append.mp hfirst
      simp only [Stmt.relabel, condition.relabel_relabel hgh hcondition,
        thenBranch.relabel_relabel hgh hthen, elseBranch.relabel_relabel hgh helse]
  | loop condition body =>
      obtain ⟨hcondition, hbody⟩ := List.forall_mem_append.mp hids
      simp only [Stmt.relabel, condition.relabel_relabel hgh hcondition,
        body.relabel_relabel hgh hbody]
  | function d => simp only [Stmt.relabel, d.relabel_relabel hgh hids]
  | giveBack line value =>
      simp only [Stmt.relabel, hgh.line_eq, Expr.map_relabel_relabel hgh value hids]
  | classDef name superclass methods =>
      obtain ⟨href, hmethods⟩ := List.forall_mem_append.mp hids
      simp only [Stmt.relabel, name.relabel_relabel hgh,
        FunctionDecl.relabelAll_relabelAll hgh methods hmethods]
      cases superclass with
      | none => rfl
      | some ref =>
          have hid : p ref.id := href (ref.occurrence .read) List.mem_cons_self
          simp only [Option.map_some, ref.relabel_relabel hgh hid]

theorem Stmt.relabelAll_relabelAll (hgh : Composes p g h k) (ss : List Stmt)
    (hids : ∀ o ∈ Stmt.occurrencesAll ss, p o.id) :
    Stmt.relabelAll h (Stmt.relabelAll g ss) = Stmt.relabelAll k ss := by
  cases ss with
  | nil => rfl
  | cons s ss =>
      obtain ⟨hs, hss⟩ := List.forall_mem_append.mp hids
      simp only [Stmt.relabelAll, s.relabel_relabel hgh hs, Stmt.relabelAll_relabelAll hgh ss hss]

theorem FunctionDecl.relabel_relabel (hgh : Composes p g h k) (d : FunctionDecl)
    (hids : ∀ o ∈ FunctionDecl.occurrences d, p o.id) :
    (d.relabel g).relabel h = d.relabel k := by
  cases d with
  | mk name parameters body =>
      have hnames : (parameters.map (Name.relabel g)).map (Name.relabel h) =
          parameters.map (Name.relabel k) := by
        rw [List.map_map]
        exact List.map_congr_left fun name _ => name.relabel_relabel hgh
      simp only [FunctionDecl.relabel, name.relabel_relabel hgh, hnames,
        Stmt.relabelAll_relabelAll hgh body hids]

theorem FunctionDecl.relabelAll_relabelAll (hgh : Composes p g h k) (ds : List FunctionDecl)
    (hids : ∀ o ∈ FunctionDecl.occurrencesAll ds, p o.id) :
    FunctionDecl.relabelAll h (FunctionDecl.relabelAll g ds) = FunctionDecl.relabelAll k ds := by
  cases ds with
  | nil => rfl
  | cons d ds =>
      obtain ⟨hd, hds⟩ := List.forall_mem_append.mp hids
      simp only [FunctionDecl.relabelAll, d.relabel_relabel hgh hd,
        FunctionDecl.relabelAll_relabelAll hgh ds hds]

end

end Composition

/-- Two changes that agree on the numbers of a program make the same of it. -/
theorem Stmt.relabelAll_congr {g h : Relabelling} {program : List Stmt}
    (hnode : ∀ id ∈ Stmt.idsAll program, g.node id = h.node id) (hline : g.line = h.line) :
    Stmt.relabelAll g program = Stmt.relabelAll h program := by
  have hcompose : Relabelling.Composes (· ∈ Stmt.idsAll program) .none g h :=
    ⟨hnode, fun line => congrFun hline line⟩
  have heq := Stmt.relabelAll_relabelAll hcompose program fun o ho => List.mem_map_of_mem ho
  rwa [Stmt.relabelAll_none] at heq

end ScopedScript
