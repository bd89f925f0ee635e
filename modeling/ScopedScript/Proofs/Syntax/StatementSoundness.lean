import ScopedScript.Proofs.Syntax.ExpressionSoundness

/-!
# Statements are read from what they are written as

When a reader of statements or declarations ends well, the tokens it took are what the tree it
gives is written as. A statement that ends in an `if` without an `else` was not followed by an
`else`, which is why the reader left it so.
-/

namespace ScopedScript

/-- A phrase of a statement or a declaration stands between two places. -/
def ReadsStmt (p : StmtPhrase) (c c' : Cursor) : Prop :=
  ∃ w, Takes c w c' ∧ WrittenStmt p c.nextId w c'.nextId

/-- A phrase and a closing brace stand between two places. -/
def ReadsClosed (p : StmtPhrase) (c c' : Cursor) : Prop :=
  ∃ w t, Takes c (w ++ [t]) c' ∧ t.kind = .mark .rightBrace ∧
    WrittenStmt p c.nextId w c'.nextId

namespace Reader

variable {fuel : Nat} {c c' : Cursor}

theorem parameters_sound {count : Nat} {names : List Name}
    (h : parameters fuel count c = .ok names c') (hc : c.eof.kind = .eof) :
    count + names.length ≤ maxArity ∧ c'.nextId = c.nextId ∧
      ∃ w, Takes c w c' ∧ WrittenParameters names w := by
  induction fuel generalizing count c c' names with
  | zero => cases h
  | succ fuel ih =>
      unfold parameters at h
      by_cases hcount : maxArity ≤ count
      · rw [if_pos hcount] at h
        cases h
      rw [if_neg hcount] at h
      obtain ⟨name, _, hname, h⟩ := Run.bind_eq_ok.mp h
      obtain ⟨rfl, rfl, hname, hnameKind⟩ := identifier_eq_ok hname hc
      obtain ⟨b, _, haccept, h⟩ := Run.bind_eq_ok.mp h
      obtain ⟨rfl, rfl, hcomma, hcommaKind⟩ | ⟨rfl, rfl, _⟩ := accept_eq_ok haccept
      · rw [if_pos rfl] at h
        obtain ⟨rest, _, hrest, h⟩ := Run.bind_eq_ok.mp h
        cases h
        obtain ⟨hlength, hid, w, hw, hnames⟩ := ih hrest hc
        refine ⟨?_, hid, _, hname.takes.trans (hcomma.takes.trans hw),
          .more hnameKind hcommaKind hnames⟩
        simp only [List.length_cons]
        omega
      · rw [if_neg Bool.false_ne_true] at h
        cases h
        refine ⟨?_, rfl, _, hname.takes, .last hnameKind⟩
        simp only [List.length_singleton]
        omega

theorem expressionUnless_sound {m : Mark} {e : Option Expr}
    (h : expressionUnless fuel m c = .ok e c') (hc : c.eof.kind = .eof) :
    ∃ w, Takes c w c' ∧ WrittenOption e c.nextId w c'.nextId := by
  obtain ⟨b, _, hsees, h⟩ := Run.bind_eq_ok.mp h
  obtain ⟨rfl, _⟩ := sees_eq_ok hsees
  cases b with
  | true =>
      cases h
      exact ⟨[], .refl c, .none⟩
  | false =>
      rw [if_neg Bool.false_ne_true] at h
      obtain ⟨value, _, hvalue, h⟩ := Run.bind_eq_ok.mp h
      cases h
      obtain ⟨w, hw, hvalue⟩ := (exprReadersSound fuel).expression hvalue hc
      exact ⟨w, hw, .some hvalue⟩

theorem varDeclaration_sound {s : Stmt} (h : varDeclaration fuel c = .ok s c')
    (hc : c.eof.kind = .eof) : ReadsStmt (.varDeclaration s) c c' := by
  obtain ⟨name, _, hname, h⟩ := Run.bind_eq_ok.mp h
  obtain ⟨rfl, rfl, hname, hnameKind⟩ := identifier_eq_ok hname hc
  obtain ⟨b, _, haccept, h⟩ := Run.bind_eq_ok.mp h
  obtain ⟨rfl, rfl, hequal, hequalKind⟩ | ⟨rfl, rfl, _⟩ := accept_eq_ok haccept
  · rw [if_pos rfl] at h
    obtain ⟨initial, _, hinitial, h⟩ := Run.bind_eq_ok.mp h
    obtain ⟨value, hvalue, rfl⟩ := Run.map_eq_ok.mp hinitial
    obtain ⟨w, hw, hvalue⟩ := (exprReadersSound fuel).expression hvalue hc
    obtain ⟨_, _, hend, h⟩ := Run.bind_eq_ok.mp h
    obtain ⟨rfl, rfl, hend, hendKind⟩ := expect_eq_ok hend
    cases h
    exact ⟨_, (hname.takes.trans (hequal.takes.trans hw)).trans hend.takes,
      .varWith hnameKind hequalKind hvalue hendKind⟩
  · rw [if_neg Bool.false_ne_true, pure_bind] at h
    obtain ⟨_, _, hend, h⟩ := Run.bind_eq_ok.mp h
    obtain ⟨rfl, rfl, hend, hendKind⟩ := expect_eq_ok hend
    cases h
    exact ⟨_, hname.takes.trans hend.takes, .varWithout hnameKind hendKind⟩

theorem expressionStatement_sound {s : Stmt} (h : expressionStatement fuel c = .ok s c')
    (hc : c.eof.kind = .eof) : ReadsStmt (.expressionStatement s) c c' := by
  obtain ⟨value, _, hvalue, h⟩ := Run.bind_eq_ok.mp h
  obtain ⟨w, hw, hvalue⟩ := (exprReadersSound fuel).expression hvalue hc
  obtain ⟨_, _, hend, h⟩ := Run.bind_eq_ok.mp h
  obtain ⟨rfl, rfl, hend, hendKind⟩ := expect_eq_ok hend
  cases h
  exact ⟨_, hw.trans hend.takes, .expressionStatement hvalue hendKind⟩

theorem superclass_sound {ref : Option Reference} (h : superclass c = .ok ref c')
    (hc : c.eof.kind = .eof) :
    ∃ w, Takes c w c' ∧ WrittenSuperclass ref c.nextId w c'.nextId := by
  obtain ⟨b, _, haccept, h⟩ := Run.bind_eq_ok.mp h
  obtain ⟨rfl, rfl, hless, hlessKind⟩ | ⟨rfl, rfl, _⟩ := accept_eq_ok haccept
  · rw [if_pos rfl] at h
    obtain ⟨name, _, hname, h⟩ := Run.bind_eq_ok.mp h
    obtain ⟨rfl, rfl, hname, hnameKind⟩ := identifier_eq_ok hname hc
    cases h
    have htakes := hless.takes.trans hname.takes
    exact ⟨_, ⟨htakes.rest_eq, htakes.eof_eq⟩, .some hlessKind hnameKind⟩
  · rw [if_neg Bool.false_ne_true] at h
    cases h
    exact ⟨[], .refl _, .none⟩

theorem forInitial_sound {initial : Option Stmt} (h : forInitial fuel c = .ok initial c')
    (hc : c.eof.kind = .eof) : ReadsStmt (.forInitial initial) c c' := by
  obtain ⟨t, _, hpeek, h⟩ := Run.bind_eq_ok.mp h
  cases hpeek
  have hexpression (h : (do return some (← expressionStatement fuel) : Reader (Option Stmt)) c =
      .ok initial c') : ReadsStmt (.forInitial initial) c c' := by
    obtain ⟨s, _, hs, h⟩ := Run.bind_eq_ok.mp h
    cases h
    obtain ⟨w, hw, hs⟩ := expressionStatement_sound hs hc
    exact ⟨w, hw, .expressionInitial hs⟩
  have hnext (hkind : c.peek.kind ≠ .eof) : c.HasNext := Cursor.hasNext_of_peek_kind_ne hc hkind
  cases hkind : c.peek.kind with
  | mark m =>
      simp only [hkind] at h
      cases m with
      | semicolon =>
          cases h
          exact ⟨_, (hnext (by simp [hkind])).takes, .noInitial hkind⟩
      | _ => exact hexpression h
  | keyword k =>
      simp only [hkind] at h
      cases k with
      | varWord =>
          obtain ⟨_, _, hadvance, h⟩ := Run.bind_eq_ok.mp h
          cases hadvance
          obtain ⟨s, _, hs, h⟩ := Run.bind_eq_ok.mp h
          cases h
          obtain ⟨w, hw, hs⟩ := varDeclaration_sound hs hc
          exact ⟨_, (hnext (by simp [hkind])).takes.trans hw, .varInitial hkind hs⟩
      | _ => exact hexpression h
  | identifier | string _ | number _ | eof =>
      simp only [hkind] at h
      exact hexpression h

end Reader

/-- A statement stands between two places, and an `if` without an `else` at its end is not followed
by an `else`. -/
def ReadsStatement (s : Stmt) (c c' : Cursor) : Prop :=
  ∃ dangling, ReadsStmt (.statement dangling s) c c' ∧
    (dangling = true → c'.peek.kind ≠ .keyword .elseWord)

/-- With a given fuel, the readers of statements and declarations read phrases of their sorts. -/
structure StmtReadersSound (fuel : Nat) : Prop where
  declaration {c s c'} : Reader.declaration fuel c = .ok s c' → c.eof.kind = .eof →
    ReadsStmt (.declaration s) c c'
  methods {c ds c'} : Reader.methods fuel c = .ok ds c' → c.eof.kind = .eof →
    ReadsClosed (.methods ds) c c'
  function {routine c d c'} : Reader.function fuel routine c = .ok d c' → c.eof.kind = .eof →
    ReadsStmt (.function d) c c'
  block {c ss c'} : Reader.block fuel c = .ok ss c' → c.eof.kind = .eof →
    ReadsClosed (.declarations ss) c c'
  statement {c s c'} : Reader.statement fuel c = .ok s c' → c.eof.kind = .eof →
    ReadsStatement s c c'

namespace StmtReadersSound

open Reader

variable {fuel : Nat} {c c' : Cursor}

theorem declaration_succ (ih : StmtReadersSound fuel) {s : Stmt}
    (h : Reader.declaration (fuel + 1) c = .ok s c') (hc : c.eof.kind = .eof) :
    ReadsStmt (.declaration s) c c' := by
  obtain ⟨t, _, hpeek, h⟩ := Run.bind_eq_ok.mp h
  cases hpeek
  have hstatement (h : Reader.statement fuel c = .ok s c') : ReadsStmt (.declaration s) c c' := by
    obtain ⟨_, ⟨w, hw, hs⟩, _⟩ := ih.statement h hc
    exact ⟨w, hw, .statement hs⟩
  cases hkind : c.peek.kind with
  | keyword k =>
      simp only [hkind] at h
      -- a keyword is not the end of the text
      have hnext : c.HasNext := Cursor.hasNext_of_peek_kind_ne hc (by simp [hkind])
      cases k with
      | classWord =>
          obtain ⟨_, _, hadvance, h⟩ := Run.bind_eq_ok.mp h
          cases hadvance
          obtain ⟨name, _, hname, h⟩ := Run.bind_eq_ok.mp h
          obtain ⟨rfl, rfl, hname, hnameKind⟩ := identifier_eq_ok hname hc
          obtain ⟨superclass, c₁, hsuperclass, h⟩ := Run.bind_eq_ok.mp h
          obtain ⟨w, hw, hsuperclass⟩ := superclass_sound hsuperclass hc
          obtain ⟨_, _, hopen, h⟩ := Run.bind_eq_ok.mp h
          obtain ⟨rfl, rfl, hopen, hopenKind⟩ := expect_eq_ok hopen
          obtain ⟨methods, _, hmethods, h⟩ := Run.bind_eq_ok.mp h
          obtain ⟨v, t, hv, ht, hmethods⟩ := ih.methods hmethods (hw.eof_kind hc)
          cases h
          have htakes := (hnext.takes.trans (hname.takes.trans hw)).trans (hopen.takes.trans hv)
          refine ⟨_, ?_, .classDef hkind hnameKind hsuperclass hopenKind hmethods ht⟩
          simpa using htakes
      | funWord =>
          obtain ⟨_, _, hadvance, h⟩ := Run.bind_eq_ok.mp h
          cases hadvance
          obtain ⟨d, _, hd, h⟩ := Run.bind_eq_ok.mp h
          obtain ⟨w, hw, hd⟩ := ih.function hd hc
          cases h
          exact ⟨_, hnext.takes.trans hw, .funDecl hkind hd⟩
      | varWord =>
          obtain ⟨_, _, hadvance, h⟩ := Run.bind_eq_ok.mp h
          cases hadvance
          obtain ⟨w, hw, hs⟩ := varDeclaration_sound h hc
          exact ⟨_, hnext.takes.trans hw, .varDecl hkind hs⟩
      | _ => exact hstatement h
  | mark _ | identifier | string _ | number _ | eof =>
      simp only [hkind] at h
      exact hstatement h

/-- A reader that stops before a closing brace ends well only past the brace. -/
theorem closed_of_stop {α : Type} {fault : SyntaxFault} {p : α → StmtPhrase} {a b : α}
    (h : (do let _ ← expect .rightBrace fault; return a : Reader α) c = .ok b c')
    (hp : ∀ i, WrittenStmt (p a) i [] i) : ReadsClosed (p b) c c' := by
  obtain ⟨_, _, hclose, h⟩ := Run.bind_eq_ok.mp h
  obtain ⟨rfl, rfl, hclose, hcloseKind⟩ := expect_eq_ok hclose
  cases h
  exact ⟨[], _, hclose.takes, hcloseKind, hp _⟩

theorem methods_succ (ih : StmtReadersSound fuel) {ds : List FunctionDecl}
    (h : Reader.methods (fuel + 1) c = .ok ds c') (hc : c.eof.kind = .eof) :
    ReadsClosed (.methods ds) c c' := by
  obtain ⟨_, _, hend, h⟩ := Run.bind_eq_ok.mp h
  cases hend
  obtain ⟨_, _, hsees, h⟩ := Run.bind_eq_ok.mp h
  cases hsees
  split at h
  next => exact closed_of_stop h fun _ => .noMethods
  next =>
      obtain ⟨d, _, hd, h⟩ := Run.bind_eq_ok.mp h
      obtain ⟨w, hw, hd⟩ := ih.function hd hc
      obtain ⟨ds, _, hds, h⟩ := Run.bind_eq_ok.mp h
      obtain ⟨v, t, hv, ht, hds⟩ := ih.methods hds (hw.eof_kind hc)
      cases h
      exact ⟨w ++ v, t, by simpa using hw.trans hv, ht, .method hd hds⟩

theorem block_succ (ih : StmtReadersSound fuel) {ss : List Stmt}
    (h : Reader.block (fuel + 1) c = .ok ss c') (hc : c.eof.kind = .eof) :
    ReadsClosed (.declarations ss) c c' := by
  obtain ⟨_, _, hend, h⟩ := Run.bind_eq_ok.mp h
  cases hend
  obtain ⟨_, _, hsees, h⟩ := Run.bind_eq_ok.mp h
  cases hsees
  split at h
  next => exact closed_of_stop h fun _ => .noDeclarations
  next =>
      obtain ⟨first, _, hfirst, h⟩ := Run.bind_eq_ok.mp h
      obtain ⟨w, hw, hfirst⟩ := ih.declaration hfirst hc
      obtain ⟨ss, _, hss, h⟩ := Run.bind_eq_ok.mp h
      obtain ⟨v, t, hv, ht, hss⟩ := ih.block hss (hw.eof_kind hc)
      cases h
      exact ⟨w ++ v, t, by simpa using hw.trans hv, ht, .declaration hfirst hss⟩

theorem function_succ (ih : StmtReadersSound fuel) {routine : Routine} {d : FunctionDecl}
    (h : Reader.function (fuel + 1) routine c = .ok d c') (hc : c.eof.kind = .eof) :
    ReadsStmt (.function d) c c' := by
  obtain ⟨name, _, hname, h⟩ := Run.bind_eq_ok.mp h
  obtain ⟨rfl, rfl, hname, hnameKind⟩ := identifier_eq_ok hname hc
  obtain ⟨_, _, hopen, h⟩ := Run.bind_eq_ok.mp h
  obtain ⟨rfl, rfl, hopen, hopenKind⟩ := expect_eq_ok hopen
  have hstart := hname.takes.trans hopen.takes
  obtain ⟨empty, _, hsees, h⟩ := Run.bind_eq_ok.mp h
  obtain ⟨rfl, _⟩ := sees_eq_ok hsees
  cases empty with
  | true =>
      rw [if_pos rfl, pure_bind] at h
      obtain ⟨_, _, hclose, h⟩ := Run.bind_eq_ok.mp h
      obtain ⟨rfl, rfl, hclose, hcloseKind⟩ := expect_eq_ok hclose
      obtain ⟨_, _, hbrace, h⟩ := Run.bind_eq_ok.mp h
      obtain ⟨rfl, rfl, hbrace, hbraceKind⟩ := expect_eq_ok hbrace
      obtain ⟨body, _, hbody, h⟩ := Run.bind_eq_ok.mp h
      obtain ⟨w, t, hw, ht, hbody⟩ := ih.block hbody hc
      cases h
      exact ⟨_, hstart.trans ((hclose.takes.trans hbrace.takes).trans hw),
        .functionWithout hnameKind hopenKind hcloseKind hbraceKind hbody ht⟩
  | false =>
      rw [if_neg Bool.false_ne_true] at h
      obtain ⟨names, c₁, hnames, h⟩ := Run.bind_eq_ok.mp h
      obtain ⟨hlength, hid, p, hp, hnames⟩ := parameters_sound hnames hc
      obtain ⟨_, _, hclose, h⟩ := Run.bind_eq_ok.mp h
      obtain ⟨rfl, rfl, hclose, hcloseKind⟩ := expect_eq_ok hclose
      obtain ⟨_, _, hbrace, h⟩ := Run.bind_eq_ok.mp h
      obtain ⟨rfl, rfl, hbrace, hbraceKind⟩ := expect_eq_ok hbrace
      obtain ⟨body, _, hbody, h⟩ := Run.bind_eq_ok.mp h
      obtain ⟨w, t, hw, ht, hbody⟩ := ih.block hbody (hp.eof_kind hc)
      cases h
      have htakes := (hstart.trans hp).trans ((hclose.takes.trans hbrace.takes).trans hw)
      -- parameters take no numbers
      rw [show (Cursor.advance (Cursor.advance c₁)).nextId = c.nextId from hid] at hbody
      refine ⟨_, ?_, .functionWith hnameKind hopenKind (by omega) hnames hcloseKind hbraceKind
        hbody ht⟩
      simpa using htakes

theorem forLoop_sound (ih : StmtReadersSound fuel) {s : Stmt} (hnext : c.HasNext)
    (hkind : c.peek.kind = .keyword .forWord)
    (h : (do
      advance
      let _ ← expect .leftParen .noForOpening
      let initial ← forInitial fuel
      let condition ← expressionUnless fuel .semicolon
      let _ ← expect .semicolon .noLoopConditionEnd
      let step ← expressionUnless fuel .rightParen
      let _ ← expect .rightParen .noForClosing
      let body ← Reader.statement fuel
      return .forLoop initial condition step body : Reader Stmt) c = .ok s c')
    (hc : c.eof.kind = .eof) : ReadsStatement s c c' := by
  obtain ⟨_, _, hadvance, h⟩ := Run.bind_eq_ok.mp h
  cases hadvance
  obtain ⟨_, _, hopen, h⟩ := Run.bind_eq_ok.mp h
  obtain ⟨rfl, rfl, hopen, hopenKind⟩ := expect_eq_ok hopen
  obtain ⟨initial, c₁, hinitial, h⟩ := Run.bind_eq_ok.mp h
  obtain ⟨w₁, hw₁, hinitial⟩ := forInitial_sound hinitial hc
  have hc₁ := hw₁.eof_kind hc
  obtain ⟨condition, c₂, hcondition, h⟩ := Run.bind_eq_ok.mp h
  obtain ⟨w₂, hw₂, hcondition⟩ := expressionUnless_sound hcondition hc₁
  have hc₂ := hw₂.eof_kind hc₁
  obtain ⟨_, _, hsemicolon, h⟩ := Run.bind_eq_ok.mp h
  obtain ⟨rfl, rfl, hsemicolon, hsemicolonKind⟩ := expect_eq_ok hsemicolon
  obtain ⟨step, c₃, hstep, h⟩ := Run.bind_eq_ok.mp h
  obtain ⟨w₃, hw₃, hstep⟩ := expressionUnless_sound hstep hc₂
  obtain ⟨_, _, hclose, h⟩ := Run.bind_eq_ok.mp h
  obtain ⟨rfl, rfl, hclose, hcloseKind⟩ := expect_eq_ok hclose
  obtain ⟨body, _, hbody, h⟩ := Run.bind_eq_ok.mp h
  obtain ⟨dangling, ⟨w₄, hw₄, hbody⟩, helse⟩ := ih.statement hbody (hw₃.eof_kind hc₂)
  cases h
  have htakes := ((hnext.takes.trans hopen.takes).trans (hw₁.trans hw₂)).trans
    ((hsemicolon.takes.trans hw₃).trans (hclose.takes.trans hw₄))
  refine ⟨dangling, ⟨_, ?_, .forLoop hkind hopenKind hinitial hcondition hsemicolonKind hstep
    hcloseKind hbody⟩, helse⟩
  simpa using htakes

theorem ifStatement_sound (ih : StmtReadersSound fuel) {s : Stmt} (hnext : c.HasNext)
    (hkind : c.peek.kind = .keyword .ifWord)
    (h : (do
      advance
      let _ ← expect .leftParen .noIfOpening
      let condition ← Reader.expression fuel
      let _ ← expect .rightParen .noIfClosing
      let thenBranch ← Reader.statement fuel
      let next ← peek
      match next.kind with
      | .keyword .elseWord =>
        advance
        return .ifElse condition thenBranch (← Reader.statement fuel)
      | _ => return .ifThen condition thenBranch : Reader Stmt) c = .ok s c')
    (hc : c.eof.kind = .eof) : ReadsStatement s c c' := by
  obtain ⟨_, _, hadvance, h⟩ := Run.bind_eq_ok.mp h
  cases hadvance
  obtain ⟨_, _, hopen, h⟩ := Run.bind_eq_ok.mp h
  obtain ⟨rfl, rfl, hopen, hopenKind⟩ := expect_eq_ok hopen
  obtain ⟨condition, c₁, hcondition, h⟩ := Run.bind_eq_ok.mp h
  obtain ⟨w, hw, hcondition⟩ := (exprReadersSound fuel).expression hcondition hc
  have hc₁ := hw.eof_kind hc
  obtain ⟨_, _, hclose, h⟩ := Run.bind_eq_ok.mp h
  obtain ⟨rfl, rfl, hclose, hcloseKind⟩ := expect_eq_ok hclose
  obtain ⟨thenBranch, c₂, hthen, h⟩ := Run.bind_eq_ok.mp h
  obtain ⟨dangling, ⟨v, hv, hthen⟩, helse⟩ := ih.statement hthen hc₁
  obtain ⟨_, _, hpeek, h⟩ := Run.bind_eq_ok.mp h
  cases hpeek
  have htakes := (hnext.takes.trans (hopen.takes.trans hw)).trans (hclose.takes.trans hv)
  by_cases hword : c₂.peek.kind = .keyword .elseWord
  · simp only [hword] at h
    have hnext₂ : c₂.HasNext := Cursor.hasNext_of_peek_kind_ne (hv.eof_kind hc₁) (by simp [hword])
    obtain ⟨_, _, hadvance, h⟩ := Run.bind_eq_ok.mp h
    cases hadvance
    obtain ⟨elseBranch, c₃, helseBranch, h⟩ := Run.bind_eq_ok.mp h
    obtain ⟨dangling', ⟨u, hu, helseBranch⟩, helse'⟩ :=
      ih.statement helseBranch (hv.eof_kind hc₁)
    cases h
    -- an `else` after the branch shows that the branch was not dangling
    have hfalse : dangling = false := by
      cases dangling with
      | false => rfl
      | true => exact (helse rfl hword).elim
    subst hfalse
    refine ⟨dangling', ⟨_, ?_, .ifElse hkind hopenKind hcondition hcloseKind hthen hword
      helseBranch⟩, helse'⟩
    simpa using htakes.trans (hnext₂.takes.trans hu)
  -- without an `else` the statement is dangling, whatever the branch is
  · have hshort : s = .ifThen condition thenBranch ∧ c₂ = c' := by
      cases hafter : c₂.peek.kind with
      | keyword k =>
          simp only [hafter] at h
          cases k with
          | elseWord => exact (hword hafter).elim
          | _ =>
              cases h
              exact ⟨rfl, rfl⟩
      | mark _ | identifier | string _ | number _ | eof =>
          simp only [hafter] at h
          cases h
          exact ⟨rfl, rfl⟩
    obtain ⟨rfl, rfl⟩ := hshort
    exact ⟨true, ⟨_, by simpa using htakes, .ifThen hkind hopenKind hcondition hcloseKind hthen⟩,
      fun _ => hword⟩

theorem statement_succ (ih : StmtReadersSound fuel) {s : Stmt}
    (h : Reader.statement (fuel + 1) c = .ok s c') (hc : c.eof.kind = .eof) :
    ReadsStatement s c c' := by
  obtain ⟨t, _, hpeek, h⟩ := Run.bind_eq_ok.mp h
  cases hpeek
  have hexpression (h : expressionStatement fuel c = .ok s c') : ReadsStatement s c c' := by
    obtain ⟨w, hw, hs⟩ := expressionStatement_sound h hc
    exact ⟨false, ⟨w, hw, .expression hs⟩, fun hfalse => (Bool.false_ne_true hfalse).elim⟩
  have hnext (hkind : c.peek.kind ≠ .eof) : c.HasNext := Cursor.hasNext_of_peek_kind_ne hc hkind
  cases hkind : c.peek.kind with
  | keyword k =>
      simp only [hkind] at h
      have hnext : c.HasNext := hnext (by simp [hkind])
      cases k with
      | forWord => exact ih.forLoop_sound hnext hkind h hc
      | ifWord => exact ih.ifStatement_sound hnext hkind h hc
      | printWord =>
          obtain ⟨_, _, hadvance, h⟩ := Run.bind_eq_ok.mp h
          cases hadvance
          obtain ⟨value, _, hvalue, h⟩ := Run.bind_eq_ok.mp h
          obtain ⟨w, hw, hvalue⟩ := (exprReadersSound fuel).expression hvalue hc
          obtain ⟨_, _, hend, h⟩ := Run.bind_eq_ok.mp h
          obtain ⟨rfl, rfl, hend, hendKind⟩ := expect_eq_ok hend
          cases h
          exact ⟨false, ⟨_, (hnext.takes.trans hw).trans hend.takes, .print hkind hvalue hendKind⟩,
            fun hfalse => (Bool.false_ne_true hfalse).elim⟩
      | returnWord =>
          obtain ⟨_, _, hadvance, h⟩ := Run.bind_eq_ok.mp h
          cases hadvance
          obtain ⟨value, _, hvalue, h⟩ := Run.bind_eq_ok.mp h
          obtain ⟨w, hw, hvalue⟩ := expressionUnless_sound hvalue hc
          obtain ⟨_, _, hend, h⟩ := Run.bind_eq_ok.mp h
          obtain ⟨rfl, rfl, hend, hendKind⟩ := expect_eq_ok hend
          cases h
          exact ⟨false,
            ⟨_, (hnext.takes.trans hw).trans hend.takes, .giveBack hkind hvalue hendKind⟩,
            fun hfalse => (Bool.false_ne_true hfalse).elim⟩
      | whileWord =>
          obtain ⟨_, _, hadvance, h⟩ := Run.bind_eq_ok.mp h
          cases hadvance
          obtain ⟨_, _, hopen, h⟩ := Run.bind_eq_ok.mp h
          obtain ⟨rfl, rfl, hopen, hopenKind⟩ := expect_eq_ok hopen
          obtain ⟨condition, _, hcondition, h⟩ := Run.bind_eq_ok.mp h
          obtain ⟨w, hw, hcondition⟩ := (exprReadersSound fuel).expression hcondition hc
          obtain ⟨_, _, hclose, h⟩ := Run.bind_eq_ok.mp h
          obtain ⟨rfl, rfl, hclose, hcloseKind⟩ := expect_eq_ok hclose
          obtain ⟨body, _, hbody, h⟩ := Run.bind_eq_ok.mp h
          obtain ⟨dangling, ⟨v, hv, hbody⟩, helse⟩ := ih.statement hbody (hw.eof_kind hc)
          cases h
          have htakes := (hnext.takes.trans (hopen.takes.trans hw)).trans (hclose.takes.trans hv)
          exact ⟨dangling, ⟨_, by simpa using htakes,
            .whileLoop hkind hopenKind hcondition hcloseKind hbody⟩, helse⟩
      | _ => exact hexpression h
  | mark m =>
      simp only [hkind] at h
      cases m with
      | leftBrace =>
          obtain ⟨_, _, hadvance, h⟩ := Run.bind_eq_ok.mp h
          cases hadvance
          obtain ⟨body, _, hbody, h⟩ := Run.bind_eq_ok.mp h
          obtain ⟨w, t, hw, ht, hbody⟩ := ih.block hbody hc
          cases h
          exact ⟨false, ⟨_, (hnext (by simp [hkind])).takes.trans hw, .block hkind hbody ht⟩,
            fun hfalse => (Bool.false_ne_true hfalse).elim⟩
      | _ => exact hexpression h
  | identifier | string _ | number _ | eof =>
      simp only [hkind] at h
      exact hexpression h

end StmtReadersSound

/-- The readers of statements and declarations read what the phrases of their sorts are written
as. -/
theorem stmtReadersSound (fuel : Nat) : StmtReadersSound fuel := by
  induction fuel with
  | zero => constructor <;> intros <;> contradiction
  | succ fuel ih =>
      exact {
        declaration := ih.declaration_succ
        methods := ih.methods_succ
        function := ih.function_succ
        block := ih.block_succ
        statement := ih.statement_succ }

/-- A program that is read to the end is what its tokens are written as. -/
theorem Reader.program_sound {fuel : Nat} {c c' : Cursor} {program : List Stmt}
    (h : Reader.program fuel c = .ok program c') (hc : c.eof.kind = .eof) :
    WrittenStmt (.declarations program) c.nextId c.rest c'.nextId := by
  induction fuel generalizing c c' program with
  | zero => cases h
  | succ fuel ih =>
      obtain ⟨ended, _, hend, h⟩ := Run.bind_eq_ok.mp h
      cases hend
      cases hended : c.atEnd with
      | true =>
          rw [hended, if_pos rfl] at h
          cases h
          -- the reader stops only where no token is left
          rw [show c.rest = [] from List.isEmpty_iff.mp hended]
          exact .noDeclarations
      | false =>
          rw [hended, if_neg Bool.false_ne_true] at h
          obtain ⟨first, c₁, hfirst, h⟩ := Run.bind_eq_ok.mp h
          obtain ⟨w, hw, hfirst⟩ := (stmtReadersSound fuel).declaration hfirst hc
          obtain ⟨rest, _, hrest, h⟩ := Run.bind_eq_ok.mp h
          cases h
          rw [hw.rest_eq]
          exact .declaration hfirst (ih hrest (hw.eof_kind hc))

end ScopedScript
