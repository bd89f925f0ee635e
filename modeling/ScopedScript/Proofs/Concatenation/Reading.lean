import ScopedScript.Proofs.Concatenation.Scanning
import ScopedScript.Proofs.Syntax.Acceptance

/-!
# Reading two source texts at once

Two programs that stand one after the other are read as one program: the declarations of the first
and then those of the second, with the numbers that the second program is given when it is read
after the first. A program does not end inside a string, because the last of its tokens, if it has
any, is a mark.
-/

namespace ScopedScript

/-- The last of some tokens is a mark. -/
def Closes (w : List Token) : Prop := ∃ v t m, w = v ++ [t] ∧ t.kind = .mark m

namespace Closes

variable {t : Token} {m : Mark} {v w : List Token}

theorem last (v : List Token) (ht : t.kind = .mark m) : Closes (v ++ [t]) := ⟨v, t, m, rfl, ht⟩

theorem append (v : List Token) (h : Closes w) : Closes (v ++ w) := by
  obtain ⟨u, t, m, rfl, ht⟩ := h
  exact ⟨v ++ u, t, m, (List.append_assoc v u [t]).symm, ht⟩

theorem cons (t : Token) (h : Closes w) : Closes (t :: w) := h.append [t]

theorem append_of_or (h : Closes w) (hv : v = [] ∨ Closes v) : Closes (w ++ v) := by
  rcases hv with rfl | hv
  · rwa [List.append_nil]
  · exact hv.append w

end Closes

/-- What a phrase of statements is written as closes with a mark, unless it is no tokens at all. -/
def StmtPhrase.Closed (w : List Token) : StmtPhrase → Prop
  | methods _ | declarations _ => w = [] ∨ Closes w
  | _ => Closes w

theorem WrittenStmt.closed {p : StmtPhrase} {i j : NodeId} {w : List Token}
    (h : WrittenStmt p i w j) : p.Closed w := by
  induction h with
  | functionWithout _ _ _ _ _ hc _ | functionWith _ _ _ _ _ _ _ hc _ => exact .last _ hc
  | noMethods | noDeclarations => exact .inl rfl
  | method _ _ ih ihrest | declaration _ _ ih ihrest => exact .inr (ih.append_of_or ihrest)
  | varWithout _ hu => exact .last [_] hu
  | varWith _ _ _ hv => exact .last _ hv
  | expressionStatement _ ht => exact .last _ ht
  | noInitial ht => exact .last [] ht
  | varInitial _ _ ih | funDecl _ _ ih | varDecl _ _ ih => exact ih.cons _
  | expressionInitial _ ih | expression _ ih | statement _ ih => exact ih
  | forLoop _ _ _ _ _ _ _ _ _ ih => exact (ih.cons _).append _
  | ifThen _ _ _ _ _ ih | whileLoop _ _ _ _ _ ih => exact (ih.cons _).append _
  | ifElse _ _ _ _ _ _ _ _ ih => exact (ih.cons _).append _
  | print _ _ hu | giveBack _ _ hu => exact .last _ hu
  | block _ _ hc _ => exact .last _ hc
  | classDef _ _ _ _ _ hc _ => exact .last _ hc

/-- Declarations may be written one after the other. -/
theorem WrittenStmt.append {ss ss' : List Stmt} {i j k : NodeId} {v w : List Token}
    (h : WrittenStmt (.declarations ss) i w k) (h' : WrittenStmt (.declarations ss') k v j) :
    WrittenStmt (.declarations (ss ++ ss')) i (w ++ v) j := by
  induction ss generalizing i w with
  | nil =>
      cases h
      exact h'
  | cons s ss ih =>
      cases h with
      | declaration hfirst hrest =>
          rw [List.append_assoc]
          exact .declaration hfirst (ih hrest)

variable {p q : String} {base : NodeId} {P Q : List Stmt}

/-- A program does not end inside a string. -/
theorem stops_of_readProgram (h : (readProgram (scan p).tokens base).result = .ok P) :
    ∀ s ∈ segments p.toList, s.Stops := by
  rcases stops_or_string p with hstops | ⟨before, t, eof', text, htokens, ht⟩
  · exact hstops
  · obtain ⟨front, eof, heq, heof, hfront⟩ := exists_tokens_scan_eq p
    rw [heq, readProgram_ok_iff_written (fun t ht => (hfront t ht).1) heof] at h
    obtain ⟨_, hwritten⟩ := h
    have hlast : front ++ [eof] = before ++ [t] ++ [eof'] := by
      rw [← heq, htokens]
      simp
    obtain ⟨rfl, _⟩ := List.append_inj' hlast rfl
    rcases hwritten.closed with hnil | ⟨v, t', m, hcloses, ht'⟩
    · simp at hnil
    · obtain ⟨_, hsame⟩ := List.append_inj' hcloses rfl
      cases hsame
      rw [ht] at ht'
      cases ht'

/-- Two programs with a newline between them are read as the declarations of the first one and those
of the second one, which stand further down. -/
theorem readProgram_append (hp : (scan p).errors = []) (hq : (scan q).errors = [])
    (hP : (readProgram (scan p).tokens base).result = .ok P)
    (hQ : (readProgram (scan q).tokens (readProgram (scan p).tokens base).nextId).result = .ok Q) :
    (scan (p ++ "\n" ++ q)).errors = [] ∧
    (readProgram (scan (p ++ "\n" ++ q)).tokens base).result =
      .ok (P ++ Stmt.relabelAll (.reline (· + linesBefore p)) Q) ∧
    (readProgram (scan (p ++ "\n" ++ q)).tokens base).nextId =
      (readProgram (scan q).tokens (readProgram (scan p).tokens base).nextId).nextId := by
  obtain ⟨htokens, herrors⟩ := scan_append (stops_of_readProgram hP) q
  refine ⟨by rw [herrors, hp, hq]; rfl, ?_⟩
  obtain ⟨front, eof, hfront, heof, hordinary⟩ := exists_tokens_scan_eq p
  obtain ⟨front', eof', hfront', heof', hordinary'⟩ := exists_tokens_scan_eq q
  obtain ⟨c, hc, hnext⟩ := readProgram_eq_ok hP
  obtain ⟨c', hc', hnext'⟩ := readProgram_eq_ok hQ
  have hfirst : WrittenStmt (.declarations P) base front c.nextId := by
    rw [hfront, Cursor.ofTokens_append (fun t ht => (hordinary t ht).1) heof] at hc
    exact Reader.program_sound hc heof
  have hsecond : WrittenStmt (.declarations (Stmt.relabelAll (.reline (· + linesBefore p)) Q))
      c.nextId (front'.map (Token.relabel (.reline (· + linesBefore p)))) c'.nextId := by
    rw [hfront', hnext, Cursor.ofTokens_append (fun t ht => (hordinary' t ht).1) heof'] at hc'
    have hlower := (Reader.relabels_program (g := .reline (· + linesBefore p)) (fun _ => rfl)
      (readingFuel (front' ++ [eof']))).eq (s := ⟨front', eof', c.nextId⟩) trivial
    rw [hc'] at hlower
    exact Reader.program_sound hlower heof'
  have hend : (eof'.relabel (.reline (· + linesBefore p))).kind = .eof := heof'
  have hread : Reader.program (readingFuel (scan (p ++ "\n" ++ q)).tokens)
      (Cursor.ofTokens (scan (p ++ "\n" ++ q)).tokens base) =
      .ok (P ++ Stmt.relabelAll (.reline (· + linesBefore p)) Q)
        ⟨[], eof'.relabel (.reline (· + linesBefore p)), c'.nextId⟩ := by
    rw [htokens, hfront, List.dropLast_concat, hfront', List.map_append, ← List.append_assoc,
      List.map_singleton, Cursor.ofTokens_append _ hend]
    · refine Reader.program_complete hend (hfirst.append hsecond) ?_
      simp only [readingFuel, List.length_append, List.length_singleton]
      omega
    · intro t ht
      rcases List.mem_append.mp ht with ht | ht
      · exact (hordinary t ht).1
      · obtain ⟨t', ht', rfl⟩ := List.mem_map.mp ht
        exact (hordinary' t' ht').1
  rw [hnext']
  unfold readProgram
  simp only [hread, and_self]

end ScopedScript
