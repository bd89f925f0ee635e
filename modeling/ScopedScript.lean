import ScopedScript.Main
import ScopedScript.Proofs.Command.Passes
import ScopedScript.Proofs.Eval.Frame
import ScopedScript.Proofs.Renaming.Invariance
import ScopedScript.Proofs.Scope.Legality
import ScopedScript.Proofs.Scope.Lexical
import ScopedScript.Proofs.Session.Assignments
import ScopedScript.Proofs.Session.Dialogue
import ScopedScript.Proofs.Session.Heap
import ScopedScript.Proofs.Session.LastValue
import ScopedScript.Proofs.Session.Loops
import ScopedScript.Proofs.Session.Place
import ScopedScript.Proofs.Session.Splitting
import ScopedScript.Proofs.Session.Superclasses
import ScopedScript.Proofs.Syntax.Indexing
import ScopedScript.Proofs.Syntax.Isolation
import ScopedScript.Proofs.Syntax.Positions
import ScopedScript.Proofs.Syntax.Unflattening
import ScopedScript.Proofs.Token.Bytes
import ScopedScript.Proofs.Token.Lexemes
import ScopedScript.Syntax.Equality
