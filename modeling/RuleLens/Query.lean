import RuleLens.Document
import RuleLens.IoError
import RuleLens.Text.Automaton

/-!
# Queries

A query reads a document line by line and looks at a cancellation token before each line.  A token
is known by how many more looks it lets pass, so a query is a function of the document, the question
and the moment at which it is cancelled.
-/

namespace RuleLens

/-- Why a question about a document has no answer. -/
inductive AnalysisError where
  /-- There is no word at this line and column, as shown to users. -/
  | noSymbol (line column : Nat)
  | noEnclosingRule (line : Nat)
  | cancelled
  | fileTooLarge (path : String) (sizeMb limitMb : Nat)
  /-- The automaton for a search would be too large. -/
  | searchTooLarge
  | io (cause : IoError)
deriving Repr, DecidableEq

namespace AnalysisError

/-- There is no word at `p`. -/
def noSymbolAt (p : Position) : AnalysisError :=
  .noSymbol p.toDisplay.1 p.toDisplay.2

def message [Automaton.Engine] : AnalysisError → String
  | .noSymbol line column => s!"No symbol at line {line}, column {column}"
  | .noEnclosingRule line => s!"No enclosing rule above line {line}"
  | .cancelled => "Request cancelled"
  | .fileTooLarge path sizeMb limitMb =>
    s!"File too large ({sizeMb}MB > {limitMb}MB limit): {path}"
  | .searchTooLarge =>
    "Analysis task failed: invalid reference pattern: " ++
      s!"Compiled regex exceeds size limit of {Automaton.limit} bytes."
  | .io cause => cause.message

end AnalysisError

/-- A cancellation token: it lets `remaining` more looks pass, or all of them. -/
structure Token where
  remaining : Option Nat
deriving Repr, DecidableEq

namespace Token

def never : Token := ⟨none⟩

def cancelled : Token := ⟨some 0⟩

end Token

/-- A computation that may be cancelled wherever it looks at its token. -/
abbrev Query := StateT Token (Except AnalysisError)

namespace Query

/-- Look at the token, and stop if it has been cancelled. -/
def poll : Query Unit := fun token =>
  match token.remaining with
  | none => .ok ((), token)
  | some 0 => .error .cancelled
  | some (k + 1) => .ok ((), ⟨some k⟩)

/-- Take room for an automaton, if there is as much. -/
def reserve [Automaton.Engine] (size : Nat) : Query Unit :=
  if size ≤ Automaton.limit then pure () else throw .searchTooLarge

/-- The first answer that `f` gives on a list of numbered lines. -/
def firstOf (f : Line → Nat → Option α) : List (Line × Nat) → Query (Option α)
  | [] => pure none
  | (line, n) :: rest => do
    poll
    match f line n with
    | some a => pure (some a)
    | none => firstOf f rest

/-- All answers that `f` gives on a list of numbered lines, behind those in `found`. -/
def allFrom (f : Line → Nat → List α) (found : Array α) : List (Line × Nat) → Query (List α)
  | [] => pure found.toList
  | (line, n) :: rest => do
    poll
    allFrom f (found ++ f line n) rest

/-- All answers that `f` gives on a list of numbered lines, in their order. -/
def allOf (f : Line → Nat → List α) (lines : List (Line × Nat)) : Query (List α) :=
  allFrom f #[] lines

/-- What a query answers under a token. -/
def answer (q : Query α) (token : Token) : Except AnalysisError α :=
  (q.run token).map (·.1)

end Query

end RuleLens
