import RuleLens.Compiler.Basic
import RuleLens.Diagnostic.Response
import RuleLens.Discovery

/-!
# Compiling many files

Every file of a batch has an outcome of its own, except that an error in the configuration ends the
whole batch.  Outcomes arrive in any order and are listed by path.
-/

namespace RuleLens

/-- Why a request failed. -/
inductive Failure where
  | analysis (e : AnalysisError)
  | compile (e : CompileError)
deriving Repr, DecidableEq

namespace Failure

def message [Automaton.Engine] : Failure → String
  | .analysis e => e.message
  | .compile e => e.message

/-- Errors that end a whole batch. -/
def isFatal : Failure → Bool
  | .compile e => e.isConfiguration
  | .analysis _ => false

end Failure

/-- What became of one file. -/
abbrev Outcome := Except Failure CompileReport

/-- The error that an outcome ends a batch with. -/
def fatal? : Outcome → Option Failure
  | .error e => if e.isFatal then some e else none
  | .ok _ => none

namespace Batch

/-- The result of a batch from its outcomes in the order of their arrival. -/
def ofArrivals (arrivals : List (Path × Outcome)) : Except Failure (List (Path × Outcome)) :=
  match arrivals.findSome? fun a => fatal? a.2 with
  | some e => .error e
  | none => .ok (arrivals.mergeSort fun a b => (compare a.1 b.1).isLE)

/-- Compile one file of at most `limit` bytes. -/
def compileFile (c : Compiler) (w : World) (limit : Nat) (file : Path) : Outcome :=
  match w.load limit file with
  | .error e => .error (.analysis e)
  | .ok doc =>
    match c.compile w file doc with
    | .error e => .error (.compile e)
    | .ok report => .ok report

/-- Compile at most `count` rule files below a root. -/
def compileAll [Automaton.Engine] (c : Compiler) (w : World) (limit : Nat) (f : Filter)
    (root : Path) (count : Nat) : Except Failure (List (Path × Outcome)) :=
  let files := (Discovery.find w f root count).map (Discovery.pathOf root)
  ofArrivals (files.map fun file => (file, compileFile c w limit file))

/-- The answer for one file of a batch. -/
def response [Automaton.Engine] (root : Path) (entry : Path × Outcome) : CompileResponse :=
  match entry.2 with
  | .ok report => report.response root
  | .error e => .failed root entry.1 e.message

end Batch

end RuleLens
