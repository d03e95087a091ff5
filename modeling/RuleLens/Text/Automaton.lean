/-!
# The size of automata

A search runs on an automaton that is made for its pattern, with a state for every byte that the
pattern spells out.  How much room the states may take is limited, so a pattern can be too long to
search for.  What a state takes and where the limits lie is up to the engine that makes the
automata.  All sizes are in bytes.
-/

namespace RuleLens.Automaton

/-- What makes automata.  It is found as an instance, so no query has to pass it on. -/
class Engine where
  /-- The room that a state takes, without the ways on from it. -/
  stateSize : Nat
  /-- The room that the automaton for a search may take. -/
  limit : Nat
  /-- The room that the automaton for the patterns of a file may take. -/
  patternLimit : Nat

export Engine (stateSize limit patternLimit)

/-- The engine that programs run on.  Patterns get more room there than a search: sets of 10.2 MiB
are known to be used, and sets of 14.7 MiB to be refused. -/
instance : Engine where
  stateSize := 32
  limit := 10 * 1024 * 1024
  patternLimit := 13 * 1024 * 1024

/-- A way on from a state that has several. -/
def linkSize : Nat := 4

/-- A way on from a state that is open to a range of bytes. -/
def edgeSize : Nat := 8

/-- One byte out of so many ranges. -/
def setSize [Engine] (ranges : Nat) : Nat :=
  2 * stateSize + ranges * edgeSize

/-- A fork into so many ways that meet again. -/
def forkSize [Engine] (ways : Nat) : Nat :=
  2 * stateSize + ways * linkSize

/-- A part that may be repeated, or once more than it is there. -/
def loopSize [Engine] (part : Nat) : Nat :=
  part + stateSize + 2 * linkSize

/-! ## Trees of words

One out of several words is found by a tree: words that start alike share the states for their
start.  A word that ends inside the tree keeps the words before it apart from those behind it, so
that the first word that fits wins. -/

/-- A node of a tree: what is left of the words that lead there, in order. -/
abbrev TreeNode := List (List UInt8)

namespace TreeNode

/-- The words that go on, those between two ends together.  Ends in front of all of them count
once. -/
def runs (node : TreeNode) : List TreeNode :=
  match node.splitOn [] with
  | [] :: rest => [] :: rest.dropWhile List.isEmpty
  | runs => runs

/-- The nodes that a run of words leads to, by the first byte of the words. -/
def next (run : TreeNode) : List TreeNode :=
  let byFirst := run.mergeSort fun a b => a.headD 0 ≤ b.headD 0
  (byFirst.splitBy fun a b => a.headD 0 == b.headD 0).map fun words => words.map List.tail

/-- The size of the states for a run of words that leads to so many nodes. -/
def runSize [Engine] (ways : Nat) : Nat :=
  if ways > 1 then stateSize + ways * edgeSize else stateSize

/-- The size of the states for a node whose words go on. -/
def size [Engine] (node : TreeNode) : Nat :=
  let ways := (runs node).map fun run => (next run).length
  let ends := ways.length - 1
  let going := ways.filter (· > 0)
  going.foldl (fun n k => n + runSize k) 0 + stateSize + (going.length + ends) * linkSize

end TreeNode

/-- The size of some nodes and all behind them, and `total`.  A single word has a state of each kind
for each of its bytes. -/
def nodesSize [Engine] : (fuel total : Nat) → List TreeNode → Nat
  | 0, total, _ => total
  | _, total, [] => total
  | fuel + 1, total, node :: pending =>
    match node with
    | [word] => nodesSize fuel (total + word.length * (2 * stateSize + linkSize)) pending
    | _ =>
      if node.all List.isEmpty then nodesSize fuel total pending
      else
        nodesSize fuel (total + node.size) ((node.runs.flatMap TreeNode.next) ++ pending)

/-- The size of a tree of words, which all lead to one state. -/
def treeSize [Engine] (words : List (List UInt8)) : Nat :=
  let bytes := words.foldl (fun n word => n + word.length) 0
  nodesSize (2 * bytes + 1) stateSize [words]

end RuleLens.Automaton
