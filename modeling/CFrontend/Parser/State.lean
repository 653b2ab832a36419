import CFrontend.Grammar.Recursion
import CFrontend.Tree.Basic

/-!
A state is a partial derivation of the tokens read so far: a frame for each production under way,
the innermost first. Expanding states predicts nonterminals, closes finished frames into their
parents, and grows left recursion around them.
-/
namespace CFrontend.Parser

open Grammar (Cycle)

/-- A production under way. -/
structure Frame where
  production : Production
  /-- The children so far, the last one first. -/
  matched : List Tree
  /-- The symbols still to match. -/
  rest : List Symbol
  /-- The number of tokens before the one at which the production was predicted. -/
  origin : Nat
deriving Repr, Inhabited

namespace Frame

/-- A production of which nothing is matched. -/
def predicted (production : Production) (origin : Nat) : Frame :=
  ⟨production,[],production.rule.rhs,origin⟩

/-- The nonterminal that the frame derives. -/
def name (frame : Frame) : String := frame.production.rule.lhs

/-- Matches the next symbol with a tree. -/
def advance (frame : Frame) (tree : Tree) : Frame :=
  { frame with matched := tree :: frame.matched,rest := frame.rest.tail }

/-- The tree of a frame with all symbols matched. -/
def tree (frame : Frame) : Tree := .branch frame.name frame.matched.reverse

end Frame

/-- A partial derivation: the innermost frame and the frames that wait for it. -/
structure State where
  frame : Frame
  ancestors : List Frame
deriving Repr, Inhabited

namespace State

/-- The derivation of which only the start production is under way. -/
def root (production : Production) : State := ⟨.predicted production 0,[]⟩

/-- Matches the next symbol of the innermost frame with a tree. -/
def advance (state : State) (tree : Tree) : State :=
  { state with frame := state.frame.advance tree }

/-- Whether predicting a nonterminal would enter it again without a token in between: some frame of
    the chain that was predicted at the current token already derives it. -/
def isLooped (state : State) (name : String) (current : Nat) : Bool :=
  ((state.frame :: state.ancestors).takeWhile fun frame => frame.origin == current).any
    fun frame => frame.name == name

/-- Predicts the alternatives of the next symbol. -/
def predict (state : State) (alternatives : List Production) (current : Nat) : List State :=
  alternatives.map fun production =>
    ⟨.predicted production current,state.frame :: state.ancestors⟩

/-- Whether a cycle may be grown around a finished frame. Growth makes up for the predictions that
    were cut as loops, and those lie below the topmost frame of the cycle's nonterminals that was
    predicted at the same token. Growing further down would derive the same trees again. -/
def mayGrow (state : State) (cycle : Cycle) : Bool :=
  !(state.ancestors.takeWhile fun frame => frame.origin == state.frame.origin).any
    fun frame => cycle.any fun step => step.rule.lhs == frame.name

/-- Hangs the productions of a cycle below some frames. The last one has the finished tree as its
    first child. -/
def growInto (tree : Tree) (origin : Nat) : Cycle → List Frame → Option State
  | [], _ => none
  | [step], frames => some ⟨(Frame.predicted step origin).advance tree,frames⟩
  | step :: cycle, frames => growInto tree origin cycle (.predicted step origin :: frames)

/-- Turns a finished frame into the start of one turn through a cycle. -/
def grow (state : State) (cycle : Cycle) : Option State :=
  growInto state.frame.tree state.frame.origin cycle state.ancestors

/-- The states that follow a finished frame: its parent goes on with it, and each cycle that may be
    grown starts with it. Growing a cycle takes one state for each of its productions. -/
def close (state : State) (parent : Frame) (ancestors : List Frame) (cycles : List Cycle) :
    List State × Nat :=
  let grown := cycles.filter state.mayGrow
  (⟨parent.advance state.frame.tree,ancestors⟩ :: grown.filterMap state.grow,
    1 + grown.flatten.length)

end State

end CFrontend.Parser
