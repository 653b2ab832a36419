import CFrontend.Parser.State

/-!
An arena stores partial derivations and tree nodes in two growing arrays, where they refer to each
other by index. Nothing stored is changed: to advance a state or to add a child to a node stores a
copy. Parents are stored before the states below them and children before the nodes above them, so
links lead to smaller indices only. A link that leads nowhere gives no result.
-/
namespace CFrontend.Parser

open Grammar (Cycle)

/-- A stored frame, which refers to the frame that waits for it. -/
structure StoredState where
  production : Production
  /-- How many symbols are matched. -/
  matched : Nat
  /-- The state that waits for this one. -/
  parent : Option Nat
  /-- The node of the children so far. -/
  node : Nat
  /-- The number of tokens before the one at which the production was predicted. -/
  origin : Nat
deriving Repr, Inhabited

namespace StoredState

/-- The nonterminal that the state derives. -/
def name (state : StoredState) : String := state.production.rule.lhs

/-- The next symbol to match. -/
def next? (state : StoredState) : Option Symbol := state.production.rule.rhs[state.matched]?

end StoredState

/-- A stored tree node: a leaf refers to a token by its number, a branch to its children. -/
inductive StoredNode where
  | leaf (token : Nat)
  | branch (name : String) (children : List Nat)
deriving Repr, Inhabited

namespace StoredNode

def children : StoredNode → List Nat
  | .leaf _ => []
  | .branch _ children => children

/-- The node with other numbers for its children. -/
def renumbered (place : Nat → Nat) : StoredNode → StoredNode
  | .leaf token => .leaf token
  | .branch name children => .branch name (children.map place)

end StoredNode

/-- Stored states and nodes, and the childless nodes that are shared. -/
structure Arena where
  states : Array StoredState := #[]
  nodes : Array StoredNode := #[]
  childless : List (String × Nat) := []
deriving Repr, Inhabited

namespace Arena

/-- The number of entries. -/
def size (arena : Arena) : Nat := arena.states.size + arena.nodes.size

def addState (arena : Arena) (state : StoredState) : Arena × Nat :=
  let id := arena.states.size
  ({ arena with states := arena.states.push state },id)

def addNode (arena : Arena) (node : StoredNode) : Arena × Nat :=
  let id := arena.nodes.size
  ({ arena with nodes := arena.nodes.push node },id)

/-- The childless node of a nonterminal, which is stored once. -/
def emptyNode (arena : Arena) (name : String) : Arena × Nat :=
  match arena.childless.lookup name with
  | some id => (arena,id)
  | none =>
    let (grown,id) := arena.addNode (.branch name [])
    ({ grown with childless := (name,id) :: grown.childless },id)

/-- The leaf of a token, which is stored unless there is one already. -/
def leafFor (arena : Arena) (token : Nat) : (stored : Option Nat) → Arena × Nat
  | some leaf => (arena,leaf)
  | none => arena.addNode (.leaf token)

/-- A copy of a branch with one more child. -/
def withChild (arena : Arena) (id child : Nat) : Option (Arena × Nat) :=
  match arena.nodes[id]? with
  | some (.branch name children) => some (arena.addNode (.branch name (children ++ [child])))
  | _ => none

/-! ### States -/

/-- A copy of a state that has matched its next symbol with a tree. -/
def advance (arena : Arena) (state : StoredState) (child : Nat) : Option (Arena × Nat) :=
  (arena.withChild state.node child).map fun (arena,node) =>
    arena.addState { state with matched := state.matched + 1,node }

/-- Whether some state has a name that passes a test, going up from a state as long as the origin
    is the given one. -/
def anyAbove (arena : Arena) (origin : Nat) (test : String → Bool) (id : Nat) : Option Bool :=
  match arena.states[id]? with
  | none => none
  | some state =>
    if state.origin != origin then some false
    else if test state.name then some true
    else match state.parent with
      | none => some false
      | some parent => if parent < id then arena.anyAbove origin test parent else none
termination_by id

/-- Whether predicting a nonterminal below a state would enter it again without a token in
    between. -/
def isLooped (arena : Arena) (id : Nat) (name : String) (current : Nat) : Option Bool :=
  arena.anyAbove current (· == name) id

/-- Whether a cycle may be grown around a finished state. -/
def mayGrow (arena : Arena) (origin parent : Nat) (cycle : Cycle) : Option Bool :=
  (arena.anyAbove origin (fun name => cycle.any fun step => step.rule.lhs == name) parent).map not

/-- Stores a production of a nonterminal of which nothing is matched. -/
def addPredicted (arena : Arena) (name : String) (production : Production) (parent : Option Nat)
    (origin : Nat) : Arena × Nat :=
  let (arena,node) := arena.emptyNode name
  arena.addState ⟨production,0,parent,node,origin⟩

/-- Stores the alternatives of a nonterminal below a state. -/
def predict (current parent : Nat) (name : String) : Arena → List Production → Arena × List Nat
  | arena, [] => (arena,[])
  | arena, production :: rest =>
    let (arena,id) := arena.addPredicted name production (some parent) current
    let (arena,ids) := predict current parent name arena rest
    (arena,id :: ids)

/-- Stores the productions of a cycle below a state. The last one has the finished node as its
    first child. -/
def growInto (node origin : Nat) : Arena → (parent : Nat) → Cycle → Arena × Nat
  | arena, parent, [] => (arena,parent)
  | arena, parent, [step] =>
    let (arena,node) := arena.addNode (.branch step.rule.lhs [node])
    arena.addState ⟨step,1,some parent,node,origin⟩
  | arena, parent, step :: cycle =>
    let (arena,id) := arena.addPredicted step.rule.lhs step (some parent) origin
    growInto node origin arena id cycle

/-- Grows the cycles that may be grown around a finished state below its parent. -/
def growAll (state : StoredState) (parent : Nat) :
    Arena → List Cycle → Option (Arena × List Nat)
  | arena, [] => some (arena,[])
  | arena, cycle :: rest =>
    match arena.mayGrow state.origin parent cycle with
    | none => none
    | some false => growAll state parent arena rest
    | some true =>
      let (arena,id) := growInto state.node state.origin arena parent cycle
      (growAll state parent arena rest).map fun (arena,ids) => (arena,id :: ids)

/-- The states that follow a finished one: its parent goes on with it, and cycles start with it. -/
def close (arena : Arena) (state : StoredState) (parent : Nat) (cycles : List Cycle) :
    Option (Arena × List Nat) :=
  match arena.states[parent]? with
  | none => none
  | some above => match arena.advance above state.node with
    | none => none
    | some (arena,id) =>
      (growAll state parent arena cycles).map fun (arena,ids) => (arena,id :: ids)

/-! ### Growth

Nothing is dropped while states are advanced, predicted, closed and grown. -/

@[simp] theorem states_addNode (arena : Arena) (node : StoredNode) :
    (arena.addNode node).1.states = arena.states := rfl

@[simp] theorem size_addState (arena : Arena) (state : StoredState) :
    (arena.addState state).1.states.size = arena.states.size + 1 := by simp [addState]

@[simp] theorem states_emptyNode (arena : Arena) (name : String) :
    (arena.emptyNode name).1.states = arena.states := by
  unfold emptyNode
  split <;> rfl

@[simp] theorem size_addPredicted (arena : Arena) (name : String) (production : Production)
    (parent : Option Nat) (origin : Nat) :
    (arena.addPredicted name production parent origin).1.states.size = arena.states.size + 1 := by
  simp [addPredicted]

theorem size_advance {arena grown : Arena} {state : StoredState} {child id : Nat}
    (advanced : arena.advance state child = some (grown,id)) :
    grown.states.size = arena.states.size + 1 := by
  simp only [advance,withChild,Option.map_eq_some_iff] at advanced
  obtain ⟨⟨copied,node⟩,stored,same⟩ := advanced
  split at stored
  · rename_i name children _
    have size := size_addState (arena.addNode (.branch name (children ++ [child]))).1
    obtain ⟨rfl,rfl⟩ := Prod.mk.inj (Option.some.inj stored)
    rw [← (Prod.mk.inj same).1]
    exact size _
  · simp at stored

@[simp] theorem size_predict (current parent : Nat) (name : String) (arena : Arena)
    (productions : List Production) :
    (predict current parent name arena productions).1.states.size =
      arena.states.size + productions.length := by
  induction productions generalizing arena with
  | nil => rfl
  | cons production rest ih =>
    simp only [predict,ih,size_addPredicted,List.length_cons]
    omega

@[simp] theorem length_predict (current parent : Nat) (name : String) (arena : Arena)
    (productions : List Production) :
    (predict current parent name arena productions).2.length = productions.length := by
  induction productions generalizing arena with
  | nil => rfl
  | cons production rest ih => simp [predict,ih]

@[simp] theorem size_growInto (node origin : Nat) (arena : Arena) (parent : Nat) (cycle : Cycle) :
    (growInto node origin arena parent cycle).1.states.size = arena.states.size + cycle.length := by
  induction cycle generalizing arena parent with
  | nil => rfl
  | cons step cycle ih =>
    cases cycle with
    | nil => simp [growInto]
    | cons second others =>
      simp only [growInto,ih,size_addPredicted,List.length_cons]
      omega

theorem size_growAll {state : StoredState} {parent : Nat} {arena grown : Arena}
    {cycles : List Cycle} {ids : List Nat}
    (found : growAll state parent arena cycles = some (grown,ids)) :
    arena.states.size ≤ grown.states.size := by
  induction cycles generalizing arena ids with
  | nil => simp_all [growAll]
  | cons cycle rest ih =>
    simp only [growAll] at found
    split at found
    · simp at found
    · exact ih found
    · obtain ⟨⟨after,later⟩,others,same⟩ := Option.map_eq_some_iff.mp found
      obtain ⟨rfl,-⟩ := Prod.mk.inj same
      have := ih others
      rw [size_growInto] at this
      omega

/-- Closing a state advances its parent first and then grows cycles. -/
theorem close_cases {arena grown : Arena} {state : StoredState} {parent : Nat}
    {cycles : List Cycle} {ids : List Nat}
    (closed : arena.close state parent cycles = some (grown,ids)) :
    ∃ above middle id later, arena.advance above state.node = some (middle,id) ∧
      growAll state parent middle cycles = some (grown,later) ∧ ids = id :: later := by
  simp only [close] at closed
  split at closed
  · simp at closed
  · split at closed
    · simp at closed
    · rename_i above _ _ middle id advanced
      obtain ⟨⟨after,later⟩,others,same⟩ := Option.map_eq_some_iff.mp closed
      obtain ⟨rfl,rfl⟩ := Prod.mk.inj same
      exact ⟨above,middle,id,later,advanced,others,rfl⟩

theorem size_close {arena grown : Arena} {state : StoredState} {parent : Nat}
    {cycles : List Cycle} {ids : List Nat}
    (closed : arena.close state parent cycles = some (grown,ids)) :
    arena.states.size < grown.states.size := by
  obtain ⟨above,middle,id,later,advanced,others,-⟩ := close_cases closed
  have first := size_advance advanced
  have rest := size_growAll others
  omega

/-! ### Trees -/

mutual

/-- The tree of a node. -/
def tree? (arena : Arena) (tokens : Array Token) (id : Nat) : Option Tree :=
  match arena.nodes[id]? with
  | none => none
  | some (.leaf index) => (tokens[index]?).map Tree.leaf
  | some (.branch name children) => (arena.trees? tokens id children).map (Tree.branch name)
termination_by (id,1,0)

/-- The trees of the children of a node. -/
def trees? (arena : Arena) (tokens : Array Token) (id : Nat) : List Nat → Option (List Tree)
  | [] => some []
  | child :: rest =>
    if child < id then
      match arena.tree? tokens child, arena.trees? tokens id rest with
      | some tree, some trees => some (tree :: trees)
      | _, _ => none
    else none
termination_by children => (id,0,children.length)

end

/-- The tree of a state. -/
def treeOf? (arena : Arena) (tokens : Array Token) (id : Nat) : Option Tree :=
  match arena.states[id]? with
  | none => none
  | some state => arena.tree? tokens state.node

end Arena

end CFrontend.Parser
