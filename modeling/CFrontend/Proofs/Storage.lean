import CFrontend.Parser.Stored
import CFrontend.Proofs.Recursion
import Mathlib.Data.List.Forall2

/-!
What an arena stores. A node stands for the tree that it unfolds to; a state stands for the frame that it
holds together with the frames above it (`Represents`). What is stored keeps its meaning when all that it
refers to is found elsewhere with links that follow (`Placement.Moves`): when more is stored, and when an
arena is compacted.
-/
namespace CFrontend.Parser.Arena

variable {arena before after : Arena} {tokens early late : Array Token}

/-! ### Meaning -/

/-- A stored state holds a frame. -/
structure Holds (arena : Arena) (tokens : Array Token) (stored : StoredState) (frame : Frame) : Prop where
  production : stored.production = frame.production
  rest : stored.production.rule.rhs.drop stored.matched = frame.rest
  origin : stored.origin = frame.origin
  tree : arena.tree? tokens stored.node = some frame.tree

/-- A link leads to a state that holds the first frame, and from there to the other frames. -/
inductive Leads (arena : Arena) (tokens : Array Token) : Option Nat → List Frame → Prop
  | nil : Leads arena tokens none []
  | cons {id : Nat} {stored : StoredState} {frame : Frame} {frames : List Frame}
      (found : arena.states[id]? = some stored) (holds : Holds arena tokens stored frame)
      (ascends : ∀ parent ∈ stored.parent, parent < id) (above : Leads arena tokens stored.parent frames) :
      Leads arena tokens (some id) (frame :: frames)

/-- The stored state stands for the partial derivation. -/
def Represents (arena : Arena) (tokens : Array Token) (id : Nat) (state : State) : Prop :=
  Leads arena tokens (some id) (state.frame :: state.ancestors)

private theorem trees?_eq_some_iff (bound : Nat) (ids : List Nat) (trees : List Tree) :
    arena.trees? tokens bound ids = some trees ↔
      List.Forall₂ (fun id tree => id < bound ∧ arena.tree? tokens id = some tree) ids trees := by
  induction ids generalizing trees with
  | nil => simp [trees?,eq_comm]
  | cons id rest ih =>
    rw [trees?,List.forall₂_cons_left_iff]
    constructor
    · intro found
      split at found
      · rename_i less
        split at found
        · rename_i tree others first second
          exact ⟨tree,others,⟨less,first⟩,(ih others).mp second,(Option.some.inj found).symm⟩
        · simp at found
      · simp at found
    · rintro ⟨tree,others,⟨less,first⟩,second,rfl⟩
      rw [if_pos less,first,(ih others).mpr second]

theorem tree?_eq_leaf_iff (id : Nat) (token : Token) :
    arena.tree? tokens id = some (.leaf token) ↔
      ∃ index, arena.nodes[id]? = some (.leaf index) ∧ tokens[index]? = some token := by
  rw [tree?]
  split <;> simp_all

/-- A stored branch stands for a tree with the trees of its children, which are stored before it. -/
theorem tree?_eq_branch_iff (id : Nat) (name : String) (trees : List Tree) :
    arena.tree? tokens id = some (.branch name trees) ↔ ∃ children, arena.nodes[id]? = some (.branch name children) ∧
      List.Forall₂ (fun child tree => child < id ∧ arena.tree? tokens child = some tree) children trees := by
  simp only [← trees?_eq_some_iff]
  rw [tree?]
  split
  · simp_all
  · simp_all
  · rename_i own children found
    simp only [found,Option.map_eq_some_iff,Option.some.injEq,Tree.branch.injEq,StoredNode.branch.injEq]
    constructor
    · rintro ⟨trees,below,rfl,rfl⟩
      exact ⟨children,⟨rfl,rfl⟩,below⟩
    · rintro ⟨_,⟨rfl,rfl⟩,below⟩
      exact ⟨trees,below,rfl,rfl⟩

theorem lt_of_tree? {id : Nat} {tree : Tree} (found : arena.tree? tokens id = some tree) : id < arena.nodes.size := by
  cases tree with
  | leaf token =>
    obtain ⟨index,stored,-⟩ := (tree?_eq_leaf_iff id token).mp found
    exact (Array.getElem?_eq_some_iff.mp stored).1
  | branch name trees =>
    obtain ⟨children,stored,-⟩ := (tree?_eq_branch_iff id name trees).mp found
    exact (Array.getElem?_eq_some_iff.mp stored).1

/-! ### Moving -/

/-- Which entries of an arena are kept, and at which places of another one. -/
structure Placement where
  stateKept : Nat → Prop
  nodeKept : Nat → Prop
  statePlace : Nat → Nat
  nodePlace : Nat → Nat

/-- What is kept is found at its place, its links lead to the places of what they led to, and that is kept as well.
    Links still lead to smaller numbers. -/
structure Placement.Moves (placement : Placement) (before after : Arena) : Prop where
  node : ∀ {id node}, placement.nodeKept id → before.nodes[id]? = some node →
    after.nodes[placement.nodePlace id]? = some (node.renumbered placement.nodePlace)
  children : ∀ {id node}, placement.nodeKept id → before.nodes[id]? = some node →
    ∀ child ∈ node.children, placement.nodeKept child
  nodes_lt : ∀ {child id}, placement.nodeKept child → placement.nodeKept id → child < id →
    placement.nodePlace child < placement.nodePlace id
  state : ∀ {id stored}, placement.stateKept id → before.states[id]? = some stored →
    after.states[placement.statePlace id]? = some { stored with
      parent := stored.parent.map placement.statePlace,node := placement.nodePlace stored.node }
  parent : ∀ {id stored}, placement.stateKept id → before.states[id]? = some stored →
    placement.nodeKept stored.node ∧ ∀ parent ∈ stored.parent, placement.stateKept parent
  states_lt : ∀ {parent id}, placement.stateKept parent → placement.stateKept id → parent < id →
    placement.statePlace parent < placement.statePlace id

/-- The later tokens include the earlier ones, with their numbers. -/
def Continues (early late : Array Token) : Prop :=
  ∀ {index : Nat} {token : Token}, early[index]? = some token → late[index]? = some token

/-- A kept node unfolds to the same tree at its place, since all that it unfolds through is kept. -/
theorem Placement.Moves.tree? {placement : Placement} (moves : placement.Moves before after)
    (continues : Continues early late) {id : Nat} {tree : Tree} (kept : placement.nodeKept id)
    (found : before.tree? early id = some tree) : after.tree? late (placement.nodePlace id) = some tree := by
  induction id using Nat.strongRecOn generalizing tree with
  | _ id ih =>
    cases tree with
    | leaf token =>
      obtain ⟨index,stored,read⟩ := (tree?_eq_leaf_iff id token).mp found
      exact (tree?_eq_leaf_iff _ token).mpr ⟨index,moves.node kept stored,continues read⟩
    | branch name trees =>
      obtain ⟨children,stored,below⟩ := (tree?_eq_branch_iff id name trees).mp found
      refine (tree?_eq_branch_iff _ name trees).mpr ⟨_,moves.node kept stored,?_⟩
      rw [List.forall₂_map_left_iff]
      have belowKept := (List.forall₂_and_left _ _).mpr ⟨moves.children kept stored,below⟩
      refine belowKept.imp ?_
      rintro child tree ⟨childKept,less,first⟩
      exact ⟨moves.nodes_lt childKept kept less,ih child less childKept first⟩

theorem Placement.Moves.holds {placement : Placement} (moves : placement.Moves before after)
    (continues : Continues early late) {stored : StoredState} {frame : Frame} (kept : placement.nodeKept stored.node)
    (holds : Holds before early stored frame) :
    Holds after late { stored with
      parent := stored.parent.map placement.statePlace,node := placement.nodePlace stored.node } frame :=
  ⟨holds.production,holds.rest,holds.origin,moves.tree? continues kept holds.tree⟩

/-- A chain of kept states leads to the same frames when its states are moved. -/
theorem Placement.Moves.leads {placement : Placement} (moves : placement.Moves before after)
    (continues : Continues early late) {link : Option Nat} {frames : List Frame} (leads : Leads before early link frames)
    (kept : ∀ id ∈ link, placement.stateKept id) : Leads after late (link.map placement.statePlace) frames := by
  induction leads with
  | nil => exact .nil
  | @cons id stored frame frames found holds ascends above ih =>
    have here := kept id rfl
    obtain ⟨nodeKept,parentKept⟩ := moves.parent here found
    refine .cons (moves.state here found) (moves.holds continues nodeKept holds) ?_ (ih parentKept)
    intro place member
    obtain ⟨parent,link,rfl⟩ := Option.map_eq_some_iff.mp member
    exact moves.states_lt (parentKept parent link) here (ascends parent link)

/-- A kept state stands for the same state when it is moved. -/
theorem Placement.Moves.represents {placement : Placement} (moves : placement.Moves before after)
    (continues : Continues early late) {id : Nat} {state : State} (kept : placement.stateKept id)
    (represents : Represents before early id state) : Represents after late (placement.statePlace id) state :=
  moves.leads continues represents fun _ member => Option.mem_some.mp member ▸ kept

/-! ### Storing more -/

/-- The childless nodes that are shared have no children. -/
def Sound (arena : Arena) : Prop := ∀ entry ∈ arena.childless, arena.nodes[entry.2]? = some (.branch entry.1 [])

/-- What the first arena stores is stored in the second one at the same places. -/
structure Extends (before after : Arena) : Prop where
  states : ∀ {id : Nat} {stored : StoredState}, before.states[id]? = some stored → after.states[id]? = some stored
  nodes : ∀ {id : Nat} {node : StoredNode}, before.nodes[id]? = some node → after.nodes[id]? = some node
  sound : before.Sound → after.Sound

/-- Everything stays where it is. -/
def Placement.stay : Placement := ⟨fun _ => True,fun _ => True,id,id⟩

/-- An arena that only stores more leaves everything at its place. -/
theorem Extends.moves (growth : Extends before after) : Placement.stay.Moves before after where
  node {_ node} _ stored := by cases node <;> simpa [Placement.stay,StoredNode.renumbered] using growth.nodes stored
  children _ _ _ _ := trivial
  nodes_lt _ _ less := less
  state _ stored := by simpa [Placement.stay] using growth.states stored
  parent _ _ := ⟨trivial,fun _ _ => trivial⟩
  states_lt _ _ less := less

theorem Extends.refl (arena : Arena) : Extends arena arena := ⟨id,id,id⟩

theorem Extends.trans {middle : Arena} (first : Extends before middle) (second : Extends middle after) :
    Extends before after :=
  ⟨fun stored => second.states (first.states stored),fun stored => second.nodes (first.nodes stored),
    fun sound => second.sound (first.sound sound)⟩

theorem continues_refl (tokens : Array Token) : Continues tokens tokens := id

theorem Extends.tree? (growth : Extends before after) {id : Nat} {tree : Tree}
    (found : before.tree? tokens id = some tree) : after.tree? tokens id = some tree :=
  growth.moves.tree? (continues_refl tokens) trivial found

theorem Extends.holds (growth : Extends before after) {stored : StoredState} {frame : Frame}
    (holds : Holds before tokens stored frame) : Holds after tokens stored frame :=
  ⟨holds.production,holds.rest,holds.origin,growth.tree? holds.tree⟩

theorem Extends.leads (growth : Extends before after) {link : Option Nat} {frames : List Frame}
    (leads : Leads before tokens link frames) : Leads after tokens link frames := by
  have moved := growth.moves.leads (continues_refl tokens) leads fun _ _ => trivial
  simpa [Placement.stay] using moved

theorem Extends.represents (growth : Extends before after) {id : Nat} {state : State}
    (represents : Represents before tokens id state) : Represents after tokens id state :=
  growth.leads represents

/-- A state is stored behind all others. -/
theorem extends_addState (arena : Arena) (stored : StoredState) : Extends arena (arena.addState stored).1 where
  states found := by
    have inside := (Array.getElem?_eq_some_iff.mp found).1
    simpa [addState,Array.getElem?_push,Nat.ne_of_lt inside] using found
  nodes := id
  sound := id

/-- A node is stored behind all others. -/
theorem extends_addNode (arena : Arena) (node : StoredNode) : Extends arena (arena.addNode node).1 := by
  have kept : ∀ {id : Nat} {other : StoredNode}, arena.nodes[id]? = some other →
      (arena.addNode node).1.nodes[id]? = some other := by
    intro id other found
    have inside := (Array.getElem?_eq_some_iff.mp found).1
    simpa [addNode,Array.getElem?_push,Nat.ne_of_lt inside] using found
  exact ⟨id,kept,fun sound entry member => kept (sound entry member)⟩

theorem Leads.lt {id : Nat} {frames : List Frame} (leads : Leads arena tokens (some id) frames) :
    id < arena.states.size := by
  cases leads with
  | cons found => exact (Array.getElem?_eq_some_iff.mp found).1

/-- A new state stands for its frame and those that its parent leads to. -/
theorem leads_addState {stored : StoredState} {frame : Frame} {frames : List Frame}
    (holds : Holds arena tokens stored frame) (above : Leads arena tokens stored.parent frames) :
    Leads (arena.addState stored).1 tokens (some (arena.addState stored).2) (frame :: frames) := by
  have growth := extends_addState arena stored
  refine .cons (by simp [addState]) (growth.holds holds) ?_ (growth.leads above)
  intro parent link
  rw [Option.mem_def.mp link] at above
  exact above.lt

theorem tree?_addNode {name : String} {children : List Nat} {trees : List Tree}
    (below : List.Forall₂ (fun child tree => arena.tree? tokens child = some tree) children trees) :
    (arena.addNode (.branch name children)).1.tree? tokens (arena.addNode (.branch name children)).2 =
      some (.branch name trees) := by
  refine (tree?_eq_branch_iff _ name trees).mpr ⟨children,by simp [addNode],below.imp fun child tree found => ?_⟩
  exact ⟨lt_of_tree? found,(extends_addNode arena _).tree? found⟩

/-- An empty node stands for a branch without children, also where it is shared. -/
theorem emptyNode_spec (arena : Arena) (tokens : Array Token) (name : String) (sound : arena.Sound) :
    Extends arena (arena.emptyNode name).1 ∧
      (arena.emptyNode name).1.tree? tokens (arena.emptyNode name).2 = some (.branch name []) := by
  unfold emptyNode
  split
  · rename_i id shared
    obtain ⟨front,back,split,-⟩ := List.lookup_eq_some_iff.mp shared
    have found := sound (name,id) (by simp [split])
    exact ⟨.refl arena,(tree?_eq_branch_iff id name []).mpr ⟨[],found,.nil⟩⟩
  · have growth := extends_addNode arena (.branch name [])
    refine ⟨⟨growth.states,growth.nodes,fun sound entry member => ?_⟩,
      (tree?_eq_branch_iff _ name []).mpr ⟨[],by simp [addNode],.nil⟩⟩
    rcases List.mem_cons.mp member with rfl | before
    · simp [addNode]
    · exact growth.sound sound entry before

/-- A node is copied with one more child, and both the node and its copy stand for their trees. -/
theorem withChild_spec {id child : Nat} {name : String} {trees : List Tree} {tree : Tree}
    (node : arena.tree? tokens id = some (.branch name trees)) (last : arena.tree? tokens child = some tree) :
    ∃ grown copy, arena.withChild id child = some (grown,copy) ∧ Extends arena grown ∧
      grown.tree? tokens copy = some (.branch name (trees ++ [tree])) := by
  obtain ⟨children,stored,below⟩ := (tree?_eq_branch_iff id name trees).mp node
  have more := List.rel_append (below.imp fun _ _ found => found.2) (List.Forall₂.cons last .nil)
  exact ⟨_,_,by simp only [withChild,stored],extends_addNode arena _,tree?_addNode more⟩

/-- A state holds the advanced frame when its node is a copy with the tree as one more child. -/
theorem Holds.advance {stored : StoredState} {frame : Frame} {node : Nat} {tree : Tree} (holds : Holds before tokens stored frame)
    (copied : after.tree? tokens node = some (.branch frame.name (frame.matched.reverse ++ [tree]))) :
    Holds after tokens { stored with matched := stored.matched + 1,node } (frame.advance tree) := by
  refine ⟨holds.production,?_,holds.origin,?_⟩
  · simp [Frame.advance,← holds.rest]
  · simpa [Frame.advance,Frame.tree,Frame.name] using copied

/-- The copy of a state that has matched a tree stands for the frame that has. -/
theorem advance_spec {stored : StoredState} {frame : Frame} {frames : List Frame} {child : Nat} {tree : Tree}
    (holds : Holds arena tokens stored frame) (above : Leads arena tokens stored.parent frames)
    (last : arena.tree? tokens child = some tree) :
    ∃ grown id, arena.advance stored child = some (grown,id) ∧ Extends arena grown ∧
      Leads grown tokens (some id) (frame.advance tree :: frames) := by
  obtain ⟨middle,node,copied,growth,unfolds⟩ := withChild_spec holds.tree last
  refine ⟨_,_,by simp only [advance,copied,Option.map_some]; rfl,growth.trans (extends_addState middle _),?_⟩
  exact leads_addState (holds.advance unfolds) (growth.leads above)

/-! ### Looking up -/

theorem Holds.name {stored : StoredState} {frame : Frame} (holds : Holds arena tokens stored frame) :
    stored.name = frame.name := by
  simp [StoredState.name,Frame.name,holds.production]

theorem Holds.next? {stored : StoredState} {frame : Frame} (holds : Holds arena tokens stored frame) :
    stored.next? = frame.rest.head? := by
  rw [← holds.rest,List.head?_drop]
  rfl

/-- The search upwards looks at the frames as long as their origin is the given one. -/
theorem anyAbove_spec (origin : Nat) (test : String → Bool) {id : Nat} {frames : List Frame}
    (leads : Leads arena tokens (some id) frames) :
    arena.anyAbove origin test id =
      some ((frames.takeWhile fun frame => frame.origin == origin).any fun frame => test frame.name) := by
  induction frames generalizing id with
  | nil => cases leads
  | cons frame frames ih =>
    cases leads with
    | @cons id stored frame frames found holds ascends above =>
      rw [anyAbove,found]
      simp only [holds.origin,holds.name,List.takeWhile_cons]
      by_cases here : frame.origin = origin
      · by_cases passes : test frame.name = true
        · simp [here,passes]
        · cases link : stored.parent with
          | none =>
            rw [link] at above
            cases above
            simp [here,passes]
          | some parent =>
            rw [link] at above ascends
            simp [here,passes,ascends parent rfl,ih above]
      · simp [here]

end CFrontend.Parser.Arena
