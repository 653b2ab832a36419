import CFrontend.Parser.Arena

/-!
Drops the states and nodes of an arena that some live states do not reach. What they reach is
marked, links are followed from the live states; then what is marked moves together, in the order in
which it was stored, and links follow it to its new place.
-/
namespace CFrontend.Parser.Arena

/-- Marks a state and those above it, up to one that is marked already. The nodes of the newly
    marked states go on a stack. -/
def markAbove (arena : Arena) (marks : Array Bool) (nodes : List Nat) (id : Nat) :
    Option (Array Bool × List Nat) :=
  match arena.states[id]? with
  | none => none
  | some state =>
    if marks.getD id false then some (marks,nodes)
    else
      let marks := marks.setIfInBounds id true
      let nodes := state.node :: nodes
      match state.parent with
      | none => some (marks,nodes)
      | some parent => if parent < id then arena.markAbove marks nodes parent else none
termination_by id

/-- Marks several states and those above them. -/
def markStates (arena : Arena) (marks : Array Bool) (nodes : List Nat) :
    List Nat → Option (Array Bool × List Nat)
  | [] => some (marks,nodes)
  | id :: rest => match arena.markAbove marks nodes id with
    | none => none
    | some (marks,nodes) => arena.markStates marks nodes rest

/-- Marking an entry leaves fewer entries unmarked. -/
theorem count_mark_lt {marks : Array Bool} {id : Nat} (inside : id < marks.size)
    (unmarked : marks[id] = false) : (marks.set id true).count false < marks.count false := by
  have member : 0 < marks.count false :=
    Array.count_pos_iff.mpr (unmarked ▸ Array.getElem_mem inside)
  rw [Array.count_set,unmarked]
  simp only [beq_self_eq_true,if_true,Bool.true_beq,Bool.false_eq_true,if_false]
  omega

/-- Marks the nodes on a stack and those below them. -/
def markNodes (arena : Arena) (marks : Array Bool) : List Nat → Option (Array Bool)
  | [] => some marks
  | id :: stack =>
    match arena.nodes[id]? with
    | none => none
    | some node =>
      if inside : id < marks.size then
        if marked : marks[id] then arena.markNodes marks stack
        else arena.markNodes (marks.set id true) (node.children.reverse ++ stack)
      else none
termination_by stack => (marks.count false,stack.length)
decreasing_by
  · exact Prod.Lex.right _ (Nat.lt_succ_self _)
  · exact Prod.Lex.left _ _ (count_mark_lt inside (by simpa using marked))

/-- The marked entries. -/
def kept {α : Type} (marks : Array Bool) (entries : Array α) : Array α :=
  ((entries.zip marks).filter (·.2)).map (·.1)

/-- For each entry, how many entries before it are marked: its place among the marked ones. -/
def places (marks : Array Bool) : Array Nat :=
  (marks.foldl (fun (places,next) marked => (places.push next,if marked then next + 1 else next))
    ((#[] : Array Nat),0)).1

/-- Keeps what live states reach, and gives the live states their new places. -/
def compact (arena : Arena) (live : List Nat) : Option (Arena × List Nat) :=
  match arena.markStates (.replicate arena.states.size false) [] live with
  | none => none
  | some (stateMarks,stack) =>
    match arena.markNodes (.replicate arena.nodes.size false) stack with
    | none => none
    | some nodeMarks =>
      let statePlaces := places stateMarks
      let nodePlaces := places nodeMarks
      let states := (kept stateMarks arena.states).map fun state =>
        { state with
          parent := state.parent.map fun parent => statePlaces.getD parent 0
          node := nodePlaces.getD state.node 0 }
      let nodes := (kept nodeMarks arena.nodes).map fun node =>
        node.renumbered fun child => nodePlaces.getD child 0
      some (⟨states,nodes,[]⟩,live.map fun id => statePlaces.getD id 0)

end CFrontend.Parser.Arena
