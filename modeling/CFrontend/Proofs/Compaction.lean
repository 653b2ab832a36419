import CFrontend.Parser.Compaction
import CFrontend.Proofs.Storage

/-!
Compaction keeps what live states stand for. Marking goes through because links lead to entries, and it leaves no link
from a marked entry to an unmarked one (`markStates_spec`, `markNodes_spec`). The marked entries then
keep their order, so compaction moves what the live states refer to (`compact_spec`).
-/
namespace CFrontend.Parser.Arena

variable {arena : Arena} {tokens : Array Token} {marks : Array Bool}

/-! ### Marking -/

def Marked (marks : Array Bool) (id : Nat) : Prop := marks[id]? = some true

private theorem marked_set_iff {id : Nat} (inside : id < marks.size) (other : Nat) :
    Marked (marks.setIfInBounds id true) other ↔ other = id ∨ Marked marks other := by
  unfold Marked
  rw [Array.getElem?_setIfInBounds]
  split
  · rename_i same
    simp [← same,inside]
  · rename_i differ
    simp [Ne.symm differ]

private theorem getD_iff_marked (marks : Array Bool) (id : Nat) : marks.getD id false = true ↔ Marked marks id := by
  rw [Marked,Array.getD_eq_getD_getElem?]
  cases marks[id]? <;> simp

/-- The parents of marked states are marked, apart from the one that an open link leads to, and their nodes are on the
    stack. -/
structure ClosedAbove (arena : Arena) (marks : Array Bool) (stack : List Nat) (unmarked : Option Nat) : Prop where
  size : marks.size = arena.states.size
  parent : ∀ {id stored}, Marked marks id → arena.states[id]? = some stored →
    ∀ parent ∈ stored.parent, Marked marks parent ∨ unmarked = some parent
  node : ∀ {id stored}, Marked marks id → arena.states[id]? = some stored → stored.node ∈ stack

/-- All nodes on the stack unfold to trees. -/
def Unfolds (arena : Arena) (tokens : Array Token) (stack : List Nat) : Prop :=
  ∀ node ∈ stack, ∃ tree, arena.tree? tokens node = some tree

private theorem ClosedAbove.insert {stack : List Nat} {id : Nat} {stored : StoredState}
    (closed : ClosedAbove arena marks stack (some id)) (found : arena.states[id]? = some stored) :
    ClosedAbove arena (marks.setIfInBounds id true) (stored.node :: stack) stored.parent := by
  have inside : id < marks.size := by
    rw [closed.size]
    exact (Array.getElem?_eq_some_iff.mp found).1
  refine ⟨by simp [closed.size],fun {other entry} marked here parent link => ?_,fun {other entry} marked here => ?_⟩
  · rw [marked_set_iff inside]
    rcases (marked_set_iff inside other).mp marked with rfl | before
    · obtain rfl := Option.some.inj (found.symm.trans here)
      exact .inr link
    · rcases closed.parent before here parent link with marked | same
      · exact .inl (.inr marked)
      · exact .inl (.inl (Option.some.inj same).symm)
  · rcases (marked_set_iff inside other).mp marked with rfl | before
    · obtain rfl := Option.some.inj (found.symm.trans here)
      exact List.mem_cons_self
    · exact List.mem_cons_of_mem _ (closed.node before here)

/-- An open link that leads to a marked state is not open. -/
theorem ClosedAbove.of_marked {stack : List Nat} {id : Nat} (closed : ClosedAbove arena marks stack (some id))
    (marked : Marked marks id) : ClosedAbove arena marks stack none := by
  refine ⟨closed.size,fun before here parent link => .inl ?_,closed.node⟩
  rcases closed.parent before here parent link with parentMarked | same
  · exact parentMarked
  · exact Option.some.inj same ▸ marked

/-- Marking upwards reaches a state whose parents are marked already, or the last one. -/
theorem markAbove_spec {id : Nat} {frames : List Frame} {stack : List Nat} (leads : Leads arena tokens (some id) frames)
    (closed : ClosedAbove arena marks stack (some id)) (unfolds : Unfolds arena tokens stack) :
    ∃ after nodes, arena.markAbove marks stack id = some (after,nodes) ∧ ClosedAbove arena after nodes none ∧
      Unfolds arena tokens nodes ∧ Marked after id ∧ ∀ other, Marked marks other → Marked after other := by
  induction frames generalizing id marks stack with
  | nil => cases leads
  | cons frame frames ih =>
    cases leads with
    | @cons _ stored _ _ found holds ascends above =>
      rw [markAbove,found]
      by_cases marked : Marked marks id
      · exact ⟨marks,stack,by simp [(getD_iff_marked marks id).mpr marked],closed.of_marked marked,unfolds,marked,
          fun _ before => before⟩
      · have inside : id < marks.size := by
          rw [closed.size]
          exact (Array.getElem?_eq_some_iff.mp found).1
        have next := closed.insert found
        have here := (marked_set_iff inside id).mpr (.inl rfl)
        have before := fun other marked => (marked_set_iff inside other).mpr (.inr marked)
        have trees : Unfolds arena tokens (stored.node :: stack) :=
          List.forall_mem_cons.mpr ⟨⟨_,holds.tree⟩,unfolds⟩
        simp only [mt (getD_iff_marked marks id).mp marked]
        cases link : stored.parent with
        | none =>
          rw [link] at next
          exact ⟨_,_,rfl,next,trees,here,before⟩
        | some parent =>
          rw [link] at next above ascends
          obtain ⟨after,nodes,rest,whole,later,-,kept⟩ := ih above next trees
          exact ⟨after,nodes,by simpa [ascends parent rfl] using rest,whole,later,kept id here,
            fun other marked => kept other (before other marked)⟩

/-- Every live state is marked with all states above it, and the nodes that are still to be marked are those of marked states. -/
theorem markStates_spec {live stack : List Nat} (leads : ∀ id ∈ live, ∃ frames, Leads arena tokens (some id) frames)
    (closed : ClosedAbove arena marks stack none) (unfolds : Unfolds arena tokens stack) :
    ∃ after nodes, arena.markStates marks stack live = some (after,nodes) ∧ ClosedAbove arena after nodes none ∧
      Unfolds arena tokens nodes ∧ (∀ id ∈ live, Marked after id) ∧
      ∀ other, Marked marks other → Marked after other := by
  induction live generalizing marks stack with
  | nil => exact ⟨marks,stack,rfl,closed,unfolds,by simp,fun _ before => before⟩
  | cons id rest ih =>
    obtain ⟨⟨frames,first⟩,others⟩ := List.forall_mem_cons.mp leads
    have opened : ClosedAbove arena marks stack (some id) :=
      ⟨closed.size,fun marked here parent link => .inl ((closed.parent marked here parent link).resolve_right (by simp)),
        closed.node⟩
    obtain ⟨middle,nodes,above,closed,unfolds,here,before⟩ := markAbove_spec first opened unfolds
    obtain ⟨after,nodes,later,closed,unfolds,marked,kept⟩ := ih others closed unfolds
    exact ⟨after,nodes,by rw [markStates,above]; exact later,closed,unfolds,
      List.forall_mem_cons.mpr ⟨kept id here,marked⟩,fun other marked => kept other (before other marked)⟩

theorem exists_related {α β : Type} {related : α → β → Prop} {first : List α} {second : List β}
    (all : List.Forall₂ related first second) : ∀ left ∈ first, ∃ right, related left right :=
  ((List.forall₂_and_left _ _).mp (all.imp fun _ right here => ⟨⟨right,here⟩,here⟩)).1

/-- The children of marked nodes are marked or on the stack. -/
structure ClosedBelow (arena : Arena) (marks : Array Bool) (stack : List Nat) : Prop where
  size : marks.size = arena.nodes.size
  child : ∀ {id node}, Marked marks id → arena.nodes[id]? = some node →
    ∀ child ∈ node.children, Marked marks child ∨ child ∈ stack

private theorem exists_tree_of_child {id child : Nat} {node : StoredNode} {tree : Tree} (found : arena.nodes[id]? = some node)
    (unfolds : arena.tree? tokens id = some tree) (below : child ∈ node.children) :
    ∃ tree, arena.tree? tokens child = some tree := by
  cases tree with
  | leaf token =>
    obtain ⟨index,stored,-⟩ := (tree?_eq_leaf_iff id token).mp unfolds
    obtain rfl := Option.some.inj (found.symm.trans stored)
    simp [StoredNode.children] at below
  | branch name trees =>
    obtain ⟨children,stored,all⟩ := (tree?_eq_branch_iff id name trees).mp unfolds
    obtain rfl := Option.some.inj (found.symm.trans stored)
    obtain ⟨tree,-,found⟩ := exists_related all child below
    exact ⟨tree,found⟩

private theorem ClosedBelow.of_marked {stack : List Nat} {id : Nat} (closed : ClosedBelow arena marks (id :: stack))
    (marked : Marked marks id) : ClosedBelow arena marks stack := by
  refine ⟨closed.size,fun before stored child below => ?_⟩
  rcases closed.child before stored child below with childMarked | later
  · exact .inl childMarked
  · rcases List.mem_cons.mp later with rfl | later
    · exact .inl marked
    · exact .inr later

private theorem ClosedBelow.insert {stack : List Nat} {id : Nat} {node : StoredNode}
    (closed : ClosedBelow arena marks (id :: stack)) (found : arena.nodes[id]? = some node) :
    ClosedBelow arena (marks.setIfInBounds id true) (node.children.reverse ++ stack) := by
  have inside : id < marks.size := by
    rw [closed.size]
    exact (Array.getElem?_eq_some_iff.mp found).1
  refine ⟨by simp [closed.size],fun {other entry} marked stored child below => ?_⟩
  rw [marked_set_iff inside,List.mem_append,List.mem_reverse]
  rcases (marked_set_iff inside other).mp marked with rfl | before
  · obtain rfl := Option.some.inj (found.symm.trans stored)
    exact .inr (.inl below)
  · rcases closed.child before stored child below with childMarked | later
    · exact .inl (.inr childMarked)
    · rcases List.mem_cons.mp later with rfl | later
      · exact .inl (.inl rfl)
      · exact .inr (.inr later)

/-- Marking downwards goes through, and afterwards no marked node has an unmarked child. -/
theorem markNodes_spec {stack : List Nat} (closed : ClosedBelow arena marks stack)
    (unfolds : Unfolds arena tokens stack) :
    ∃ after, arena.markNodes marks stack = some after ∧ ClosedBelow arena after [] ∧
      (∀ id ∈ stack, Marked after id) ∧ ∀ other, Marked marks other → Marked after other := by
  fun_induction markNodes arena marks stack with
  | case1 marks => exact ⟨marks,rfl,closed,by simp,fun _ before => before⟩
  | case2 marks id stack missing =>
    obtain ⟨tree,found⟩ := unfolds id (by simp)
    exact absurd (lt_of_tree? found) (Nat.not_lt.mpr (Array.getElem?_eq_none_iff.mp missing))
  | case3 marks id stack node found inside marked ih =>
    have here : Marked marks id := by rw [Marked,Array.getElem?_eq_getElem inside,marked]
    obtain ⟨after,rest,whole,marked,kept⟩ := ih (closed.of_marked here) (List.forall_mem_cons.mp unfolds).2
    exact ⟨after,rest,whole,List.forall_mem_cons.mpr ⟨kept id here,marked⟩,kept⟩
  | case4 marks id stack node found inside unmarked ih =>
    obtain ⟨⟨tree,unfolded⟩,others⟩ := List.forall_mem_cons.mp unfolds
    have same : marks.set id true inside = marks.setIfInBounds id true := by simp [Array.setIfInBounds,inside]
    rw [same] at ih ⊢
    have trees : Unfolds arena tokens (node.children.reverse ++ stack) := by
      intro child member
      rcases List.mem_append.mp member with below | later
      · exact exists_tree_of_child found unfolded (List.mem_reverse.mp below)
      · exact others child later
    obtain ⟨after,rest,whole,marked,kept⟩ := ih (closed.insert found) trees
    have before := fun other marked => kept other ((marked_set_iff inside other).mpr (.inr marked))
    refine ⟨after,rest,whole,List.forall_mem_cons.mpr ⟨kept id ((marked_set_iff inside id).mpr (.inl rfl)),?_⟩,before⟩
    exact fun other later => marked other (List.mem_append_right _ later)
  | case5 marks id stack node found outside =>
    exact absurd (Array.getElem?_eq_some_iff.mp found).1 (closed.size ▸ outside)

private theorem not_marked_replicate (size id : Nat) : ¬ Marked (.replicate size false) id := by
  simp [Marked,Array.getElem?_replicate]

theorem closedAbove_replicate (arena : Arena) : ClosedAbove arena (.replicate arena.states.size false) [] none :=
  ⟨Array.size_replicate,fun marked => absurd marked (not_marked_replicate _ _),
    fun marked => absurd marked (not_marked_replicate _ _)⟩

theorem closedBelow_replicate (arena : Arena) (stack : List Nat) :
    ClosedBelow arena (.replicate arena.nodes.size false) stack :=
  ⟨Array.size_replicate,fun marked => absurd marked (not_marked_replicate _ _)⟩

/-! ### Places -/

private theorem foldl_places (marks : List Bool) (places : Array Nat) (next : Nat) :
    (marks.foldl (fun (places,next) marked => (places.push next,if marked then next + 1 else next))
      (places,next)).1.toList =
      places.toList ++ (List.range marks.length).map fun id => next + (marks.take id).count true := by
  induction marks generalizing places next with
  | nil => simp
  | cons marked rest ih =>
    rw [List.foldl_cons,ih,List.length_cons,List.range_succ_eq_map]
    cases marked <;> simp [Function.comp_def,Nat.add_assoc,Nat.add_comm 1]

/-- The place of an entry among the marked ones is the number of marked ones before it. -/
theorem getD_places {id : Nat} (inside : id < marks.size) :
    (places marks).getD id 0 = (marks.toList.take id).count true := by
  have all : (places marks).toList = (List.range marks.size).map fun id => (marks.toList.take id).count true := by
    rw [places,← Array.foldl_toList,foldl_places]
    simp
  rw [Array.getD_eq_getD_getElem?,← Array.getElem?_toList,all]
  simp [inside]

private theorem getElem?_filter_zip {α : Type} {marks : List Bool} {entries : List α} {id : Nat} {entry : α}
    (marked : marks[id]? = some true) (found : entries[id]? = some entry) :
    (((entries.zip marks).filter (·.2)).map (·.1))[(marks.take id).count true]? = some entry := by
  induction id generalizing marks entries with
  | zero =>
    cases marks <;> cases entries <;> simp_all
  | succ id ih =>
    cases marks with
    | nil => simp at marked
    | cons mark marks =>
      cases entries with
      | nil => simp at found
      | cons first entries => cases mark <;> simpa using ih (by simpa using marked) (by simpa using found)

private theorem getElem?_kept {α : Type} {entries : Array α} {id : Nat} {entry : α} (marked : Marked marks id)
    (found : entries[id]? = some entry) : (kept marks entries)[(places marks).getD id 0]? = some entry := by
  have inside := (Array.getElem?_eq_some_iff.mp marked).1
  rw [getD_places inside,← Array.getElem?_toList]
  simpa [kept] using getElem?_filter_zip (by simpa [Marked] using marked) (by simpa using found)

/-- Marked entries keep their order. -/
theorem places_lt {first second : Nat} (marked : Marked marks first) (less : first < second)
    (inside : second < marks.size) : (places marks).getD first 0 < (places marks).getD second 0 := by
  rw [getD_places (by omega),getD_places inside]
  calc (marks.toList.take first).count true
      < (marks.toList.take (first + 1)).count true := by
        rw [List.take_add_one,Array.getElem?_toList,marked]
        simp
    _ ≤ (marks.toList.take second).count true := List.Sublist.count_le true (List.take_sublist_take_left less)

/-! ### Compaction -/

/-- The marked entries are kept, each at its place among them. -/
def placement (states nodes : Array Bool) : Placement :=
  ⟨Marked states,Marked nodes,fun id => (places states).getD id 0,fun id => (places nodes).getD id 0⟩

theorem moves_placement {states nodes : Array Bool} {stack : List Nat} (above : ClosedAbove arena states stack none)
    (below : ClosedBelow arena nodes []) (marked : ∀ id ∈ stack, Marked nodes id) :
    (placement states nodes).Moves arena
      ⟨(kept states arena.states).map fun stored => { stored with
          parent := stored.parent.map fun parent => (places states).getD parent 0
          node := (places nodes).getD stored.node 0 },
        (kept nodes arena.nodes).map fun node => node.renumbered fun child => (places nodes).getD child 0,[]⟩ where
  node mark found := by rw [Array.getElem?_map]; exact congrArg _ (getElem?_kept mark found)
  children mark found child member := (below.child mark found child member).resolve_right (by simp)
  nodes_lt first second less := places_lt first less (Array.getElem?_eq_some_iff.mp second).1
  state mark found := by rw [Array.getElem?_map]; exact congrArg _ (getElem?_kept mark found)
  parent mark found := ⟨marked _ (above.node mark found),
    fun parent link => (above.parent mark found parent link).resolve_right (by simp)⟩
  states_lt first second less := places_lt first less (Array.getElem?_eq_some_iff.mp second).1

/-- Compaction goes through, and the live states stand for the same derivations afterwards. -/
theorem compact_spec {live : List Nat} {states : List State}
    (represents : List.Forall₂ (Represents arena tokens) live states) :
    ∃ compacted moved, arena.compact live = some (compacted,moved) ∧ compacted.Sound ∧
      List.Forall₂ (Represents compacted tokens) moved states := by
  have leads : ∀ id ∈ live, ∃ frames, Leads arena tokens (some id) frames := by
    intro id member
    obtain ⟨state,leads⟩ := exists_related represents id member
    exact ⟨_,leads⟩
  obtain ⟨stateMarks,stack,marking,above,unfolds,liveMarked,-⟩ :=
    markStates_spec leads (closedAbove_replicate arena) (by simp [Unfolds])
  obtain ⟨nodeMarks,nodeMarking,below,nodesMarked,-⟩ := markNodes_spec (closedBelow_replicate arena stack) unfolds
  have moves := moves_placement above below nodesMarked
  refine ⟨_,_,by simp only [compact,marking,nodeMarking]; rfl,by simp [Sound],?_⟩
  rw [List.forall₂_map_left_iff]
  refine ((List.forall₂_and_left _ _).mpr ⟨liveMarked,represents⟩).imp ?_
  rintro id state ⟨marked,represents⟩
  exact moves.represents (continues_refl tokens) marked represents

end CFrontend.Parser.Arena
