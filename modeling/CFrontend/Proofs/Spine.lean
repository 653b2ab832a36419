import CFrontend.Proofs.Termination

/-!
The spine of a tree is its way down the first children. A state has the spine of the tree it is going to
be as far as it is known. Steps only add to it (`Step.spine_sublist`), and the start symbol is
never added: predicting it again at the first token is a loop, and no cycle through it is grown
around a frame that has the outermost one above it. So no spine that the
parser reaches has the start symbol twice (`Reached.count_spine`).
-/
namespace CFrontend

/-- The nonterminals on the way down the first children. -/
def Tree.spine : Tree → List String
  | .leaf _ => []
  | .branch name [] => [name]
  | .branch name (first :: _) => name :: first.spine

namespace Tree

/-- Whether the nonterminal is on the spine more than once. -/
def revisits (name : String) (tree : Tree) : Bool := 2 ≤ tree.spine.count name

theorem spine_of_same : (left right : Tree) → left.same right = true → left.spine = right.spine
  | .leaf _, .leaf _, _ => rfl
  | .leaf _, .branch _ _, agree => by simp [same] at agree
  | .branch _ _, .leaf _, agree => by simp [same] at agree
  | .branch name [], .branch name' [], agree => by
    simp only [same,Bool.and_eq_true,beq_iff_eq] at agree
    rw [spine,spine,agree.1]
  | .branch _ [], .branch _ (_ :: _), agree => by simp [same,sameForest] at agree
  | .branch _ (_ :: _), .branch _ [], agree => by simp [same,sameForest] at agree
  | .branch name (first :: _), .branch name' (first' :: _), agree => by
    simp only [same,sameForest,Bool.and_eq_true,beq_iff_eq] at agree
    rw [spine,spine,agree.1,spine_of_same first first' agree.2.1]

end Tree

namespace Parser
open Grammar (Cycle)

variable {grammar : Grammar} {tokens : List Token}

/-- The spine of the tree that frames, outermost first, are going to be. -/
def frameSpine : List Frame → List String
  | [] => []
  | frame :: inner => frame.name :: match frame.matched.getLast? with
    | some first => first.spine
    | none => frameSpine inner

/-- The spine of the tree that a state is going to be. -/
def State.spine (state : State) : List String := frameSpine (state.frame :: state.ancestors).reverse

private theorem frameSpine_open {outer : List Frame} (unmatched : ∀ frame ∈ outer, frame.matched = []) (inner : List Frame) :
    frameSpine (outer ++ inner) = outer.map Frame.name ++ frameSpine inner := by
  induction outer with
  | nil => rfl
  | cons frame rest ih =>
    rw [List.forall_mem_cons] at unmatched
    simp [frameSpine,unmatched.1,ih unmatched.2]

private theorem frameSpine_shut {outer : List Frame} (some : ∃ frame ∈ outer, frame.matched ≠ []) (inner : List Frame) :
    frameSpine (outer ++ inner) = frameSpine outer := by
  induction outer with
  | nil => simp at some
  | cons frame rest ih =>
    rw [List.cons_append,frameSpine,frameSpine]
    cases first : frame.matched.getLast? with
    | some tree => rfl
    | none =>
      have empty : frame.matched = [] := List.getLast?_eq_none_iff.mp first
      have inside : ∃ frame ∈ rest, frame.matched ≠ [] := by simpa [empty] using some
      simp only [ih inside]

private theorem open_or_shut (frames : List Frame) :
    (∀ frame ∈ frames, frame.matched = []) ∨ ∃ frame ∈ frames, frame.matched ≠ [] := by
  by_cases unmatched : ∀ frame ∈ frames, frame.matched = []
  · exact .inl unmatched
  · exact .inr (by simpa using unmatched)

/-- A finished node has the spine of its frame. -/
theorem spine_tree (frame : Frame) : frame.tree.spine = frameSpine [frame] := by
  rcases List.eq_nil_or_concat frame.matched with empty | ⟨others,first,split⟩
  · simp [Frame.tree,frameSpine,empty,Tree.spine]
  · rw [List.concat_eq_append] at split
    simp [Frame.tree,frameSpine,split,Tree.spine]

private theorem frameSpine_predicted {name : String} {production : Production}
    (alternative : production ∈ grammar.alternatives name) (origin : Nat) :
    frameSpine [.predicted production origin] = [name] := by
  rw [frameSpine,name_predicted alternative]
  rfl

private theorem frameSpine_advance (frame : Frame) (tree : Tree) :
    frameSpine [frame.advance tree] =
      if frame.matched = [] then frame.name :: tree.spine else frameSpine [frame] := by
  cases matched : frame.matched with
  | nil => simp [frameSpine,Frame.advance,matched,Frame.name]
  | cons last others => simp [frameSpine,Frame.advance,matched,Frame.name]

/-- A finished frame has the same place on the spine before and after its parent goes on with it. -/
theorem frameSpine_close (outer : List Frame) (parent frame : Frame) :
    frameSpine (outer ++ [parent.advance frame.tree]) = frameSpine (outer ++ [parent,frame]) := by
  rcases open_or_shut outer with unmatched | some
  · rw [frameSpine_open unmatched,frameSpine_open unmatched,frameSpine_advance,spine_tree]
    split
    · rename_i empty; simp [frameSpine,empty]
    · rename_i matched
      rw [show [parent,frame] = [parent] ++ [frame] from rfl,frameSpine_shut ⟨parent,by simp,matched⟩]
  · rw [frameSpine_shut some,frameSpine_shut some]

private theorem frameSpine_leaf (outer : List Frame) (frame : Frame) (token : Token) :
    frameSpine (outer ++ [frame.advance (.leaf token)]) = frameSpine (outer ++ [frame]) := by
  rcases open_or_shut outer with unmatched | some
  · rw [frameSpine_open unmatched,frameSpine_open unmatched,frameSpine_advance]
    split
    · rename_i empty; simp [frameSpine,empty,Tree.spine]
    · rfl
  · rw [frameSpine_shut some,frameSpine_shut some]

theorem spine_advance_leaf (state : State) (token : Token) : (state.advance (.leaf token)).spine = state.spine := by
  simp only [State.spine,State.advance,List.reverse_cons]
  exact frameSpine_leaf state.ancestors.reverse state.frame token

/-- A completed tree has the spine of the state that completes it. -/
theorem spine_of_completes {state : State} {tree : Tree} (done : Completes state tree) : tree.spine = state.spine := by
  obtain ⟨-,alone,rfl⟩ := done
  rw [State.spine,alone,spine_tree]
  rfl

/-! ### Steps -/

private theorem reverse_grown {state next : State} {chain : List Production} {last : Production}
    (made : state.grow (chain ++ [last]) = some next) :
    (next.frame :: next.ancestors).reverse = state.ancestors.reverse ++
      (chain.map (Frame.predicted · state.frame.origin) ++
        [(Frame.predicted last state.frame.origin).advance state.frame.tree]) := by
  rw [State.grow,growInto_append] at made
  obtain rfl := Option.some.inj made
  simp

/-- Growing a cycle around a frame on the spine puts its nonterminals above the finished tree. -/
theorem spine_grow {state next : State} {cycle : Cycle} (made : state.grow cycle = some next)
    (unmatched : ∀ frame ∈ state.ancestors, frame.matched = []) :
    next.spine = state.ancestors.reverse.map Frame.name ++ cycle.map (·.rule.lhs) ++ state.frame.tree.spine := by
  obtain ⟨chain,last,rfl,-⟩ := (grow_eq_some_iff state next cycle).mp made
  have inside : ∀ frame ∈ chain.map (Frame.predicted · state.frame.origin), frame.matched = [] := by
    simp [Frame.predicted]
  rw [State.spine,reverse_grown made,frameSpine_open (by simpa using unmatched),frameSpine_open inside,frameSpine_advance]
  simp [Frame.predicted,Frame.name,Function.comp_def]

/-- What a step may add to the spine: the nonterminal that it predicts, or those of the cycle that it grows.
    Both happen only while no frame above has matched anything. -/
theorem Step.spine_cases {current : Nat} {state next : State} (taken : Step grammar current state next) :
    next.spine = state.spine ∨
    (∃ name, (∀ frame ∈ state.frame :: state.ancestors, frame.matched = []) ∧ state.isLooped name current = false ∧
      next.spine = state.spine ++ [name]) ∨
    ∃ cycle ∈ grammar.cycles state.frame.name, state.ancestors ≠ [] ∧
      (∀ frame ∈ state.ancestors, frame.matched = []) ∧ state.mayGrow cycle = true ∧
      state.spine = state.ancestors.reverse.map Frame.name ++ state.frame.tree.spine ∧
      next.spine = state.ancestors.reverse.map Frame.name ++ cycle.map (·.rule.lhs) ++ state.frame.tree.spine := by
  cases taken with
  | @predict name tail production waits fresh alternative =>
    rcases open_or_shut (state.frame :: state.ancestors).reverse with unmatched | some
    · have whole := frameSpine_open unmatched []
      rw [List.append_nil] at whole
      refine .inr (.inl ⟨name,by simpa only [List.mem_reverse] using unmatched,fresh,?_⟩)
      rw [State.spine,List.reverse_cons,frameSpine_open unmatched,frameSpine_predicted alternative,State.spine,whole]
      simp [frameSpine]
    · left
      rw [State.spine,List.reverse_cons,frameSpine_shut some]
      rfl
  | @close parent ancestors finished below =>
    left
    rw [State.spine,State.spine,below]
    simpa using frameSpine_close ancestors.reverse parent state.frame
  | @grow parent ancestors chain last finished below recorded allowed =>
    have made : state.grow (chain ++ [last]) = some _ := (grow_eq_some_iff state _ _).mpr ⟨chain,last,rfl,rfl⟩
    have whole : state.spine = frameSpine (state.ancestors.reverse ++ [state.frame]) := by
      rw [State.spine,List.reverse_cons]
    rcases open_or_shut state.ancestors with unmatched | some
    · refine .inr (.inr ⟨_,recorded,by simp [below],unmatched,allowed,?_,spine_grow made unmatched⟩)
      rw [whole,frameSpine_open (by simpa using unmatched),spine_tree]
    · left
      have some' : ∃ frame ∈ state.ancestors.reverse, frame.matched ≠ [] := by simpa using some
      rw [whole,State.spine,reverse_grown made,frameSpine_shut some',frameSpine_shut some']

/-- A step forgets nothing of the spine. -/
theorem Step.spine_sublist {current : Nat} {state next : State} (taken : Step grammar current state next) :
    state.spine.Sublist next.spine := by
  rcases taken.spine_cases with same | ⟨name,-,-,longer⟩ | ⟨cycle,-,-,-,-,own,longer⟩
  · rw [same]
  · rw [longer]
    exact List.sublist_append_left _ _
  · rw [own,longer]
    exact (List.sublist_append_left _ _).append_right _

/-! ### Reached states -/

/-- Frames that derive something stand on one of the start symbol. -/
theorem PartialDerivation.rooted {frames : List Frame} (derivation : PartialDerivation grammar frames tokens) :
    ∃ frame ∈ frames, frame.name = grammar.start ∧ frame.origin = 0 := by
  induction derivation with
  | root valid named placed => exact ⟨_,by simp,named,placed⟩
  | push below waits valid placed ih =>
    obtain ⟨frame,member,root⟩ := ih
    exact ⟨frame,by simp [member],root⟩

theorem PartialDerivation.unread {frames : List Frame} (derivation : PartialDerivation grammar frames tokens)
    (unmatched : ∀ frame ∈ frames, frame.matched = []) : tokens = [] := by
  induction derivation with
  | root valid named placed =>
    rw [List.forall_mem_singleton] at unmatched
    simp [Frame.tokens,unmatched,Tree.forestTokens]
  | push below waits valid placed ih =>
    rw [List.forall_mem_cons] at unmatched
    rw [ih unmatched.2]
    simp [Frame.tokens,unmatched.1,Tree.forestTokens]

/-- A step keeps the number of start symbols on the spine. -/
theorem PartialDerivation.count_spine {state next : State}
    (derivation : PartialDerivation grammar (state.frame :: state.ancestors) tokens)
    (taken : Step grammar tokens.length state next) :
    next.spine.count grammar.start = state.spine.count grammar.start := by
  rcases taken.spine_cases with same | ⟨name,unmatched,fresh,longer⟩ |
    ⟨cycle,recorded,inside,unmatched,allowed,own,longer⟩
  · rw [same]
  · obtain ⟨frame,member,named,placed⟩ := derivation.rooted
    have first : tokens.length = 0 := by rw [derivation.unread unmatched]; rfl
    have apart := not_looped derivation fresh frame member (by omega)
    rw [longer,List.count_append,List.count_singleton]
    simp [← named,Ne.symm apart]
  · have apart := not_shared derivation allowed
    have absent : grammar.start ∉ cycle.map (·.rule.lhs) := by
      obtain ⟨parent,ancestors,below⟩ := List.exists_cons_of_ne_nil inside
      rw [below] at derivation unmatched apart
      cases derivation with
      | push under waits valid placed =>
        obtain ⟨frame,member,named,first⟩ := under.rooted
        intro through
        obtain ⟨step,own,same⟩ := List.mem_map.mp through
        refine apart frame member ?_ step own (same.trans named.symm)
        rw [placed,under.unread unmatched,first]
        rfl
    rw [own,longer,List.count_append,List.count_append,List.count_append,List.count_eq_zero.mpr absent,Nat.add_zero]

/-- No reached spine has the start symbol twice. -/
theorem Reached.count_spine {count : Nat} {state : State} (reached : Reached grammar tokens count state) :
    state.spine.count grammar.start = 1 := by
  induction reached with
  | start alternative =>
    rw [State.spine,State.root,List.reverse_singleton,frameSpine_predicted alternative,List.count_singleton_self]
  | step reached taken ih =>
    obtain ⟨length,derivation⟩ := reached.partialDerivation
    rw [derivation.count_spine (length.symm ▸ taken),ih]
  | scan reached waits here ih => rw [spine_advance_leaf,ih]

end Parser

end CFrontend
