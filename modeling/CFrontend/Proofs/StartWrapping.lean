import CFrontend.Proofs.Spine
import CFrontend.Proofs.Yields
import CFrontend.Proofs.Wrapping
import Mathlib

/-!
What wrapping the start symbol changes. The parser of the wrapped grammar does what the parser of the inner
one does, below one more frame, except that a complete state has a parent there: its tree goes into
the wrapping tree, and the cycles of the inner start symbol are grown around it.
The inner parser never grows them, so it misses the trees that have its start symbol on the spine
again, and finds all others in the same order (`woven_yields`).
-/
namespace CFrontend.Parser
open Grammar (Cycle Wraps shift)

/-! ### Lists with additions -/

/-- The second list has what is kept of the first, in order, and additions. -/
inductive Woven {α β : Type} (kept : α → β → Prop) (extra : β → Prop) : List α → List β → Prop
  | nil : Woven kept extra [] []
  | keep {first : α} {second : β} {rest : List α} {others : List β} (same : kept first second)
      (woven : Woven kept extra rest others) : Woven kept extra (first :: rest) (second :: others)
  | add {second : β} {rest : List α} {others : List β} (added : extra second)
      (woven : Woven kept extra rest others) : Woven kept extra rest (second :: others)

section Woven

variable {α β : Type} {kept : α → β → Prop} {extra : β → Prop}

theorem Woven.append {first rest : List α} {second others : List β} (front : Woven kept extra first second)
    (back : Woven kept extra rest others) : Woven kept extra (first ++ rest) (second ++ others) := by
  induction front with
  | nil => exact back
  | keep same _ ih => exact .keep same ih
  | add added _ ih => exact .add added ih

private theorem woven_map (list : List α) (image : α → β) (same : ∀ item ∈ list, kept item (image item)) :
    Woven kept extra list (list.map image) := by
  induction list with
  | nil => exact .nil
  | cons item rest ih =>
    rw [List.forall_mem_cons] at same
    exact .keep same.1 (ih same.2)

private theorem woven_extra (list : List β) (added : ∀ item ∈ list, extra item) : Woven kept extra [] list := by
  induction list with
  | nil => exact .nil
  | cons item rest ih =>
    rw [List.forall_mem_cons] at added
    exact .add added.1 (ih added.2)

private theorem Woven.eq_map {image : α → β} {list : List α} {others : List β}
    (woven : Woven (fun item other => other = image item) extra list others) (none : ∀ item, ¬ extra item) :
    others = list.map image := by
  induction woven with
  | nil => rfl
  | keep same _ ih => rw [List.map_cons,same,ih]
  | add added => exact absurd added (none _)

private theorem Woven.filter_eq_map {image : α → β} {test : β → Bool} {list : List α} {others : List β}
    (woven : Woven (fun item other => other = image item) extra list others)
    (dropped : ∀ item, extra item → test item = false) (kept : ∀ item ∈ list, test (image item) = true) :
    others.filter test = list.map image := by
  induction woven with
  | nil => rfl
  | keep same _ ih =>
    rw [List.forall_mem_cons] at kept
    rw [same,List.filter_cons_of_pos kept.1,ih kept.2,List.map_cons]
  | add added _ ih => rw [List.filter_cons_of_neg (by simp [dropped _ added]),ih kept]

end Woven

/-! ### States below one more frame -/

/-- The frame with its production moved up behind a place. -/
def Frame.moved (place : Nat) (frame : Frame) : Frame := { frame with production := shift place frame.production }

@[simp] theorem name_moved (place : Nat) (frame : Frame) : (frame.moved place).name = frame.name := by
  simp [Frame.moved,Frame.name]

@[simp] theorem tree_moved (place : Nat) (frame : Frame) : (frame.moved place).tree = frame.tree := by
  rw [Frame.tree,Frame.tree,name_moved]
  rfl

@[simp] theorem origin_moved (place : Nat) (frame : Frame) : (frame.moved place).origin = frame.origin := rfl

private theorem moved_predicted (place : Nat) (production : Production) (origin : Nat) :
    (Frame.predicted production origin).moved place = .predicted (shift place production) origin := by
  simp [Frame.moved,Frame.predicted]

private theorem moved_advance (place : Nat) (frame : Frame) (tree : Tree) :
    (frame.advance tree).moved place = (frame.moved place).advance tree := rfl

/-- The state below one more frame, whose production moves those behind it up. -/
def State.below (base : Frame) (state : State) : State :=
  ⟨state.frame.moved base.production.index,state.ancestors.map (Frame.moved base.production.index) ++ [base]⟩

private theorem any_takeWhile_below (base : Frame) (origin : Nat) (test : String → Bool) (frames : List Frame)
    (other : test base.name = false) :
    ((frames.map (Frame.moved base.production.index) ++ [base]).takeWhile fun frame => frame.origin == origin).any
        (fun frame => test frame.name) =
      (frames.takeWhile fun frame => frame.origin == origin).any fun frame => test frame.name := by
  induction frames with
  | nil => by_cases same : base.origin = origin <;> simp [same,other]
  | cons frame rest ih =>
    by_cases same : frame.origin = origin
    · simp only [List.map_cons,List.cons_append,List.takeWhile_cons,origin_moved,same,beq_self_eq_true,if_true,
        List.any_cons,name_moved,ih]
    · have differs : (frame.origin == origin) = false := by simpa using same
      simp [differs]

private theorem isLooped_below {base : Frame} (state : State) {name : String} (current : Nat) (other : base.name ≠ name) :
    (state.below base).isLooped name current = state.isLooped name current :=
  any_takeWhile_below base current (· == name) (state.frame :: state.ancestors) (by simpa using other)

private theorem mayGrow_below {base : Frame} (state : State) {cycle : Cycle}
    (other : ∀ step ∈ cycle, step.rule.lhs ≠ base.name) :
    (state.below base).mayGrow (cycle.map (shift base.production.index)) = state.mayGrow cycle := by
  have names : ∀ frame : Frame, (cycle.map (shift base.production.index)).any (fun step => step.rule.lhs == frame.name) =
      cycle.any fun step => step.rule.lhs == frame.name := by
    intro frame
    simp [List.any_map,Function.comp_def]
  have above := any_takeWhile_below base state.frame.origin (fun name => cycle.any fun step => step.rule.lhs == name)
    state.ancestors (by simpa using other)
  rw [State.mayGrow,State.mayGrow,← above]
  simp only [names]
  rfl

private theorem grow_below (base : Frame) (state : State) (cycle : Cycle) :
    (state.below base).grow (cycle.map (shift base.production.index)) = (state.grow cycle).map (State.below base) := by
  rcases List.eq_nil_or_concat cycle with rfl | ⟨chain,last,rfl⟩
  · rfl
  · rw [List.concat_eq_append,List.map_append,List.map_singleton,State.grow,State.grow,growInto_append,growInto_append]
    simp [State.below,moved_predicted,moved_advance,Function.comp_def]

private theorem predict_below (base : Frame) (state : State) (alternatives : List Production) (current : Nat) :
    (state.below base).predict (alternatives.map (shift base.production.index)) current =
      (state.predict alternatives current).map (State.below base) := by
  simp [State.predict,State.below,moved_predicted,Function.comp_def]

/-! ### Expansion -/

variable {before after : List Rule} {inner outer : Grammar} {tokens : List Token} {count : Nat}

/-- The frame of the rule that wraps the start symbol. -/
def wrapping (before : List Rule) (inner outer : Grammar) : Frame :=
  .predicted ⟨before.length,⟨outer.start,[.nonterminal inner.start]⟩⟩ 0

private theorem index_wrapping (before : List Rule) (inner outer : Grammar) :
    (wrapping before inner outer).production.index = before.length := rfl

theorem Reached.unknown (wraps : Wraps before after inner outer) {state : State}
    (reached : Reached inner tokens count state) {frame : Frame} (member : frame ∈ state.frame :: state.ancestors) :
    frame.name ≠ outer.start ∧ .nonterminal outer.start ∉ frame.rest := by
  obtain ⟨alternative,done,rhs,-⟩ := reached.partialDerivation.2.valid frame member
  have own := Grammar.rule_of_mem_alternatives alternative
  refine ⟨wraps.undefined _ own,fun inside => wraps.unused _ own ?_⟩
  rw [rhs]
  exact List.mem_append_right done inside

private theorem grown_below (wraps : Wraps before after inner outer) {state : State} (known : state.frame.name ≠ outer.start) :
    (state.below (wrapping before inner outer)).grown outer =
      (state.grown inner).map (State.below (wrapping before inner outer)) := by
  have named : (state.below (wrapping before inner outer)).frame.name = state.frame.name := name_moved _ _
  have allowed : ∀ cycle ∈ inner.cycles state.frame.name,
      ((state.below (wrapping before inner outer)).mayGrow ∘ List.map (shift before.length)) cycle =
        state.mayGrow cycle := by
    intro cycle recorded
    obtain ⟨⟨-,linked,-⟩,-⟩ := (Grammar.mem_cycles_iff inner _ cycle).mp recorded
    exact mayGrow_below state fun step inside =>
      wraps.undefined _ (Grammar.rule_of_mem_alternatives (linked.alternative_of_mem step inside))
  rw [State.grown,State.grown,named,wraps.cycles known,List.filter_map,List.filterMap_map,List.map_filterMap,
    List.filter_congr allowed]
  apply List.filterMap_congr
  intro cycle _
  exact grow_below (wrapping before inner outer) state cycle

private theorem expand_below_waiting {state : State} {kind : TokenKind} (base : Frame)
    (waits : expand (Table.of inner) count state = .waiting kind) :
    expand (Table.of outer) count (state.below base) = .waiting kind := by
  rw [expand_waiting_iff] at waits ⊢
  exact waits

/-- A state that is not complete expands below the wrapping frame as it does alone. -/
theorem expand_below_into (wraps : Wraps before after inner outer) {state : State} {states : List State} {created : Nat}
    (reached : Reached inner tokens count state) (replaced : expand (Table.of inner) count state = .into states created) :
    ∃ number, expand (Table.of outer) count (state.below (wrapping before inner outer)) =
      .into (states.map (State.below (wrapping before inner outer))) number := by
  obtain ⟨known,absent⟩ := reached.unknown wraps (List.mem_cons_self)
  have rest : (state.below (wrapping before inner outer)).frame.rest = state.frame.rest := rfl
  rcases expand_into_cases replaced with ⟨parent,ancestors,next,above,rfl⟩ | ⟨name,tail,next,taken⟩
  · obtain ⟨number,wrapped⟩ := expand_finished outer count (rest.trans next)
      (by simp only [State.below,above,List.map_cons,List.cons_append]; rfl)
    refine ⟨number,wrapped.trans ?_⟩
    rw [grown_below wraps known,List.map_cons]
    simp [State.below,moved_advance]
  · have other : name ≠ outer.start := by
      rintro rfl
      exact absent (by simp [next])
    rw [expand_nonterminal outer (rest.trans next),isLooped_below state count (Ne.symm other),wraps.alternatives other]
    rcases taken with ⟨looped,rfl⟩ | ⟨fresh,rfl⟩
    · exact ⟨0,by rw [if_pos looped,List.map_nil]⟩
    · exact ⟨_,by rw [if_neg (by simp [fresh]),← predict_below]; rfl⟩

/-- The inner start symbol is on the spine of the state again, which growing its cycles makes it. -/
def Regrown (inner : Grammar) (state : State) : Prop :=
  inner.cycles inner.start ≠ [] ∧ 2 ≤ state.spine.count inner.start

/-- A cycle that is grown around a tree of the start symbol begins with the start symbol. -/
theorem regrown_grown (wraps : Wraps before after inner outer) {state : State} (alone : state.ancestors = [])
    (root : state.frame.name = inner.start) :
    ∀ next ∈ (state.below (wrapping before inner outer)).grown outer, Regrown inner next := by
  intro next member
  obtain ⟨cycle,kept,made⟩ := List.mem_filterMap.mp member
  obtain ⟨recorded,-⟩ := List.mem_filter.mp kept
  have own : (state.below (wrapping before inner outer)).frame.name = inner.start := (name_moved _ _).trans root
  rw [own] at recorded
  obtain ⟨⟨nonempty,linked,-⟩,-⟩ := (Grammar.mem_cycles_iff outer inner.start cycle).mp recorded
  obtain ⟨first,others,rfl⟩ := List.exists_cons_of_ne_nil nonempty
  constructor
  · intro none
    simp [wraps.cycles (Ne.symm wraps.unstarted),none] at recorded
  · have spine := spine_grow made (by simp [State.below,alone,wrapping,Frame.predicted])
    rw [spine,spine_tree,frameSpine,own]
    simp only [List.map_cons,linked.head_lhs,List.count_append,List.count_cons_self]
    omega

/-- A complete state has the wrapping frame as its parent, and the cycles of the start symbol are grown. -/
theorem expand_below_complete (wraps : Wraps before after inner outer) {state : State} {tree : Tree}
    (reached : Reached inner tokens count state) (done : expand (Table.of inner) count state = .complete tree) :
    ∃ grown number, expand (Table.of outer) count (state.below (wrapping before inner outer)) =
        .into (⟨(wrapping before inner outer).advance tree,[]⟩ :: grown) number ∧
      ∀ next ∈ grown, Regrown inner next := by
  obtain ⟨finished,alone,rfl⟩ := (expand_complete_iff _ state tree).mp done
  have root : state.frame.name = inner.start := by
    obtain ⟨frame,member,named,-⟩ := reached.partialDerivation.2.rooted
    rw [alone,List.mem_singleton] at member
    rw [← member,named]
  obtain ⟨number,wrapped⟩ := expand_finished outer count
    (show (state.below (wrapping before inner outer)).frame.rest = [] from finished)
    (show (state.below (wrapping before inner outer)).ancestors = wrapping before inner outer :: [] by
      simp [State.below,alone])
  rw [show (state.below (wrapping before inner outer)).frame.tree = state.frame.tree from tree_moved _ _] at wrapped
  exact ⟨_,number,wrapped,regrown_grown wraps alone root⟩

/-! ### Passes -/

/-- The tree of the wrapping rule. -/
def wrap (outer : Grammar) (tree : Tree) : Tree := .branch outer.start [tree]

/-- What stands for a state below the wrapping frame: the same state there, or, when it is complete, the
    wrapping frame that went on with its tree. -/
def StandsFor (before : List Rule) (inner outer : Grammar) (state other : State) : Prop :=
  other = state.below (wrapping before inner outer) ∨
    ∃ tree, Completes state tree ∧ other = ⟨(wrapping before inner outer).advance tree,[]⟩

private theorem regrown_step {state next : State} (taken : Step outer count state next) (again : Regrown inner state) :
    Regrown inner next :=
  ⟨again.1,Nat.le_trans again.2 (taken.spine_sublist.count_le _)⟩

/-- How a state and what stands for it expand: they wait alike, they are complete alike, a complete state is
    closed first, or what they expand into is alike. -/
theorem StandsFor.expand_cases (wraps : Wraps before after inner outer) {state other : State}
    (stands : StandsFor before inner outer state other) (reached : Reached inner tokens count state) :
    (∃ kind, expand (Table.of inner) count state = .waiting kind ∧
      expand (Table.of outer) count other = .waiting kind ∧ other = state.below (wrapping before inner outer)) ∨
    (∃ tree, expand (Table.of inner) count state = .complete tree ∧
      expand (Table.of outer) count other = .complete (wrap outer tree)) ∨
    (∃ tree grown number, Completes state tree ∧ (∀ next ∈ grown, Regrown inner next) ∧
      expand (Table.of outer) count other = .into (⟨(wrapping before inner outer).advance tree,[]⟩ :: grown) number) ∨
    ∃ states created number, expand (Table.of inner) count state = .into states created ∧
      expand (Table.of outer) count other = .into (states.map (State.below (wrapping before inner outer))) number := by
  rcases stands with rfl | ⟨tree,complete,rfl⟩
  · cases expanded : expand (Table.of inner) count state with
    | waiting kind => exact .inl ⟨kind,rfl,expand_below_waiting _ expanded,rfl⟩
    | complete tree =>
      obtain ⟨grown,number,closed,again⟩ := expand_below_complete wraps reached expanded
      exact .inr (.inr (.inl ⟨tree,grown,number,(expand_complete_iff _ state tree).mp expanded,again,closed⟩))
    | into states created =>
      obtain ⟨number,below⟩ := expand_below_into wraps reached expanded
      exact .inr (.inr (.inr ⟨states,created,number,rfl,below⟩))
  · exact .inr (.inl ⟨tree,(expand_complete_iff _ state tree).mpr complete,rfl⟩)

/-- The states that wait in the inner parser wait below the wrapping frame, among regrown ones. -/
abbrev WovenPending (before : List Rule) (inner outer : Grammar) : (pending pending' : List (TokenKind × State)) → Prop :=
  Woven (fun entry other => other = (entry.1,entry.2.below (wrapping before inner outer)))
    fun other => Regrown inner other.2

/-- The trees of the inner grammar are wrapped, among trees with its start symbol on the spine again. -/
abbrev WovenTrees (inner outer : Grammar) : (trees trees' : List Tree) → Prop :=
  Woven (fun tree other => other = wrap outer tree)
    fun other => inner.cycles inner.start ≠ [] ∧ other.revisits inner.start = true

/-- A pass of the wrapped grammar has what stands for the results of a pass of the inner one, in order,
    and regrown states and trees. -/
theorem woven_traversal (wraps : Wraps before after inner outer) {stack' : List State}
    {pending' : List (TokenKind × State)} {complete' : List Tree}
    (wrapped : Traversal (Table.of outer) count stack' pending' complete') {stack : List State}
    {pending : List (TokenKind × State)} {complete : List Tree}
    (sources : ∀ state ∈ stack, Reached inner tokens count state)
    (woven : Woven (StandsFor before inner outer) (Regrown inner) stack stack')
    (alone : Traversal (Table.of inner) count stack pending complete) :
    WovenPending before inner outer pending pending' ∧ WovenTrees inner outer complete complete' := by
  induction wrapped generalizing stack pending complete with
  | nil =>
    cases woven
    cases alone
    exact ⟨.nil,.nil⟩
  | @wait other others kind pending' complete' waits rest ih =>
    cases woven with
    | add again woven =>
      obtain ⟨onPending,onComplete⟩ := ih sources woven alone
      exact ⟨.add again onPending,onComplete⟩
    | keep stands woven =>
      obtain ⟨own,others⟩ := List.forall_mem_cons.mp sources
      rcases stands.expand_cases wraps own with
        ⟨kind',first,second,rfl⟩ | ⟨_,-,second⟩ | ⟨_,_,_,-,-,second⟩ | ⟨_,_,_,-,second⟩
      · obtain rfl : kind = kind' := by simpa [waits] using second
        obtain ⟨more,rfl,later⟩ := alone.wait_inv first
        obtain ⟨onPending,onComplete⟩ := ih others woven later
        exact ⟨.keep rfl onPending,onComplete⟩
      all_goals simp [waits] at second
  | @finish other others tree' pending' complete' done rest ih =>
    cases woven with
    | add again woven =>
      obtain ⟨onPending,onComplete⟩ := ih sources woven alone
      refine ⟨onPending,.add ?_ onComplete⟩
      rw [Tree.revisits,spine_of_completes ((expand_complete_iff _ _ _).mp done),decide_eq_true_eq]
      exact again
    | keep stands woven =>
      obtain ⟨own,others⟩ := List.forall_mem_cons.mp sources
      rcases stands.expand_cases wraps own with
        ⟨_,-,second,-⟩ | ⟨tree,first,second⟩ | ⟨_,_,_,-,-,second⟩ | ⟨_,_,_,-,second⟩
      · simp [done] at second
      · obtain rfl : tree' = wrap outer tree := by simpa [done] using second
        obtain ⟨more,rfl,later⟩ := alone.finish_inv first
        obtain ⟨onPending,onComplete⟩ := ih others woven later
        exact ⟨onPending,.keep rfl onComplete⟩
      all_goals simp [done] at second
  | @into other others states created pending' complete' replaced rest ih =>
    cases woven with
    | add again woven =>
      refine ih sources ?_ alone
      exact (woven_extra states fun next member => regrown_step ((mem_expand_iff replaced next).mp member) again).append woven
    | @keep state _ stack _ stands woven =>
      obtain ⟨own,others⟩ := List.forall_mem_cons.mp sources
      rcases stands.expand_cases wraps own with
        ⟨_,-,second,-⟩ | ⟨_,-,second⟩ | ⟨tree,grown,_,complete,again,second⟩ | ⟨states',_,_,first,second⟩
      · simp [replaced] at second
      · simp [replaced] at second
      · -- The complete state stays where it is until its wrapping tree is found.
        rw [replaced,Expansion.into.injEq] at second
        refine ih sources ?_ alone
        rw [second.1]
        exact .keep (.inr ⟨tree,complete,rfl⟩) ((woven_extra grown again).append woven)
      · rw [replaced,Expansion.into.injEq] at second
        refine ih ?_ ?_ (alone.into_inv first)
        · exact List.forall_mem_append.mpr ⟨fun next member => own.step ((mem_expand_iff first next).mp member),others⟩
        · rw [second.1]
          exact (woven_map states' _ fun _ _ => .inl rfl).append woven

private theorem scan_cons (token : Token) (kind : TokenKind) (state : State) (pending : List (TokenKind × State)) :
    scan token ((kind,state) :: pending) =
      if kind = token.kind then state.advance (.leaf token) :: scan token pending else scan token pending := by
  by_cases same : kind = token.kind <;> simp [scan,same]

private theorem woven_scan (token : Token) {pending pending' : List (TokenKind × State)}
    (woven : WovenPending before inner outer pending pending') :
    Woven (StandsFor before inner outer) (Regrown inner) (scan token pending) (scan token pending') := by
  induction woven with
  | nil => exact .nil
  | @keep entry other rest others same woven ih =>
    obtain ⟨kind,state⟩ := entry
    subst same
    rw [scan_cons,scan_cons]
    split
    · exact .keep (.inl rfl) ih
    · exact ih
  | @add other rest others again woven ih =>
    obtain ⟨kind,state⟩ := other
    rw [scan_cons]
    split
    · refine .add ⟨again.1,?_⟩ ih
      rw [spine_advance_leaf]
      exact again.2
    · exact ih

/-- The trees of the wrapped grammar are those of the inner one, wrapped and in order, and regrown ones. -/
theorem woven_yields (wraps : Wraps before after inner outer) (rest : List Token) (remaining : tokens.drop count = rest)
    (within : count ≤ tokens.length) {live live' : List State} {trees trees' : List Tree}
    (sources : ∀ state ∈ live, Reached inner tokens count state)
    (woven : Woven (StandsFor before inner outer) (Regrown inner) live live')
    (alone : Yields (Table.of inner) count live rest trees)
    (wrapped : Yields (Table.of outer) count live' rest trees') :
    WovenTrees inner outer trees trees' ∧ ∀ tree ∈ trees, Found inner tokens tree := by
  induction rest generalizing count live live' with
  | nil =>
    obtain ⟨pending,traversal⟩ := alone
    obtain ⟨pending',traversal'⟩ := wrapped
    have whole : count = tokens.length := by
      have := List.drop_eq_nil_iff.mp remaining
      omega
    refine ⟨(woven_traversal wraps traversal' sources woven traversal).2,fun tree member => ?_⟩
    obtain ⟨state,done,reached⟩ := (traversal.reached sources).2 tree member
    exact ⟨state,whole ▸ reached,done⟩
  | cons token rest ih =>
    obtain ⟨pending,complete,traversal,later⟩ := alone
    obtain ⟨pending',complete',traversal',later'⟩ := wrapped
    obtain ⟨here,after,next⟩ := next_token remaining
    have waiting := (traversal.reached sources).1
    refine ih after next ?_ (woven_scan token (woven_traversal wraps traversal' sources woven traversal).1) later later'
    intro state member
    obtain ⟨earlier,found,rfl⟩ := (mem_scan_iff token pending state).mp member
    obtain ⟨waits,reached⟩ := waiting (token.kind,earlier) found
    exact reached.scan waits here

/-- Before the first token, the wrapping frame predicts what the inner parser starts with. -/
theorem yields_initial (wraps : Wraps before after inner outer) {trees : List Tree}
    (yields : Yields (Table.of outer) 0 (initial outer) tokens trees) :
    Yields (Table.of outer) 0 ((initial inner).map (State.below (wrapping before inner outer))) tokens trees := by
  have start : initial outer = [⟨wrapping before inner outer,[]⟩] := by
    rw [initial,wraps.alternatives_start]
    rfl
  have fresh : State.isLooped ⟨wrapping before inner outer,[]⟩ inner.start 0 = false := by
    simp [State.isLooped,wrapping,Frame.predicted,Frame.name,wraps.unstarted]
  have predicted : expand (Table.of outer) 0 ⟨wrapping before inner outer,[]⟩ =
      .into ((initial inner).map (State.below (wrapping before inner outer))) (inner.alternatives inner.start).length := by
    rw [expand_nonterminal outer rfl,fresh,wraps.alternatives (Ne.symm wraps.unstarted)]
    simp [initial,State.predict,State.root,State.below,moved_predicted,Function.comp_def,index_wrapping]
  rw [start] at yields
  simpa using yields.into_inv predicted

/-! ### Outcomes -/

/-- One outcome has the wrapped tree of the other. -/
def WrapsTree (outer : Grammar) (alone wrapped : Except ParseError Tree) : Prop :=
  ∀ tree, wrapped = .ok tree ↔ ∃ below, alone = .ok below ∧ tree = wrap outer below

/-- Among the trees of a list that pass a test the same tree is settled on, mapped, exactly when the tree settled
    on in the list passes it and the test does not remove an ambiguity. -/
theorem chosen_filter (policy : AmbiguityPolicy) {image : Tree → Tree} {test : Tree → Bool} {trees trees' : List Tree}
    (filtered : trees'.filter test = trees.map image) :
    (∀ tree, chosen policy trees' = some tree ↔ ∃ below, chosen policy trees = some below ∧ tree = image below) ↔
      (∀ tree, chosen policy trees' = some tree → test tree = true) ∧
      (policy ≠ .first → 2 ≤ trees'.length → (trees'.filter test).length ≠ 1) := by
  constructor
  · intro same
    refine ⟨fun tree taken => ?_,fun reported long alone => ?_⟩
    · obtain ⟨below,own,rfl⟩ := (same tree).mp taken
      have passes : image below ∈ trees'.filter test := by
        rw [filtered]
        exact List.mem_map_of_mem (mem_of_chosen own)
      exact (List.mem_filter.mp passes).2
    · rw [filtered,List.length_map,List.length_eq_one_iff] at alone
      obtain ⟨tree,rfl⟩ := alone
      have taken := (same (image tree)).mpr ⟨tree,rfl,rfl⟩
      rcases trees' with _ | ⟨first,_ | ⟨second,others⟩⟩
      · simp at long
      · simp at long
      · simp [chosen,reported] at taken
  · rintro ⟨passes,lasting⟩
    rcases trees' with _ | ⟨first,_ | ⟨second,others⟩⟩
    · have none : trees = [] := by simpa using filtered
      simp [none,chosen]
    · have own : test first = true := passes first rfl
      rw [List.filter_cons_of_pos own,List.filter_nil,eq_comm,List.map_eq_singleton_iff] at filtered
      obtain ⟨tree,rfl,rfl⟩ := filtered
      simp [chosen,eq_comm]
    · by_cases taken : policy = .first
      · have own : test first = true := passes first (by simp [chosen,taken])
        rw [List.filter_cons_of_pos own,eq_comm,List.map_eq_cons_iff] at filtered
        obtain ⟨tree,rest,rfl,rfl,-⟩ := filtered
        cases rest <;> simp [chosen,taken,eq_comm]
      · have several := lasting taken (by simp)
        rw [filtered,List.length_map] at several
        rcases trees with _ | ⟨tree,_ | ⟨next,more⟩⟩
        · simp [chosen,taken]
        · simp at several
        · simp [chosen,taken]

private theorem chosen_map (policy : AmbiguityPolicy) (image : Tree → Tree) (trees : List Tree) :
    chosen policy (trees.map image) = (chosen policy trees).map image := by
  rcases trees with _ | ⟨first,_ | ⟨second,others⟩⟩
  · rfl
  · rfl
  · by_cases taken : policy = .first <;> simp [chosen,taken]

/-- A tree of the inner grammar has its start symbol on the spine once, also when it is wrapped. -/
theorem revisits_wrap (wraps : Wraps before after inner outer) {tree : Tree} (found : Found inner tokens tree) :
    (wrap outer tree).revisits inner.start = false := by
  obtain ⟨state,reached,done⟩ := found
  have spine : (wrap outer tree).spine = outer.start :: state.spine := by
    rw [← spine_of_completes done]
    rfl
  rw [Tree.revisits,spine,List.count_cons_of_ne wraps.unstarted,reached.count_spine]
  rfl

private theorem same_wrap (outer : Grammar) (left right : Tree) : (wrap outer left).same (wrap outer right) = left.same right := by
  simp [wrap,Tree.same,Tree.sameForest]

/-- The distinct trees that the wrapped grammar has for the tokens are those of the inner one, wrapped and in order,
    and trees with the start symbol on the spine again, if it has cycles. -/
theorem distinct_yields (wraps : Wraps before after inner outer) {trees trees' : List Tree}
    (alone : Yields (Table.of inner) 0 (initial inner) tokens trees)
    (wrapped : Yields (Table.of outer) 0 (initial outer) tokens trees') :
    (distinct trees').filter (fun tree => !tree.revisits inner.start) = (distinct trees).map (wrap outer) ∧
    (inner.cycles inner.start = [] → distinct trees' = (distinct trees).map (wrap outer)) := by
  have sources : ∀ state ∈ initial inner, Reached inner tokens 0 state := fun state member =>
    (sources_initial inner tokens state).mpr ⟨state,member,.refl⟩
  obtain ⟨woven,found⟩ := woven_yields wraps tokens rfl (Nat.zero_le _) sources
    (woven_map (initial inner) _ fun _ _ => .inl rfl) alone (yields_initial wraps wrapped)
  have respects : ∀ left right : Tree, left.same right = true →
      (!left.revisits inner.start) = !right.revisits inner.start := by
    intro left right agree
    rw [Tree.revisits,Tree.revisits,Tree.spine_of_same left right agree]
  rw [← distinct_filter respects,← distinct_map (same_wrap outer)]
  constructor
  · rw [woven.filter_eq_map (by simp) fun tree member => by simp [revisits_wrap wraps (found tree member)]]
  · intro none
    rw [woven.eq_map (by simp [none])]

/-- Within their limits the two parsers agree exactly when the tree that the wrapped grammar has, if any, does not
    have the inner start symbol on its spine again, and its ambiguity, if any, is not between such trees and a
    single other one. Without cycles of the start symbol they always agree. -/
theorem parse_wrapped (wraps : Wraps before after inner outer) (options : Options) (tokens : List Token) (pos : Position)
    (withinInner : ∀ limit place, parse inner options ⟨tokens,.finished pos⟩ ≠ .error (.stateLimit limit place))
    (withinOuter : ∀ limit place, parse outer options ⟨tokens,.finished pos⟩ ≠ .error (.stateLimit limit place)) :
    (WrapsTree outer (parse inner options ⟨tokens,.finished pos⟩) (parse outer options ⟨tokens,.finished pos⟩) ↔
      (∀ tree, parse outer options ⟨tokens,.finished pos⟩ = .ok tree → tree.revisits inner.start = false) ∧
      ∀ trees, parse outer options ⟨tokens,.finished pos⟩ = .error (.ambiguous trees) →
        (trees.filter fun tree => !tree.revisits inner.start).length ≠ 1) ∧
    (inner.cycles inner.start = [] →
      WrapsTree outer (parse inner options ⟨tokens,.finished pos⟩) (parse outer options ⟨tokens,.finished pos⟩)) := by
  obtain ⟨trees,alone,ok,-⟩ := parse_yields withinInner
  obtain ⟨trees',wrapped,ok',ambiguous'⟩ := parse_yields withinOuter
  obtain ⟨filtered,unchanged⟩ := distinct_yields wraps alone wrapped
  simp only [WrapsTree,ok,ok',ambiguous']
  constructor
  · rw [chosen_filter options.ambiguity filtered]
    refine and_congr (by simp) ?_
    constructor
    · rintro lasting several ⟨rfl,long,reported⟩
      exact lasting reported long
    · intro lasting reported long
      exact lasting _ ⟨rfl,long,reported⟩
  · intro none tree
    rw [unchanged none,chosen_map,Option.map_eq_some_iff]
    simp only [eq_comm]

/-- Plus signs behind an identifier; the left recursion goes through the start symbol. -/
def suffixed : Grammar :=
  ⟨"S",[⟨"S",[.nonterminal "A"]⟩,⟨"A",[.nonterminal "S",.terminal .plus]⟩,⟨"A",[.terminal .identifier]⟩],
    by decide +kernel⟩

/-- The same with its start symbol wrapped. -/
def suffixedOuter : Grammar := ⟨"Start",suffixed.rules ++ [⟨"Start",[.nonterminal "S"]⟩],by decide +kernel⟩

private theorem wraps_suffixed : Wraps suffixed.rules [] suffixed suffixedOuter :=
  ⟨by decide,by decide,by decide,by decide,by decide⟩

/-- An identifier is parsed alike, but with a plus sign behind it only the wrapped grammar has a tree. -/
theorem parse_wrapped_suffixed :
    WrapsTree suffixedOuter (parse suffixed {} ⟨[.bare .identifier],.finished .origin⟩)
      (parse suffixedOuter {} ⟨[.bare .identifier],.finished .origin⟩) ∧
    ¬ WrapsTree suffixedOuter (parse suffixed {} ⟨[.bare .identifier,.bare .plus],.finished .origin⟩)
      (parse suffixedOuter {} ⟨[.bare .identifier,.bare .plus],.finished .origin⟩) := by
  have plain : parse suffixed {} ⟨[.bare .identifier],.finished .origin⟩ =
      .ok (.branch "S" [.branch "A" [.leaf (.bare .identifier)]]) := by cbv
  have plain' : parse suffixedOuter {} ⟨[.bare .identifier],.finished .origin⟩ =
      .ok (.branch "Start" [.branch "S" [.branch "A" [.leaf (.bare .identifier)]]]) := by cbv
  have rejected : parse suffixed {} ⟨[.bare .identifier,.bare .plus],.finished .origin⟩ =
      .error (.unexpected (.bare .plus) [] true) := by cbv
  have accepted : parse suffixedOuter {} ⟨[.bare .identifier,.bare .plus],.finished .origin⟩ =
      .ok (.branch "Start" [.branch "S" [.branch "A" [.branch "S" [.branch "A" [.leaf (.bare .identifier)]],
        .leaf (.bare .plus)]]]) := by cbv
  constructor
  · refine (parse_wrapped wraps_suffixed {} _ _ (by rw [plain]; simp) (by rw [plain']; simp)).1.mpr ⟨?_,?_⟩
    · rw [plain']
      rintro tree ⟨⟩
      decide
    · simp [plain']
  · rw [(parse_wrapped wraps_suffixed {} _ _ (by rw [rejected]; simp) (by rw [accepted]; simp)).1]
    rintro ⟨single,-⟩
    exact absurd (single _ accepted) (by decide)

end CFrontend.Parser
