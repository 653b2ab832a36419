import CFrontend.Parser.Basic
import CFrontend.Proofs.Recursion
import Mathlib.Logic.Relation

/-!
What the parser explores. `Step` says once what may take the place of a state before a token, and
`Reached` which states a sequence of tokens leads to. `Traversal` is a pass without its limit: the
states that wait and the trees that are complete, in order. They are exactly what the steps find
(`Traversal.spec`), so the last pass has exactly the trees of reached complete
states (`lastPass_spec`).
-/
namespace CFrontend.Parser
open Grammar (Cycle)
open Relation (ReflTransGen)

variable {grammar : Grammar} {table : Table} {current : Nat}

/-- What expanding a state before a token may put in its place: an alternative of the next symbol,
    the parent that goes on with the finished tree, or a turn through a cycle that starts with it. -/
inductive Step (grammar : Grammar) (current : Nat) : State → State → Prop
  | predict {state : State} {name : String} {tail : List Symbol} {production : Production}
      (waits : state.frame.rest = .nonterminal name :: tail) (fresh : state.isLooped name current = false)
      (alternative : production ∈ grammar.alternatives name) :
      Step grammar current state ⟨.predicted production current,state.frame :: state.ancestors⟩
  | close {state : State} {parent : Frame} {ancestors : List Frame}
      (finished : state.frame.rest = []) (below : state.ancestors = parent :: ancestors) :
      Step grammar current state ⟨parent.advance state.frame.tree,ancestors⟩
  | grow {state : State} {parent : Frame} {ancestors : List Frame} {chain : List Production} {last : Production}
      (finished : state.frame.rest = []) (below : state.ancestors = parent :: ancestors)
      (recorded : chain ++ [last] ∈ grammar.cycles state.frame.name)
      (allowed : state.mayGrow (chain ++ [last]) = true) :
      Step grammar current state
        ⟨(Frame.predicted last state.frame.origin).advance state.frame.tree,
          (chain.map (Frame.predicted · state.frame.origin)).reverse ++ state.ancestors⟩

/-- The state waits for a token of the kind. -/
def Waits (state : State) (kind : TokenKind) : Prop := ∃ tail, state.frame.rest = .terminal kind :: tail

/-- The state derives all tokens so far with the tree. -/
def Completes (state : State) (tree : Tree) : Prop :=
  state.frame.rest = [] ∧ state.ancestors = [] ∧ state.frame.tree = tree

/-! ### One expansion -/

/-- The frames above a state matter by where they were predicted and for which nonterminal. -/
theorem any_takeWhile_congr {frames others : List Frame}
    (keys : frames.map (fun frame => (frame.origin,frame.name)) = others.map fun frame => (frame.origin,frame.name))
    (origin : Nat) (test : String → Bool) :
    ((frames.takeWhile fun frame => frame.origin == origin).any fun frame => test frame.name) =
      (others.takeWhile fun frame => frame.origin == origin).any fun frame => test frame.name := by
  have own : ∀ list : List Frame, ((list.takeWhile fun frame => frame.origin == origin).any fun frame => test frame.name) =
      ((list.map fun frame => (frame.origin,frame.name)).takeWhile fun key => key.1 == origin).any fun key => test key.2 := by
    intro list
    rw [List.takeWhile_map,List.any_map]
    rfl
  rw [own,own,keys]

theorem isLooped_congr {state other : State} (keys : (state.frame :: state.ancestors).map (fun frame => (frame.origin,frame.name)) =
      (other.frame :: other.ancestors).map fun frame => (frame.origin,frame.name)) (name : String) (current : Nat) :
    state.isLooped name current = other.isLooped name current :=
  any_takeWhile_congr keys current fun found => found == name

theorem mayGrow_congr {state other : State} (origin : state.frame.origin = other.frame.origin)
    (keys : state.ancestors.map (fun frame => (frame.origin,frame.name)) =
      other.ancestors.map fun frame => (frame.origin,frame.name)) {cycle cycle' : Cycle}
    (rules : cycle.map (·.rule) = cycle'.map (·.rule)) : state.mayGrow cycle = other.mayGrow cycle' := by
  have names : ∀ name : String, (cycle.any fun step => step.rule.lhs == name) = cycle'.any fun step => step.rule.lhs == name := by
    intro name
    have own : ∀ list : Cycle, (list.any fun step => step.rule.lhs == name) = (list.map (·.rule)).any fun rule => rule.lhs == name := by
      intro list
      rw [List.any_map]
      rfl
    rw [own,own,rules]
  rw [State.mayGrow,State.mayGrow,origin]
  simp only [names]
  rw [any_takeWhile_congr keys other.frame.origin fun name => cycle'.any fun step => step.rule.lhs == name]

theorem growInto_append (tree : Tree) (origin : Nat) (chain : List Production) (last : Production)
    (frames : List Frame) :
    State.growInto tree origin (chain ++ [last]) frames =
      some ⟨(Frame.predicted last origin).advance tree,(chain.map (Frame.predicted · origin)).reverse ++ frames⟩ := by
  induction chain generalizing frames with
  | nil => rfl
  | cons production rest ih =>
    cases rest with
    | nil => simp [State.growInto]
    | cons second others =>
      rw [List.cons_append,List.cons_append,State.growInto,← List.cons_append,ih]
      · simp
      · simp

/-- Growing a cycle puts its last production around the node and predicts the others on the way there. -/
theorem grow_eq_some_iff (state grown : State) (cycle : Cycle) :
    state.grow cycle = some grown ↔ ∃ chain last, cycle = chain ++ [last] ∧
      grown = ⟨(Frame.predicted last state.frame.origin).advance state.frame.tree,
        (chain.map (Frame.predicted · state.frame.origin)).reverse ++ state.ancestors⟩ := by
  rcases List.eq_nil_or_concat cycle with rfl | ⟨chain,last,rfl⟩
  · simp [State.grow,State.growInto]
  · rw [List.concat_eq_append,State.grow,growInto_append]
    constructor
    · intro made
      exact ⟨chain,last,rfl,(Option.some.inj made).symm⟩
    · rintro ⟨chain',last',same,rfl⟩
      obtain ⟨rfl,rfl⟩ := List.append_inj' same rfl |>.imp_right (by simpa using ·)
      rfl

/-- A state waits exactly where its next symbol is a terminal. -/
theorem expand_waiting_iff (table : Table) (state : State) (kind : TokenKind) :
    expand table current state = .waiting kind ↔ Waits state kind := by
  unfold expand Waits
  split
  · split <;> simp_all
  · simp_all
  · split <;> simp_all

/-- A state completes a tree exactly where it is finished and has no ancestor. -/
theorem expand_complete_iff (table : Table) (state : State) (tree : Tree) :
    expand table current state = .complete tree ↔ Completes state tree := by
  unfold expand Completes
  split
  · split <;> simp_all
  · simp_all
  · split <;> simp_all

/-- A nonterminal is predicted with all of its alternatives, unless it stands among the frames of the same place already. -/
theorem expand_nonterminal (grammar : Grammar) {state : State} {name : String} {tail : List Symbol}
    (waits : state.frame.rest = .nonterminal name :: tail) :
    expand (Table.of grammar) current state = if state.isLooped name current then .into [] 0
      else .into (state.predict (grammar.alternatives name) current) (grammar.alternatives name).length := by
  simp [expand,waits,Table.of,State.predict]

/-- The states that growing the cycles of a finished frame gives. -/
def State.grown (grammar : Grammar) (state : State) : List State :=
  ((grammar.cycles state.frame.name).filter state.mayGrow).filterMap state.grow

theorem mem_grown_iff (grammar : Grammar) (state next : State) :
    next ∈ state.grown grammar ↔ ∃ chain last, chain ++ [last] ∈ grammar.cycles state.frame.name ∧
      state.mayGrow (chain ++ [last]) = true ∧
      next = ⟨(Frame.predicted last state.frame.origin).advance state.frame.tree,
        (chain.map (Frame.predicted · state.frame.origin)).reverse ++ state.ancestors⟩ := by
  rw [State.grown,List.mem_filterMap]
  constructor
  · rintro ⟨cycle,member,made⟩
    obtain ⟨chain,last,rfl,same⟩ := (grow_eq_some_iff state next cycle).mp made
    obtain ⟨recorded,allowed⟩ := List.mem_filter.mp member
    exact ⟨chain,last,recorded,allowed,same⟩
  · rintro ⟨chain,last,recorded,allowed,same⟩
    exact ⟨chain ++ [last],List.mem_filter.mpr ⟨recorded,allowed⟩,
      (grow_eq_some_iff state next _).mpr ⟨chain,last,rfl,same⟩⟩

theorem expand_finished (grammar : Grammar) (current : Nat) {state : State} {parent : Frame} {ancestors : List Frame}
    (finished : state.frame.rest = []) (below : state.ancestors = parent :: ancestors) :
    ∃ created, expand (Table.of grammar) current state =
      .into (⟨parent.advance state.frame.tree,ancestors⟩ :: state.grown grammar) created := by
  have indexed : (Table.of grammar).index.get state.frame.name = grammar.cycles state.frame.name :=
    Grammar.recursionIndex_get grammar state.frame.name
  exact ⟨_,by simp only [expand,finished,below,State.close,indexed]; rfl⟩

/-- A finished node goes on in its parent or in a cycle around it. -/
theorem mem_close_iff {state : State} {parent : Frame} {ancestors : List Frame} (finished : state.frame.rest = [])
    (below : state.ancestors = parent :: ancestors) (next : State) :
    next ∈ ⟨parent.advance state.frame.tree,ancestors⟩ :: state.grown grammar ↔ Step grammar current state next := by
  rw [List.mem_cons,mem_grown_iff]
  constructor
  · rintro (rfl | ⟨chain,last,recorded,allowed,rfl⟩)
    · exact .close finished below
    · exact .grow finished below recorded allowed
  · intro step
    cases step with
    | predict waits => simp [finished] at waits
    | close _ other =>
      rw [below,List.cons.injEq] at other
      obtain ⟨rfl,rfl⟩ := other
      exact .inl rfl
    | grow _ _ recorded allowed => exact .inr ⟨_,_,recorded,allowed,rfl⟩

private theorem mem_predict_iff {state : State} {name : String} {tail : List Symbol}
    (waits : state.frame.rest = .nonterminal name :: tail) (next : State) :
    state.isLooped name current = false ∧ next ∈ state.predict (grammar.alternatives name) current ↔
      Step grammar current state next := by
  simp only [State.predict,List.mem_map]
  constructor
  · rintro ⟨fresh,production,alternative,rfl⟩
    exact .predict waits fresh alternative
  · intro step
    cases step with
    | predict other fresh alternative =>
      rw [waits,List.cons.injEq,Symbol.nonterminal.injEq] at other
      obtain ⟨rfl,rfl⟩ := other
      exact ⟨fresh,_,alternative,rfl⟩
    | close finished => simp [finished] at waits
    | grow finished => simp [finished] at waits

/-- What takes the place of a state: behind a finished child its parent goes on and its cycles are grown, and a nonterminal
    is predicted unless that would loop. -/
theorem expand_into_cases {state : State} {states : List State} {count : Nat}
    (expanded : expand (Table.of grammar) current state = .into states count) :
    (∃ parent ancestors, state.frame.rest = [] ∧ state.ancestors = parent :: ancestors ∧
      states = ⟨parent.advance state.frame.tree,ancestors⟩ :: state.grown grammar) ∨
    ∃ name tail, state.frame.rest = .nonterminal name :: tail ∧
      ((state.isLooped name current = true ∧ states = []) ∨
        (state.isLooped name current = false ∧ states = state.predict (grammar.alternatives name) current)) := by
  cases rest : state.frame.rest with
  | nil =>
    cases below : state.ancestors with
    | nil => simp [expand,rest,below] at expanded
    | cons parent ancestors =>
      obtain ⟨created,own⟩ := expand_finished grammar current rest below
      rw [expanded,Expansion.into.injEq] at own
      exact .inl ⟨parent,ancestors,rfl,rfl,own.1⟩
  | cons symbol tail =>
    cases symbol with
    | terminal kind => simp [expand,rest] at expanded
    | nonterminal name =>
      rw [expand_nonterminal grammar rest] at expanded
      refine .inr ⟨name,tail,rfl,?_⟩
      split at expanded
      · rename_i looped
        exact .inl ⟨looped,(Expansion.into.inj expanded).1.symm⟩
      · rename_i fresh
        exact .inr ⟨by simpa using fresh,(Expansion.into.inj expanded).1.symm⟩

/-- The states that take the place of a state are those of the steps from it. -/
theorem mem_expand_iff {state : State} {states : List State} {count : Nat}
    (expanded : expand (Table.of grammar) current state = .into states count) (next : State) :
    next ∈ states ↔ Step grammar current state next := by
  rcases expand_into_cases expanded with
    ⟨parent,ancestors,finished,below,rfl⟩ | ⟨name,tail,waits,⟨looped,rfl⟩ | ⟨fresh,rfl⟩⟩
  · exact mem_close_iff finished below next
  · simp [← mem_predict_iff waits,looped]
  · simp [← mem_predict_iff waits,fresh]

theorem expand_none {table : Table} {state : State} {states : List State}
    (expanded : expand table current state = .into states 0) : states = [] := by
  unfold expand at expanded
  split at expanded
  · split at expanded
    · simp at expanded
    · simp [State.close] at expanded
  · simp at expanded
  · split at expanded
    · simp at expanded; exact expanded
    · simp only [Expansion.into.injEq] at expanded
      exact List.length_eq_zero_iff.mp expanded.2 ▸ expanded.1.symm

private theorem not_step_of_waits {state next : State} {kind : TokenKind} (waits : Waits state kind) :
    ¬ Step grammar current state next := by
  obtain ⟨tail,rest⟩ := waits
  intro step
  cases step <;> simp_all

private theorem not_step_of_completes {state next : State} {tree : Tree} (complete : Completes state tree) :
    ¬ Step grammar current state next := by
  obtain ⟨finished,root,-⟩ := complete
  intro step
  cases step <;> simp_all

/-! ### A pass -/

/-- Some state that the steps reach from the given ones has the property. -/
def Finds (grammar : Grammar) (current : Nat) (stack : List State) (property : State → Prop) : Prop :=
  ∃ source ∈ stack, ∃ state, ReflTransGen (Step grammar current) source state ∧ property state

private theorem finds_append_iff (front back : List State) (property : State → Prop) :
    Finds grammar current (front ++ back) property ↔
      Finds grammar current front property ∨ Finds grammar current back property := by
  simp [Finds,or_and_right,exists_or]

private theorem finds_cons_iff (state : State) (stack : List State) (property : State → Prop) :
    Finds grammar current (state :: stack) property ↔
      Finds grammar current [state] property ∨ Finds grammar current stack property :=
  finds_append_iff [state] stack property

private theorem finds_stuck {state : State} (stuck : ∀ next, ¬ Step grammar current state next)
    (property : State → Prop) : Finds grammar current [state] property ↔ property state := by
  constructor
  · rintro ⟨source,member,found,path,holds⟩
    obtain rfl := List.mem_singleton.mp member
    rcases path.cases_head with rfl | ⟨next,step,-⟩
    · exact holds
    · exact absurd step (stuck next)
  · intro holds
    exact ⟨state,by simp,state,.refl,holds⟩

/-- What a state without the property finds is what its steps find. -/
theorem finds_into {state : State} {states : List State} {property : State → Prop}
    (steps : ∀ next, next ∈ states ↔ Step grammar current state next) (lacks : ¬ property state) :
    Finds grammar current [state] property ↔ Finds grammar current states property := by
  constructor
  · rintro ⟨source,member,found,path,holds⟩
    obtain rfl := List.mem_singleton.mp member
    rcases path.cases_head with rfl | ⟨next,step,rest⟩
    · exact absurd holds lacks
    · exact ⟨next,(steps next).mpr step,found,rest,holds⟩
  · rintro ⟨next,member,found,path,holds⟩
    exact ⟨state,by simp,found,.head ((steps next).mp member) path,holds⟩

/-- Expanding the stack leaves the pending states and the complete trees, in order. -/
inductive Traversal (table : Table) (current : Nat) : List State → List (TokenKind × State) → List Tree → Prop
  | nil : Traversal table current [] [] []
  | wait {state : State} {stack : List State} {kind : TokenKind} {pending : List (TokenKind × State)}
      {complete : List Tree} (waits : expand table current state = .waiting kind)
      (rest : Traversal table current stack pending complete) :
      Traversal table current (state :: stack) ((kind,state) :: pending) complete
  | finish {state : State} {stack : List State} {tree : Tree} {pending : List (TokenKind × State)}
      {complete : List Tree} (done : expand table current state = .complete tree)
      (rest : Traversal table current stack pending complete) :
      Traversal table current (state :: stack) pending (tree :: complete)
  | into {state : State} {stack states : List State} {count : Nat} {pending : List (TokenKind × State)}
      {complete : List Tree} (replaced : expand table current state = .into states count)
      (rest : Traversal table current (states ++ stack) pending complete) :
      Traversal table current (state :: stack) pending complete

/-- A pass that stays within its limit traverses the stack. -/
theorem expandAll_traversal {limit created waiting : Nat} {pending : List (TokenKind × State)} {complete : List Tree}
    {stack : List State} {result : Pass}
    (expanded : expandAll table limit current created waiting pending complete stack = some result) :
    ∃ more trees, Traversal table current stack more trees ∧ result.pending = pending.reverse ++ more ∧
      result.complete = complete.reverse ++ trees := by
  fun_induction expandAll table limit current created waiting pending complete stack with
  | case1 created waiting pending complete =>
    obtain rfl := Option.some.inj expanded
    exact ⟨[],[],.nil,by simp,by simp⟩
  | case2 => simp at expanded
  | case3 created waiting pending complete state stack within kind waits ih =>
    obtain ⟨more,trees,rest,waiting,found⟩ := ih expanded
    exact ⟨(kind,state) :: more,trees,.wait waits rest,by simp [waiting],found⟩
  | case4 created waiting pending complete state stack within tree done ih =>
    obtain ⟨more,trees,rest,waiting,found⟩ := ih expanded
    exact ⟨more,tree :: trees,.finish done rest,waiting,by simp [found]⟩
  | case5 created waiting pending complete state stack within states replaced ih =>
    obtain ⟨more,trees,rest,results⟩ := ih expanded
    obtain rfl := expand_none replaced
    exact ⟨more,trees,.into replaced rest,results⟩
  | case6 created waiting pending complete state stack within states count replaced some ih =>
    obtain ⟨more,trees,rest,results⟩ := ih expanded
    exact ⟨more,trees,.into replaced rest,results⟩

theorem pass_traversal {limit : Nat} {live : List State} {result : Pass}
    (passed : pass table limit current live = some result) :
    Traversal table current live result.pending result.complete := by
  obtain ⟨more,trees,traversal,waiting,found⟩ := expandAll_traversal passed
  rw [waiting,found]
  exact traversal

/-- The results of a traversal are what the steps find from the stack. -/
theorem Traversal.spec {stack : List State} {pending : List (TokenKind × State)} {complete : List Tree}
    (traversal : Traversal (Table.of grammar) current stack pending complete) :
    (∀ kind state, (kind,state) ∈ pending ↔ Finds grammar current stack fun found => found = state ∧ Waits found kind) ∧
    (∀ tree, tree ∈ complete ↔ Finds grammar current stack fun found => Completes found tree) := by
  induction traversal with
  | nil => simp [Finds]
  | @wait state stack kind pending complete waits rest ih =>
    have own := (expand_waiting_iff _ state kind).mp waits
    have stuck : ∀ next, ¬ Step grammar current state next := fun next => not_step_of_waits own
    constructor
    · intro other found
      have same : (other,found) = (kind,state) ↔ state = found ∧ Waits state other := by
        rw [Prod.mk.injEq]
        constructor
        · rintro ⟨rfl,rfl⟩; exact ⟨rfl,own⟩
        · rintro ⟨rfl,tail,rest⟩
          obtain ⟨tail',rest'⟩ := own
          simp_all
      rw [List.mem_cons,same,ih.1,finds_cons_iff,finds_stuck stuck]
    · intro tree
      have never : ¬ Completes state tree := by
        obtain ⟨tail,rest⟩ := own
        simp [Completes,rest]
      rw [ih.2,finds_cons_iff,finds_stuck stuck,or_iff_right never]
  | @finish state stack tree pending complete done rest ih =>
    have own := (expand_complete_iff _ state tree).mp done
    have stuck : ∀ next, ¬ Step grammar current state next := fun next => not_step_of_completes own
    constructor
    · intro kind found
      have never : ¬ (state = found ∧ Waits state kind) := by
        rintro ⟨-,tail,rest⟩
        simp [own.1] at rest
      rw [ih.1,finds_cons_iff,finds_stuck stuck,or_iff_right never]
    · intro other
      have same : other = tree ↔ Completes state other := by
        obtain ⟨finished,root,rfl⟩ := own
        simp [Completes,finished,root,eq_comm]
      rw [List.mem_cons,same,ih.2,finds_cons_iff,finds_stuck stuck]
  | @into state stack states count pending complete replaced rest ih =>
    have steps := mem_expand_iff replaced
    have notWaiting : ∀ kind, ¬ Waits state kind := fun kind waits => by
      simp [(expand_waiting_iff _ state kind).mpr waits] at replaced
    have notComplete : ∀ tree, ¬ Completes state tree := fun tree done => by
      simp [(expand_complete_iff _ state tree).mpr done] at replaced
    constructor
    · intro kind found
      rw [ih.1,finds_cons_iff,finds_append_iff,
        finds_into steps (fun both => notWaiting kind both.2)]
    · intro tree
      rw [ih.2,finds_cons_iff,finds_append_iff,
        finds_into steps (notComplete tree)]

/-- A pass finds the states that wait and are led to from its live states. -/
theorem mem_pending_iff {limit : Nat} {live : List State} {result : Pass}
    (passed : pass (Table.of grammar) limit current live = some result) (kind : TokenKind) (state : State) :
    (kind,state) ∈ result.pending ↔
      Waits state kind ∧ ∃ source ∈ live, ReflTransGen (Step grammar current) source state := by
  rw [(pass_traversal passed).spec.1 kind state]
  constructor
  · rintro ⟨source,member,found,path,rfl,waits⟩
    exact ⟨waits,source,member,path⟩
  · rintro ⟨waits,source,member,path⟩
    exact ⟨source,member,state,path,rfl,waits⟩

/-- A pass finds the trees that are completed on the way from its live states. -/
theorem mem_complete_iff {limit : Nat} {live : List State} {result : Pass}
    (passed : pass (Table.of grammar) limit current live = some result) (tree : Tree) :
    tree ∈ result.complete ↔
      ∃ state, Completes state tree ∧ ∃ source ∈ live, ReflTransGen (Step grammar current) source state := by
  rw [(pass_traversal passed).spec.2 tree]
  constructor
  · rintro ⟨source,member,state,path,done⟩
    exact ⟨state,done,source,member,path⟩
  · rintro ⟨state,done,source,member,path⟩
    exact ⟨source,member,state,path,done⟩

/-! ### Reached states -/

/-- The states that the first tokens of a sequence lead to. -/
inductive Reached (grammar : Grammar) (tokens : List Token) : Nat → State → Prop
  | start {production : Production} (alternative : production ∈ grammar.alternatives grammar.start) :
      Reached grammar tokens 0 (.root production)
  | step {count : Nat} {state next : State} (reached : Reached grammar tokens count state)
      (taken : Step grammar count state next) : Reached grammar tokens count next
  | scan {count : Nat} {state : State} {token : Token} (reached : Reached grammar tokens count state)
      (waits : Waits state token.kind) (here : tokens[count]? = some token) :
      Reached grammar tokens (count + 1) (state.advance (.leaf token))

/-- The tree is that of a complete state that all tokens lead to. -/
def Found (grammar : Grammar) (tokens : List Token) (tree : Tree) : Prop :=
  ∃ state, Reached grammar tokens tokens.length state ∧ Completes state tree

/-- The live states before a token are where everything reached there comes from. -/
def Sources (grammar : Grammar) (tokens : List Token) (count : Nat) (live : List State) : Prop :=
  ∀ state, Reached grammar tokens count state ↔
    ∃ source ∈ live, ReflTransGen (Step grammar count) source state

variable {tokens : List Token}

theorem Reached.steps {count : Nat} {state next : State} (reached : Reached grammar tokens count state)
    (path : ReflTransGen (Step grammar count) state next) : Reached grammar tokens count next := by
  induction path with
  | refl => exact reached
  | tail _ step ih => exact ih.step step

/-- A reached state comes by steps from the start or from a state that accepted the last token. -/
theorem Reached.source {count : Nat} {state : State} (reached : Reached grammar tokens count state) :
    (count = 0 ∧ ∃ source ∈ initial grammar, ReflTransGen (Step grammar count) source state) ∨
    ∃ before token waiting, count = before + 1 ∧ tokens[before]? = some token ∧
      Reached grammar tokens before waiting ∧ Waits waiting token.kind ∧
        ReflTransGen (Step grammar count) (waiting.advance (.leaf token)) state := by
  induction reached with
  | start alternative => exact .inl ⟨rfl,_,List.mem_map_of_mem alternative,.refl⟩
  | step reached taken ih =>
    rcases ih with ⟨first,source,member,path⟩ | ⟨before,token,waiting,next,here,earlier,waits,path⟩
    · exact .inl ⟨first,source,member,path.tail taken⟩
    · exact .inr ⟨before,token,waiting,next,here,earlier,waits,path.tail taken⟩
  | scan reached waits here => exact .inr ⟨_,_,_,rfl,here,reached,waits,.refl⟩

theorem sources_initial (grammar : Grammar) (tokens : List Token) : Sources grammar tokens 0 (initial grammar) := by
  intro state
  constructor
  · intro reached
    rcases reached.source with ⟨-,found⟩ | ⟨before,token,waiting,impossible,-⟩
    · exact found
    · omega
  · rintro ⟨source,member,path⟩
    obtain ⟨production,alternative,rfl⟩ := List.mem_map.mp member
    exact (Reached.start alternative).steps path

/-- A token is taken by the states that wait for its kind. -/
theorem mem_scan_iff (token : Token) (pending : List (TokenKind × State)) (state : State) :
    state ∈ scan token pending ↔
      ∃ waiting, (token.kind,waiting) ∈ pending ∧ state = waiting.advance (.leaf token) := by
  simp only [scan,List.mem_map,List.mem_filter,Prod.exists,beq_iff_eq]
  constructor
  · rintro ⟨kind,waiting,⟨member,rfl⟩,rfl⟩; exact ⟨waiting,member,rfl⟩
  · rintro ⟨waiting,member,rfl⟩; exact ⟨_,waiting,⟨member,rfl⟩,rfl⟩

/-- The states that go on with a token are the sources of the next pass. -/
theorem sources_scan {count limit : Nat} {live : List State} {result : Pass} {token : Token}
    (sources : Sources grammar tokens count live) (passed : pass (Table.of grammar) limit count live = some result)
    (here : tokens[count]? = some token) : Sources grammar tokens (count + 1) (scan token result.pending) := by
  have waiting_iff : ∀ state, (token.kind,state) ∈ result.pending ↔
      Waits state token.kind ∧ Reached grammar tokens count state := by
    intro state
    rw [mem_pending_iff passed,sources state]
  intro state
  constructor
  · intro reached
    rcases reached.source with ⟨impossible,-⟩ | ⟨before,other,waiting,same,there,earlier,waits,path⟩
    · omega
    · obtain rfl : count = before := by omega
      obtain rfl : token = other := Option.some.inj (here.symm.trans there)
      exact ⟨_,(mem_scan_iff token _ _).mpr ⟨waiting,(waiting_iff waiting).mpr ⟨waits,earlier⟩,rfl⟩,path⟩
  · rintro ⟨source,member,path⟩
    obtain ⟨waiting,pending,rfl⟩ := (mem_scan_iff token _ _).mp member
    obtain ⟨waits,earlier⟩ := (waiting_iff waiting).mp pending
    exact (earlier.scan waits here).steps path

/-! ### The last pass -/

theorem next_token {count : Nat} {token : Token} {rest : List Token} (remaining : tokens.drop count = token :: rest) :
    tokens[count]? = some token ∧ tokens.drop (count + 1) = rest ∧ count + 1 ≤ tokens.length := by
  have here : tokens[count]? = some token := by
    rw [← List.head?_drop,remaining]; rfl
  refine ⟨here,?_,(List.getElem?_eq_some_iff.mp here).1⟩
  rw [← List.tail_drop,remaining]; rfl

/-- The last pass over a sequence of tokens, or what ends the parse before it. -/
def lastPass (table : Table) (limit : Nat) (pos : Position) :
    (current : Nat) → (live : List State) → List Token → Except ParseError Pass
  | current, live, [] => match pass table limit current live with
    | none => .error (.stateLimit limit pos)
    | some result => .ok result
  | current, live, token :: rest => match pass table limit current live with
    | none => .error (.stateLimit limit token.pos)
    | some result => match scan token result.pending with
      | [] => .error (.unexpected token (sortedKinds (result.pending.map (·.1))) !result.complete.isEmpty)
      | survivors => lastPass table limit pos (current + 1) survivors rest

/-- A run is its passes up to the last one, and settles what that one has found. -/
theorem run_eq_lastPass (table : Table) (options : Options) (pos : Position) (current : Nat) (live : List State)
    (tokens : List Token) :
    run table options (.finished pos) current live tokens =
      (lastPass table options.maxStates pos current live tokens).bind (settle options.ambiguity pos) := by
  induction tokens generalizing current live with
  | nil =>
    simp only [run,lastPass]
    cases pass table options.maxStates current live <;> rfl
  | cons token rest ih =>
    simp only [run,lastPass]
    cases pass table options.maxStates current live with
    | none => rfl
    | some result =>
      cases scanned : scan token result.pending with
      | nil => simp only [scanned]; rfl
      | cons survivor others => simp only [scanned]; exact ih (current + 1) (survivor :: others)

/-- Only a rejected token or the limit keeps a parse from its last pass. -/
theorem lastPass_cases (table : Table) (limit : Nat) (pos : Position) (tokens : List Token) (current : Nat)
    (live : List State) :
    (∃ result, lastPass table limit pos current live tokens = .ok result) ∨
    (∃ token expected canEnd, lastPass table limit pos current live tokens =
      .error (.unexpected token expected canEnd)) ∨
    ∃ limit' place, lastPass table limit pos current live tokens = .error (.stateLimit limit' place) := by
  induction tokens generalizing current live with
  | nil =>
    simp only [lastPass]
    cases pass table limit current live with
    | none => exact .inr (.inr ⟨_,_,rfl⟩)
    | some result => exact .inl ⟨_,rfl⟩
  | cons token rest ih =>
    simp only [lastPass]
    cases pass table limit current live with
    | none => exact .inr (.inr ⟨_,_,rfl⟩)
    | some result =>
      cases scanned : scan token result.pending with
      | nil => simp only [scanned]; exact .inr (.inl ⟨_,_,_,rfl⟩)
      | cons survivor others => simp only [scanned]; exact ih (current + 1) (survivor :: others)

/-- What the live states of a parse have before it gets to its last pass, when those that go on with a token keep it. -/
theorem lastPass_kept {kept : Nat → List State → Prop} {table : Table} {limit : Nat} {pos : Position}
    (scanned : ∀ {count live result token}, kept count live → pass table limit count live = some result →
      tokens[count]? = some token → scan token result.pending ≠ [] → kept (count + 1) (scan token result.pending))
    (rest : List Token) (count : Nat) (live : List State) (start : kept count live) (remaining : tokens.drop count = rest)
    {result : Pass} (ended : lastPass table limit pos count live rest = .ok result) :
    ∃ last final, kept last final ∧ tokens.length ≤ last ∧ pass table limit last final = some result := by
  induction rest generalizing count live with
  | nil =>
    simp only [lastPass] at ended
    split at ended
    · simp at ended
    · rename_i passed
      obtain rfl := Except.ok.inj ended
      exact ⟨count,live,start,List.drop_eq_nil_iff.mp remaining,passed⟩
  | cons token rest ih =>
    obtain ⟨here,after,-⟩ := next_token remaining
    simp only [lastPass] at ended
    split at ended
    · simp at ended
    · rename_i passed
      split at ended
      · simp at ended
      · rename_i survivors
        exact ih (count + 1) _ (scanned start passed here survivors) after ended

/-- What a last pass says about a sequence of tokens: its trees are those found, and a rejected token
    means that there are none. -/
def LastPassCorrect (grammar : Grammar) (tokens : List Token) : Except ParseError Pass → Prop
  | .ok result => ∀ tree, tree ∈ result.complete ↔ Found grammar tokens tree
  | .error (.unexpected _ _ _) => ∀ tree, ¬ Found grammar tokens tree
  | .error _ => True

private theorem not_reached_of_sources_nil {count later : Nat} (sources : Sources grammar tokens count [])
    (after : count ≤ later) (state : State) : ¬ Reached grammar tokens later state := by
  induction after generalizing state with
  | refl => simpa using (sources state).mp
  | @step later above ih =>
    intro reached
    rcases reached.source with ⟨impossible,-⟩ | ⟨before,token,waiting,same,-,earlier,-⟩
    · omega
    · obtain rfl : later = before := by omega
      exact ih waiting earlier

private theorem lastPass_correct (limit : Nat) (pos : Position) (rest : List Token) (count : Nat) (live : List State)
    (sources : Sources grammar tokens count live) (remaining : tokens.drop count = rest)
    (within : count ≤ tokens.length) :
    LastPassCorrect grammar tokens (lastPass (Table.of grammar) limit pos count live rest) := by
  induction rest generalizing count live with
  | nil =>
    have whole : count = tokens.length := by
      have := List.drop_eq_nil_iff.mp remaining
      omega
    simp only [lastPass]
    split
    · trivial
    · rename_i result passed
      intro tree
      rw [mem_complete_iff passed,Found]
      constructor
      · rintro ⟨state,done,found⟩; exact ⟨state,whole ▸ (sources state).mpr found,done⟩
      · rintro ⟨state,reached,done⟩; exact ⟨state,done,(sources state).mp (whole.symm ▸ reached)⟩
  | cons token rest ih =>
    obtain ⟨here,after,next⟩ := next_token remaining
    simp only [lastPass]
    split
    · trivial
    · rename_i result passed
      have scanned := sources_scan sources passed here
      split
      · rename_i rejected
        rw [rejected] at scanned
        rintro tree ⟨state,reached,-⟩
        exact not_reached_of_sources_nil scanned next state reached
      · exact ih (count + 1) _ scanned after next

/-- The last pass over all tokens has exactly the trees that they lead to. -/
theorem lastPass_spec (grammar : Grammar) (limit : Nat) (pos : Position) (tokens : List Token) :
    LastPassCorrect grammar tokens (lastPass (Table.of grammar) limit pos 0 (initial grammar) tokens) :=
  lastPass_correct limit pos tokens 0 (initial grammar) (sources_initial grammar tokens) rfl (Nat.zero_le _)

end CFrontend.Parser
