import CFrontend.Proofs.Completeness
import CFrontend.Proofs.Unrepeated

/-!
The order of the trees. A tree has a leftmost derivation: the indices of the rules of its branches, each branch before those
below it. So far as it is settled a state has one as well, and without left recursion each step goes on with it
(`Step.leftmost_extends`): a prediction adds the index of its rule, and nothing else adds any. Since alternatives are
predicted in order, the derivations of live states part from one another in the order of the states (`Ordered.expand`). A pass
keeps this to its end (`Traversal.ordered`), so the trees come in the order of their leftmost derivations.
-/
namespace CFrontend
open Relation (ReflTransGen TransGen)

namespace Tree

mutual

/-- The leftmost derivation of a tree: the index of the rule that each branch spells, each branch before those below it. -/
def leftmost (rules : List Rule) : Tree → List Nat
  | .leaf _ => []
  | .branch name children => rules.idxOf ⟨name,children.map symbol⟩ :: forestLeftmost rules children

/-- The leftmost derivations of several trees, one behind the other. -/
def forestLeftmost (rules : List Rule) : List Tree → List Nat
  | [] => []
  | tree :: rest => leftmost rules tree ++ forestLeftmost rules rest

end

private theorem forestLeftmost_concat (rules : List Rule) (trees : List Tree) (tree : Tree) :
    forestLeftmost rules (trees ++ [tree]) = forestLeftmost rules trees ++ tree.leftmost rules := by
  induction trees with
  | nil => simp [forestLeftmost]
  | cons first rest ih => simp [forestLeftmost,ih]

end Tree

namespace Parser

variable {grammar : Grammar} {tokens : List Token} {count : Nat}

/-- The leftmost derivation of a frame so far: its production and what its children have. -/
def Frame.leftmost (rules : List Rule) (frame : Frame) : List Nat :=
  frame.production.index :: Tree.forestLeftmost rules frame.matched.reverse

/-- The leftmost derivation of a state so far, from its outermost frame to the innermost one. -/
def State.leftmost (rules : List Rule) (state : State) : List Nat :=
  (state.frame :: state.ancestors).reverse.flatMap (Frame.leftmost rules)

/-! ### One step -/

private theorem leftmost_frame_advance (rules : List Rule) (frame : Frame) (tree : Tree) :
    (frame.advance tree).leftmost rules = frame.leftmost rules ++ tree.leftmost rules := by
  simp [Frame.leftmost,Frame.advance,Tree.forestLeftmost_concat]

private theorem leftmost_advance (rules : List Rule) (state : State) (tree : Tree) :
    (state.advance tree).leftmost rules = state.leftmost rules ++ tree.leftmost rules := by
  simp [State.leftmost,State.advance,leftmost_frame_advance]

private theorem leftmost_predicted (rules : List Rule) (production : Production) (state : State) :
    (⟨.predicted production count,state.frame :: state.ancestors⟩ : State).leftmost rules =
      state.leftmost rules ++ [production.index] := by
  simp [State.leftmost,Frame.leftmost,Frame.predicted,Tree.forestLeftmost]

/-- A finished frame has the derivation of its tree, because the tree spells the rule of its production. -/
theorem Frame.Valid.leftmost_tree (once : grammar.rules.Nodup) {frame : Frame} (valid : frame.Valid grammar)
    (finished : frame.rest = []) : frame.tree.leftmost grammar.rules = frame.leftmost grammar.rules := by
  have spelled : (⟨frame.name,frame.matched.reverse.map Tree.symbol⟩ : Rule) = frame.production.rule := by
    rw [List.map_reverse,← valid.symbols finished]
    rfl
  obtain ⟨inside,here⟩ := List.getElem?_eq_some_iff.mp
    ((Grammar.mem_alternatives_iff grammar frame.name frame.production).mp valid.alternative).2
  rw [Frame.tree,Tree.leftmost,spelled,← here,once.idxOf_getElem]
  rfl

private theorem Completes.leftmost (once : grammar.rules.Nodup) {state : State} {tree : Tree}
    (done : Completes state tree) (reached : Reached grammar tokens count state) :
    tree.leftmost grammar.rules = state.leftmost grammar.rules := by
  obtain ⟨finished,alone,rfl⟩ := done
  rw [reached.valid.leftmost_tree once finished]
  simp [State.leftmost,alone]

/-- Without left recursion a step goes on with the leftmost derivation. -/
theorem Step.leftmost_extends (once : grammar.rules.Nodup) (straight : ∀ name, grammar.cycles name = [])
    {state next : State} (reached : Reached grammar tokens count state) (taken : Step grammar count state next) :
    state.leftmost grammar.rules <+: next.leftmost grammar.rules := by
  cases taken with
  | @predict name tail production waits fresh alternative =>
    rw [leftmost_predicted]
    exact List.prefix_append _ _
  | @close parent ancestors finished below =>
    have same : state.leftmost grammar.rules =
        (⟨parent.advance state.frame.tree,ancestors⟩ : State).leftmost grammar.rules := by
      simp [State.leftmost,below,leftmost_frame_advance,reached.valid.leftmost_tree once finished]
    exact same ▸ List.prefix_rfl
  | grow _ _ recorded => simp [straight] at recorded

private theorem leftmost_extends_of_path (once : grammar.rules.Nodup) (straight : ∀ name, grammar.cycles name = [])
    {source state : State} (reached : Reached grammar tokens count source)
    (path : ReflTransGen (Step grammar count) source state) :
    source.leftmost grammar.rules <+: state.leftmost grammar.rules := by
  induction path with
  | refl => exact List.prefix_rfl
  | tail front step ih => exact ih.trans (step.leftmost_extends once straight (reached.steps front))

/-! ### One pass -/

/-- The leftmost derivation of the first state parts from that of the second one, and comes before it. -/
def State.Precedes (rules : List Rule) (first second : State) : Prop :=
  PartsBelow (first.leftmost rules) (second.leftmost rules)

/-- Reached states in the order of their leftmost derivations. -/
structure Ordered (grammar : Grammar) (tokens : List Token) (count : Nat) (states : List State) : Prop where
  reached : ∀ state ∈ states, Reached grammar tokens count state
  pairwise : states.Pairwise (State.Precedes grammar.rules)

/-- The states that take the place of a state are in order, because the alternatives of a nonterminal are. -/
theorem pairwise_expand (straight : ∀ name, grammar.cycles name = []) {state : State} {states : List State}
    {created : Nat} (expanded : expand (Table.of grammar) count state = .into states created) :
    states.Pairwise (State.Precedes grammar.rules) := by
  rcases expand_into_cases expanded with ⟨parent,ancestors,-,-,rfl⟩ | ⟨name,-,-,⟨-,rfl⟩ | ⟨-,rfl⟩⟩
  · rw [State.grown,straight]
    exact List.pairwise_singleton _ _
  · exact List.Pairwise.nil
  · rw [State.predict,List.pairwise_map]
    refine (Grammar.pairwise_alternatives grammar name).imp fun {low high} below => ?_
    rw [State.Precedes,leftmost_predicted,leftmost_predicted]
    exact ⟨state.leftmost grammar.rules,low.index,high.index,below,List.prefix_rfl,List.prefix_rfl⟩

/-- States stay in order when the first one is expanded. -/
theorem Ordered.expand (once : grammar.rules.Nodup) (straight : ∀ name, grammar.cycles name = []) {state : State}
    {stack states : List State} {created : Nat} (ordered : Ordered grammar tokens count (state :: stack))
    (expanded : expand (Table.of grammar) count state = .into states created) :
    Ordered grammar tokens count (states ++ stack) := by
  obtain ⟨own,others⟩ := List.forall_mem_cons.mp ordered.reached
  obtain ⟨first,among⟩ := List.pairwise_cons.mp ordered.pairwise
  have steps : ∀ next ∈ states, Step grammar count state next := fun next => (mem_expand_iff expanded next).mp
  refine ⟨?_,List.pairwise_append.mpr ⟨pairwise_expand straight expanded,among,?_⟩⟩
  · intro next member
    rcases List.mem_append.mp member with inside | later
    · exact own.step (steps next inside)
    · exact others next later
  · intro next inside other later
    exact (first other later).extend ((steps next inside).leftmost_extends once straight own) List.prefix_rfl

/-- A pass over states in order leaves the pending states and the complete trees in order. -/
theorem Traversal.ordered (once : grammar.rules.Nodup) (straight : ∀ name, grammar.cycles name = [])
    {stack : List State} {pending : List (TokenKind × State)} {complete : List Tree}
    (traversal : Traversal (Table.of grammar) count stack pending complete)
    (ordered : Ordered grammar tokens count stack) :
    pending.Pairwise (fun first second => first.2.Precedes grammar.rules second.2) ∧
      complete.Pairwise fun first second => PartsBelow (first.leftmost grammar.rules) (second.leftmost grammar.rules) := by
  induction traversal with
  | nil => exact ⟨List.Pairwise.nil,List.Pairwise.nil⟩
  | @wait state stack kind pending complete waits rest ih =>
    obtain ⟨-,others⟩ := List.forall_mem_cons.mp ordered.reached
    obtain ⟨first,among⟩ := List.pairwise_cons.mp ordered.pairwise
    obtain ⟨later,trees⟩ := ih ⟨others,among⟩
    refine ⟨List.pairwise_cons.mpr ⟨fun entry member => ?_,later⟩,trees⟩
    obtain ⟨source,inside,found,path,rfl,-⟩ := (rest.spec.1 entry.1 entry.2).mp member
    exact (first source inside).extend List.prefix_rfl
      (leftmost_extends_of_path once straight (others source inside) path)
  | @finish state stack tree pending complete done rest ih =>
    obtain ⟨own,others⟩ := List.forall_mem_cons.mp ordered.reached
    obtain ⟨first,among⟩ := List.pairwise_cons.mp ordered.pairwise
    obtain ⟨later,trees⟩ := ih ⟨others,among⟩
    refine ⟨later,List.pairwise_cons.mpr ⟨fun other member => ?_,trees⟩⟩
    obtain ⟨source,inside,found,path,done'⟩ := (rest.spec.2 other).mp member
    have reached := others source inside
    rw [((expand_complete_iff _ state tree).mp done).leftmost once own,done'.leftmost once (reached.steps path)]
    exact (first source inside).extend List.prefix_rfl (leftmost_extends_of_path once straight reached path)
  | into replaced rest ih => exact ih (ordered.expand once straight replaced)

/-- The states that go on with a token keep the order of the pending ones. -/
theorem pairwise_scan {pending : List (TokenKind × State)}
    (ordered : pending.Pairwise fun first second => first.2.Precedes grammar.rules second.2) (token : Token) :
    (scan token pending).Pairwise (State.Precedes grammar.rules) := by
  rw [scan,List.pairwise_map]
  refine (ordered.filter _).imp fun {first second} before => ?_
  rw [State.Precedes,leftmost_advance,leftmost_advance]
  exact before.extend (List.prefix_append _ _) (List.prefix_append _ _)

/-! ### A parse -/

private theorem ordered_initial (grammar : Grammar) (tokens : List Token) : Ordered grammar tokens 0 (initial grammar) := by
  refine ⟨(scattered_initial grammar tokens).reached,?_⟩
  obtain ⟨production,only⟩ := grammar.alternatives_start
  rw [initial,only]
  exact List.pairwise_singleton _ _

/-- The last pass over states in order has its trees in order. -/
theorem lastPass_ordered (once : grammar.rules.Nodup) (straight : ∀ name, grammar.cycles name = []) {limit : Nat}
    {pos : Position} {result : Pass} (passed : lastPass (Table.of grammar) limit pos 0 (initial grammar) tokens = .ok result) :
    result.complete.Pairwise fun first second =>
      PartsBelow (first.leftmost grammar.rules) (second.leftmost grammar.rules) := by
  have scanned : ∀ {count live middle token}, Ordered grammar tokens count live →
      pass (Table.of grammar) limit count live = some middle → tokens[count]? = some token →
      scan token middle.pending ≠ [] → Ordered grammar tokens (count + 1) (scan token middle.pending) := by
    intro count live middle token ordered expanded here _
    have pending := ((pass_traversal expanded).ordered once straight ordered).1
    exact ⟨reached_scan ordered.reached expanded here,pairwise_scan pending token⟩
  obtain ⟨last,final,ordered,-,expanded⟩ := lastPass_kept scanned tokens 0 _ (ordered_initial grammar tokens) rfl passed
  exact ((pass_traversal expanded).ordered once straight ordered).2

/-- Trees over the same tokens whose leftmost derivations part do not agree, so none of them is dropped. -/
theorem distinct_of_ordered {rules : List Rule} {trees : List Tree} (leaves : ∀ tree ∈ trees, tree.tokens = tokens)
    (ordered : trees.Pairwise fun first second => PartsBelow (first.leftmost rules) (second.leftmost rules)) :
    distinct trees = trees := by
  have apart : trees.Pairwise fun first second => second.same first = false := by
    refine ordered.imp_of_mem fun {first second} member member' parts => ?_
    rw [← Bool.not_eq_true]
    intro agree
    have same := Tree.eq_of_same second first agree ((leaves second member').trans (leaves first member).symm)
    exact parts.ne (congrArg (Tree.leftmost rules) same.symm)
  rw [distinct_eq,foldl_keep_of_apart trees [] apart (by simp),List.append_nil,List.reverse_reverse]

private theorem chosen_first (trees : List Tree) : chosen .first trees = trees.head? := by
  rcases trees with _ | ⟨first,_ | ⟨second,others⟩⟩
  · rfl
  · rfl
  · rfl

/-- The head of a list in order is the least of its trees. -/
theorem head?_iff_least {rules : List Rule} {trees : List Tree}
    (ordered : trees.Pairwise fun first second => first.leftmost rules < second.leftmost rules) (first : Tree) :
    trees.head? = some first ↔
      first ∈ trees ∧ ∀ tree ∈ trees, tree ≠ first → first.leftmost rules < tree.leftmost rules := by
  cases trees with
  | nil => simp
  | cons head rest =>
    obtain ⟨below,-⟩ := List.pairwise_cons.mp ordered
    rw [List.head?_cons,Option.some.injEq]
    constructor
    · rintro rfl
      refine ⟨List.mem_cons_self,fun tree member differs => ?_⟩
      exact below tree ((List.mem_cons.mp member).resolve_left differs)
    · rintro ⟨member,least⟩
      by_contra differs
      have later := (List.mem_cons.mp member).resolve_left (Ne.symm differs)
      exact List.lt_asymm (least head List.mem_cons_self differs) (below first later)

/-- Where no nonterminal is its own left corner and the rules are distinct, the trees of an ambiguity are all derivations of
    the tokens in strictly ascending order of their leftmost derivations, and taking the first tree takes the derivation that is
    least in this order, if there is any derivation. -/
theorem parse_least_first (grammar : Grammar) (options : Options) (tokens : List Token) (pos : Position)
    (once : grammar.rules.Nodup) (nonrecursive : ∀ name, ¬ TransGen grammar.LeftCorner name name)
    (within : ∀ limit place, parse grammar options ⟨tokens,.finished pos⟩ ≠ .error (.stateLimit limit place)) :
    (∀ trees, parse grammar options ⟨tokens,.finished pos⟩ = .error (.ambiguous trees) →
      trees.Pairwise (fun first second => first.leftmost grammar.rules < second.leftmost grammar.rules) ∧
      ∀ tree, tree ∈ trees ↔ grammar.DerivationOf tokens tree) ∧
    (options.ambiguity = .first →
      (∀ first, parse grammar options ⟨tokens,.finished pos⟩ = .ok first ↔ grammar.DerivationOf tokens first ∧
        ∀ tree, grammar.DerivationOf tokens tree → tree ≠ first →
          first.leftmost grammar.rules < tree.leftmost grammar.rules) ∧
      ∀ tree, grammar.DerivationOf tokens tree →
        ∃ first, parse grammar options ⟨tokens,.finished pos⟩ = .ok first) := by
  rcases parse_derivations (Grammar.followable_of_nonrecursive nonrecursive) within with
    ⟨result,passed,settled,members⟩ | ⟨token,expected,canEnd,rejected,none⟩
  · have parts := lastPass_ordered once (Grammar.cycles_eq_nil nonrecursive) passed
    have whole : distinct result.complete = result.complete :=
      distinct_of_ordered (fun tree member => ((members tree).mp member).2) parts
    have ordered := parts.imp PartsBelow.lt
    rw [settled]
    refine ⟨fun trees ambiguous => ?_,fun policy => ?_⟩
    · obtain ⟨rfl,-⟩ := (settle_ambiguous_iff options.ambiguity pos result trees).mp ambiguous
      rw [whole]
      exact ⟨ordered,members⟩
    · have taken : ∀ first, settle options.ambiguity pos result = .ok first ↔ result.complete.head? = some first := by
        intro first
        rw [settle_ok_iff,policy,whole,chosen_first]
      refine ⟨fun first => ?_,fun tree derivation => ?_⟩
      · rw [taken,head?_iff_least ordered]
        simp only [members]
      · obtain ⟨first,rest,split⟩ := List.exists_cons_of_ne_nil (List.ne_nil_of_mem ((members tree).mpr derivation))
        exact ⟨first,(taken first).mpr (by rw [split]; rfl)⟩
  · rw [rejected]
    simp [none]

/-- Two names behind an optional sign, each of them a type or a variable. -/
def twofold : Grammar :=
  ⟨"S",[⟨"S",[.nonterminal "O",.nonterminal "N",.nonterminal "N"]⟩,⟨"N",[.nonterminal "T"]⟩,⟨"N",[.nonterminal "V"]⟩,
    ⟨"T",[.terminal .identifier]⟩,⟨"V",[.terminal .identifier]⟩,⟨"O",[]⟩,⟨"O",[.terminal .minus]⟩],by decide +kernel⟩

private theorem nonrecursive_twofold (name : String) : ¬ TransGen twofold.LeftCorner name name :=
  Grammar.nonrecursive_of_rank (fun name => ["O","T","V","N","S"].idxOf name) (by decide +kernel) name

/-- The tree of two names of the given readings. -/
def reading (left right : String) : Tree :=
  .branch "S" [.branch "O" [],.branch "N" [.branch left [.leaf (.bare .identifier)]],
    .branch "N" [.branch right [.leaf (.bare .identifier)]]]

/-- The four readings of two names, in the order of their leftmost derivations. -/
def readings : List Tree := [reading "T" "T",reading "T" "V",reading "V" "T",reading "V" "V"]

/-- Two names have their four readings, and the first one taken is that as two types. -/
theorem parse_least_first_twofold :
    readings.map (Tree.leftmost twofold.rules) = [[0,5,1,3,1,3],[0,5,1,3,2,4],[0,5,2,4,1,3],[0,5,2,4,2,4]] ∧
    (∀ tree, tree ∈ readings ↔ twofold.DerivationOf ([.identifier,.identifier].map .bare) tree) ∧
    ∀ tree, twofold.DerivationOf ([.identifier,.identifier].map .bare) tree → tree ≠ reading "T" "T" →
      (reading "T" "T").leftmost twofold.rules < tree.leftmost twofold.rules := by
  have passed : lastPass (Table.of twofold) ({} : Options).maxStates .origin 0 (initial twofold)
      ([.identifier,.identifier].map .bare) = .ok ⟨[],readings⟩ := by cbv
  have ambiguous : parse twofold {} ⟨[.identifier,.identifier].map .bare,.finished .origin⟩ =
      .error (.ambiguous readings) := by
    rw [parse_eq_lastPass,passed]
    rfl
  have chosen : parse twofold {ambiguity := .first} ⟨[.identifier,.identifier].map .bare,.finished .origin⟩ =
      .ok (reading "T" "T") := by
    rw [parse_eq_lastPass,passed]
    rfl
  have all := (parse_least_first twofold {} _ .origin (by decide +kernel) nonrecursive_twofold
    (by rw [ambiguous]; simp)).1 readings ambiguous
  have least := (parse_least_first twofold {ambiguity := .first} _ .origin (by decide +kernel) nonrecursive_twofold
    (by rw [chosen]; simp)).2 rfl
  exact ⟨by decide +kernel,all.2,((least.1 _).mp chosen).2⟩

end Parser

end CFrontend
