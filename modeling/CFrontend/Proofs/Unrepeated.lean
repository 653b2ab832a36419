import CFrontend.Proofs.Predecessor
import CFrontend.Proofs.Soundness
import CFrontend.Proofs.Yields

/-!
A pass finds each complete state once. Live states of which none leads to another are kept so by each
expansion (`Scattered.expand`), since a state that is reached from two of them would have two
predecessors. The pending states and the trees of a pass then have no repetition, and the
states that accept the next token are scattered again, because no expansion gives a
state that has just matched a token.
-/
namespace CFrontend.Parser
open Relation (ReflTransGen TransGen)

variable {grammar : Grammar} {tokens : List Token} {count : Nat}

/-- Neither of two states leads to the other before the same token. -/
def Apart (grammar : Grammar) (count : Nat) (left right : State) : Prop :=
  ¬ ReflTransGen (Step grammar count) left right ∧ ¬ ReflTransGen (Step grammar count) right left

/-- Reached states of which none leads to another. -/
structure Scattered (grammar : Grammar) (tokens : List Token) (count : Nat) (states : List State) : Prop where
  reached : ∀ state ∈ states, Reached grammar tokens count state
  apart : states.Pairwise (Apart grammar count)

/-! ### One expansion -/

/-- No state leads back to itself, because passes end. -/
theorem Reached.not_cyclic {state : State} (reached : Reached grammar tokens count state) :
    ¬ TransGen (Step grammar count) state state := by
  obtain ⟨length,derivation⟩ := reached.partialDerivation
  have ends := acc_step derivation reached.distinct
  rw [length] at ends
  induction ends with
  | intro state _ ih =>
    intro cyclic
    obtain ⟨next,taken,back⟩ := TransGen.head'_iff.mp cyclic
    have later := reached.step taken
    exact ih next taken later later.partialDerivation.2 (TransGen.tail' back taken)

private theorem grow_inj {state grown : State} {cycle cycle' : Grammar.Cycle} (made : state.grow cycle = some grown)
    (made' : state.grow cycle' = some grown) : cycle = cycle' := by
  obtain ⟨chain,last,rfl,same⟩ := (grow_eq_some_iff state grown cycle).mp made
  obtain ⟨chain',last',rfl,same'⟩ := (grow_eq_some_iff state grown cycle').mp made'
  rw [same,State.mk.injEq] at same'
  have ends : last = last' := (advance_inj same'.1).2.2.1
  have chains := (List.append_left_inj state.ancestors).mp same'.2
  rw [List.reverse_inj] at chains
  have injective : Function.Injective (Frame.predicted · state.frame.origin) := fun first second alike =>
    congrArg Frame.production alike
  rw [injective.list_map chains,ends]

private theorem nodup_grown (grammar : Grammar) (state : State) : (state.grown grammar).Nodup := by
  refine List.Nodup.filterMap ?_ ((Grammar.nodup_cycles grammar state.frame.name).filter _)
  intro cycle cycle' grown made made'
  exact grow_inj made made'

/-- The states that take the place of a state are different. -/
theorem nodup_expand {state : State} {states : List State} {created : Nat}
    (expanded : expand (Table.of grammar) count state = .into states created) : states.Nodup := by
  rcases expand_into_cases expanded with ⟨parent,ancestors,-,below,rfl⟩ | ⟨name,-,-,⟨-,rfl⟩ | ⟨-,rfl⟩⟩
  · -- A grown state has more ancestors than the closed one.
    refine List.nodup_cons.mpr ⟨fun member => ?_,nodup_grown grammar state⟩
    obtain ⟨chain,last,-,-,same⟩ := (mem_grown_iff grammar state _).mp member
    have lengths := congrArg (·.ancestors.length) same
    simp only [below,List.length_append,List.length_cons] at lengths
    omega
  · exact List.nodup_nil
  · refine (Grammar.nodup_alternatives grammar name).map fun first second alike => ?_
    exact congrArg (·.frame.production) alike

/-- What leads to a state from elsewhere leads to its predecessor. -/
theorem leads_to_predecessor (once : grammar.rules.Nodup) {source state next : State}
    (reached : Reached grammar tokens count source) (own : Reached grammar tokens count state)
    (taken : Step grammar count state next) (path : ReflTransGen (Step grammar count) source next) :
    source = next ∨ ReflTransGen (Step grammar count) source state := by
  rcases path.cases_tail with same | ⟨before,front,last⟩
  · exact .inl same.symm
  · exact .inr (Step.predecessor once (reached.steps front) own last taken ▸ front)

/-- Scattered states stay scattered when one of them is expanded. -/
theorem Scattered.expand (once : grammar.rules.Nodup) {state : State} {stack states : List State} {created : Nat}
    (scattered : Scattered grammar tokens count (state :: stack))
    (expanded : expand (Table.of grammar) count state = .into states created) :
    Scattered grammar tokens count (states ++ stack) := by
  obtain ⟨own,others⟩ := List.forall_mem_cons.mp scattered.reached
  obtain ⟨outside,among⟩ := List.pairwise_cons.mp scattered.apart
  have steps : ∀ next ∈ states, Step grammar count state next := fun next => (mem_expand_iff expanded next).mp
  refine ⟨?_,List.pairwise_append.mpr ⟨?_,among,?_⟩⟩
  · intro next member
    rcases List.mem_append.mp member with inside | later
    · exact own.step (steps next inside)
    · exact others next later
  · -- A path between two successors would lead from one of them back to the state.
    have forward : ∀ left ∈ states, ∀ right ∈ states, left ≠ right → ¬ ReflTransGen (Step grammar count) left right := by
      intro left first right second differ path
      rcases leads_to_predecessor once (own.step (steps left first)) own (steps right second) path with same | back
      · exact differ same
      · exact own.not_cyclic (TransGen.head' (steps left first) back)
    refine (nodup_expand expanded).imp_of_mem fun {left right} first second differ => ?_
    exact ⟨forward left first right second differ,forward right second left first differ.symm⟩
  · intro next inside other later
    refine ⟨fun path => ?_,fun path => ?_⟩
    · exact (outside other later).1 (.head (steps next inside) path)
    · rcases leads_to_predecessor once (others other later) own (steps next inside) path with rfl | back
      · exact (outside other later).1 (.single (steps other inside))
      · exact (outside other later).2 back

/-! ### One pass -/

/-- A complete state is known by its tree. -/
theorem eq_of_completes (once : grammar.rules.Nodup) {left right : State} {tree : Tree}
    (reached : Reached grammar tokens count left) (reached' : Reached grammar tokens count right)
    (done : Completes left tree) (done' : Completes right tree) : left = right :=
  eq_of_finished once reached reached' done.1 done'.1 (done.2.2.trans done'.2.2.symm) (done.2.1.trans done'.2.1.symm)

/-- A pass over scattered states has no state pending twice and no tree complete twice. -/
theorem Traversal.nodup (once : grammar.rules.Nodup) {stack : List State} {pending : List (TokenKind × State)}
    {complete : List Tree} (traversal : Traversal (Table.of grammar) count stack pending complete)
    (scattered : Scattered grammar tokens count stack) : pending.Nodup ∧ complete.Nodup := by
  induction traversal with
  | nil => exact ⟨List.nodup_nil,List.nodup_nil⟩
  | @wait state stack kind pending complete waits rest ih =>
    obtain ⟨own,others⟩ := List.forall_mem_cons.mp scattered.reached
    obtain ⟨outside,among⟩ := List.pairwise_cons.mp scattered.apart
    obtain ⟨unpending,unfinished⟩ := ih ⟨others,among⟩
    refine ⟨List.nodup_cons.mpr ⟨fun again => ?_,unpending⟩,unfinished⟩
    obtain ⟨source,member,found,path,rfl,-⟩ := (rest.spec.1 kind state).mp again
    exact (outside source member).2 path
  | @finish state stack tree pending complete done rest ih =>
    obtain ⟨own,others⟩ := List.forall_mem_cons.mp scattered.reached
    obtain ⟨outside,among⟩ := List.pairwise_cons.mp scattered.apart
    obtain ⟨unpending,unfinished⟩ := ih ⟨others,among⟩
    refine ⟨unpending,List.nodup_cons.mpr ⟨fun again => ?_,unfinished⟩⟩
    obtain ⟨source,member,found,path,done'⟩ := (rest.spec.2 tree).mp again
    have complete := (expand_complete_iff _ state tree).mp done
    obtain rfl := eq_of_completes once own ((others source member).steps path) complete done'
    exact (outside source member).2 path
  | into replaced rest ih => exact ih (scattered.expand once replaced)

/-- The states that go on with a token are scattered before the next one. -/
theorem scattered_scan {pending : List (TokenKind × State)} {token : Token} (once : pending.Nodup)
    (waiting : ∀ entry ∈ pending, Waits entry.2 entry.1)
    (reached : ∀ state ∈ scan token pending, Reached grammar tokens (count + 1) state) :
    Scattered grammar tokens (count + 1) (scan token pending) := by
  -- The expansions give states that have matched no token last.
  have first : ∀ {state source : State}, state ∈ scan token pending →
      ReflTransGen (Step grammar (count + 1)) source state → source = state := by
    intro state source member path
    rcases path.cases_tail with same | ⟨before,-,last⟩
    · exact same.symm
    · obtain ⟨waiting,-,rfl⟩ := (mem_scan_iff token pending state).mp member
      rcases last.arrival with ⟨fresh,-⟩ | ⟨-,⟨parent,-,frame⟩ | ⟨chain,last,-,frame,-⟩⟩
      · simp [State.advance,Frame.advance] at fresh
      · exact absurd (advance_inj frame).1 (by simp [Frame.tree])
      · exact absurd (advance_inj frame).1 (by simp [Frame.tree])
  have different : (scan token pending).Nodup := by
    rw [scan]
    refine List.Nodup.map_on ?_ (once.filter _)
    rintro ⟨kind,state⟩ inside ⟨kind',state'⟩ inside' alike
    obtain ⟨member,own⟩ := List.mem_filter.mp inside
    obtain ⟨member',own'⟩ := List.mem_filter.mp inside'
    simp only [beq_iff_eq] at own own'
    obtain ⟨tail,rest⟩ := waiting _ member
    obtain ⟨tail',rest'⟩ := waiting _ member'
    simp only [State.advance,State.mk.injEq] at alike
    obtain ⟨-,matched,production,origin,tails⟩ := advance_inj alike.1
    rw [rest,rest',List.tail_cons,List.tail_cons] at tails
    obtain ⟨frame,ancestors⟩ := state
    obtain ⟨frame',ancestors'⟩ := state'
    cases frame
    cases frame'
    simp_all
  refine ⟨reached,different.imp_of_mem fun {left right} member member' differ => ?_⟩
  exact ⟨fun path => differ (first member' path),fun path => differ (first member path).symm⟩

/-! ### A parse -/

theorem scattered_initial (grammar : Grammar) (tokens : List Token) :
    Scattered grammar tokens 0 (initial grammar) := by
  obtain ⟨production,only⟩ := grammar.alternatives_start
  have single : initial grammar = [.root production] := by rw [initial,only]; rfl
  refine ⟨fun state member => ?_,by rw [single]; exact List.pairwise_singleton _ _⟩
  obtain ⟨other,alternative,rfl⟩ := List.mem_map.mp member
  exact .start alternative

/-- The last pass over scattered states has no tree twice. -/
theorem lastPass_nodup (once : grammar.rules.Nodup) {limit : Nat} {pos : Position} (rest : List Token) (count : Nat)
    (live : List State) (scattered : Scattered grammar tokens count live) (remaining : tokens.drop count = rest)
    {result : Pass} (passed : lastPass (Table.of grammar) limit pos count live rest = .ok result) :
    result.complete.Nodup := by
  have scanned : ∀ {count live middle token}, Scattered grammar tokens count live →
      pass (Table.of grammar) limit count live = some middle → tokens[count]? = some token →
      scan token middle.pending ≠ [] → Scattered grammar tokens (count + 1) (scan token middle.pending) := by
    intro count live middle token scattered expanded here _
    have traversal := pass_traversal expanded
    have waiting := fun entry member => ((traversal.reached scattered.reached).1 entry member).1
    exact scattered_scan (traversal.nodup once scattered).1 waiting (reached_scan scattered.reached expanded here)
  obtain ⟨last,final,scattered,-,expanded⟩ := lastPass_kept scanned rest count live scattered remaining passed
  exact ((pass_traversal expanded).nodup once scattered).2

theorem foldl_keep_of_apart (trees kept : List Tree) (apart : trees.Pairwise fun left right => right.same left = false)
    (fresh : ∀ tree ∈ trees, ∀ other ∈ kept, tree.same other = false) :
    trees.foldl keep kept = trees.reverse ++ kept := by
  induction trees generalizing kept with
  | nil => rfl
  | cons tree rest ih =>
    obtain ⟨first,others⟩ := List.pairwise_cons.mp apart
    obtain ⟨own,later⟩ := List.forall_mem_cons.mp fresh
    have unseen : kept.any tree.same = false := List.any_eq_false.mpr fun other member => by simp [own other member]
    have next : ∀ other ∈ rest, ∀ before ∈ tree :: kept, other.same before = false := fun other member =>
      List.forall_mem_cons.mpr ⟨first other member,later other member⟩
    rw [List.foldl_cons,keep,unseen,if_neg (by simp),ih (tree :: kept) others next]
    simp

/-- Over tokens without NaN payloads no two trees of the last pass agree, so settling on its trees drops
    none: there are as many complete states as distinct trees. This holds for every grammar of distinct
    rules, whatever its recursion. -/
theorem parse_unrepeated (grammar : Grammar) (options : Options) (tokens : List Token) (pos : Position)
    (once : grammar.rules.Nodup) (numbers : ∀ token ∈ tokens, token.NoNaN) {result : Pass}
    (passed : lastPass (Table.of grammar) options.maxStates pos 0 (initial grammar) tokens = .ok result) :
    parse grammar options ⟨tokens,.finished pos⟩ = settle options.ambiguity pos result ∧
      result.complete.Pairwise (fun left right => left.same right = false ∧ right.same left = false) ∧
      distinct result.complete = result.complete := by
  have found : ∀ tree ∈ result.complete, Found grammar tokens tree := by
    have correct := lastPass_spec grammar options.maxStates pos tokens
    rw [passed] at correct
    exact fun tree => (correct tree).mp
  have exact : Exact result.complete := exact_of_tokens numbers fun tree member =>
    (found_derivation (found tree member)).2
  have unrepeated : result.complete.Nodup :=
    lastPass_nodup once tokens 0 (initial grammar) (scattered_initial grammar tokens) rfl passed
  have apart : result.complete.Pairwise fun left right => left.same right = false ∧ right.same left = false := by
    refine unrepeated.imp_of_mem fun {left right} first second differ => ?_
    rw [← Bool.not_eq_true,← Bool.not_eq_true,exact left first right second,exact right second left first]
    exact ⟨differ,differ.symm⟩
  refine ⟨by rw [parse_eq_lastPass,passed]; rfl,apart,?_⟩
  rw [distinct_eq,foldl_keep_of_apart result.complete [] (apart.imp And.right) (by simp)]
  simp

/-- Identifiers side by side, also between an optional minus sign and a plus sign; the recursion is
    direct on both sides and hidden behind the optional sign. -/
def sideBySide : Grammar :=
  ⟨"S",[⟨"S",[.nonterminal "E"]⟩,⟨"E",[.nonterminal "E",.nonterminal "E"]⟩,
    ⟨"E",[.nonterminal "O",.nonterminal "E",.terminal .plus]⟩,⟨"E",[.terminal .identifier]⟩,⟨"O",[]⟩,
    ⟨"O",[.terminal .minus]⟩],by decide +kernel⟩

/-- Three identifiers between the signs have two trees, and the last pass has each of them once. -/
theorem parse_unrepeated_sideBySide : ∃ result,
    lastPass (Table.of sideBySide) 1000000 .origin 0 (initial sideBySide)
      ([.minus,.identifier,.identifier,.identifier,.plus].map Token.bare) = .ok result ∧
    result.complete.length = 2 ∧ (distinct result.complete).length = 2 := by
  obtain ⟨result,passed,two⟩ : ∃ result, lastPass (Table.of sideBySide) 1000000 .origin 0 (initial sideBySide)
      ([.minus,.identifier,.identifier,.identifier,.plus].map Token.bare) = .ok result ∧
        result.complete.length = 2 := ⟨_,by cbv,by cbv⟩
  have whole := (parse_unrepeated sideBySide {} _ .origin (by decide +kernel) (by decide) passed).2.2
  exact ⟨result,passed,two,by rw [whole,two]⟩

end CFrontend.Parser
