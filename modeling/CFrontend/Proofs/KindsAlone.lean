import CFrontend.Proofs.Progress
import CFrontend.Proofs.Soundness

/-!
Parsing depends on the kinds of tokens alone. What else a token carries goes into the leaves of trees, where the passes never
look: stripping all tokens to their kinds commutes with expanding a state (`expand_stripped`), with a pass and with a whole
parse up to its last pass (`lastPass_stripped`). Only settling compares leaves, and trees over one sequence of tokens
agree when and only when their stripped trees are equal.
-/
namespace CFrontend
namespace Tree

/-! ### Trees without what tokens carry -/

mutual

/-- The tree with nothing but the kinds of its tokens. -/
def stripped : Tree → Tree
  | .leaf token => .leaf (.bare token.kind)
  | .branch name children => .branch name (strippedAll children)

/-- The trees with nothing but the kinds of their tokens. -/
def strippedAll : List Tree → List Tree
  | [] => []
  | tree :: rest => tree.stripped :: strippedAll rest

end

mutual

/-- The tree with its leaves replaced, from left to right, by the given tokens. -/
def relabelled : Tree → List Token → Tree
  | .leaf token, tokens => .leaf (tokens.headD token)
  | .branch name children, tokens => .branch name (relabelledAll children tokens)

/-- The trees with their leaves replaced, from left to right, by the given tokens. -/
def relabelledAll : List Tree → List Token → List Tree
  | [], _ => []
  | tree :: rest, tokens => tree.relabelled tokens :: relabelledAll rest (tokens.drop tree.tokens.length)

end

@[simp] theorem strippedAll_eq_map (trees : List Tree) : strippedAll trees = trees.map stripped := by
  induction trees with
  | nil => rfl
  | cons tree rest ih => rw [strippedAll,ih,List.map_cons]

mutual

private theorem length_tokens_stripped : (tree : Tree) → tree.stripped.tokens.length = tree.tokens.length
  | .leaf _ => rfl
  | .branch _ children => length_tokens_strippedAll children

private theorem length_tokens_strippedAll : (trees : List Tree) →
    (forestTokens (strippedAll trees)).length = (forestTokens trees).length
  | [] => rfl
  | tree :: rest => by
    rw [strippedAll,forestTokens,forestTokens,List.length_append,List.length_append,length_tokens_stripped tree,
      length_tokens_strippedAll rest]

end

mutual

/-- Of two trees that are equal when stripped, the second is the first with the leaves of the second. -/
theorem eq_relabelled : (left right : Tree) → left.stripped = right.stripped → (more : List Token) →
    right = left.relabelled (right.tokens ++ more)
  | .leaf _, .leaf _, _, _ => rfl
  | .leaf _, .branch _ _, alike, _ => by simp [stripped] at alike
  | .branch _ _, .leaf _, alike, _ => by simp [stripped] at alike
  | .branch name children, .branch name' children', alike, more => by
    rw [stripped,stripped,Tree.branch.injEq] at alike
    rw [relabelled,alike.1,tokens,← eq_relabelledAll children children' alike.2 more]

private theorem eq_relabelledAll : (left right : List Tree) → strippedAll left = strippedAll right → (more : List Token) →
    right = relabelledAll left (forestTokens right ++ more)
  | [], [], _, _ => rfl
  | [], _ :: _, alike, _ => by simp [strippedAll] at alike
  | _ :: _, [], alike, _ => by simp [strippedAll] at alike
  | tree :: rest, tree' :: rest', alike, more => by
    rw [strippedAll,strippedAll,List.cons.injEq] at alike
    have lengths : tree.tokens.length = tree'.tokens.length := by
      rw [← length_tokens_stripped tree,alike.1,length_tokens_stripped]
    rw [relabelledAll,forestTokens,List.append_assoc,← eq_relabelled tree tree' alike.1 _,lengths,List.drop_left,
      ← eq_relabelledAll rest rest' alike.2 more]

end

private theorem relabelled_of_stripped {left right : Tree} (alike : left.stripped = right.stripped) :
    right = left.relabelled right.tokens := by
  simpa using eq_relabelled left right alike []

/-- Trees over the same tokens are equal when they are so stripped. -/
theorem eq_of_stripped {left right : Tree} (alike : left.stripped = right.stripped)
    (leaves : left.tokens = right.tokens) : left = right := by
  rw [relabelled_of_stripped alike,← leaves]
  exact relabelled_of_stripped rfl

end Tree

namespace Parser
open Grammar (Cycle)

variable {table : Table} {current limit : Nat}

/-! ### States without what tokens carry -/

/-- The frame with nothing but the kinds of the tokens that it has matched. -/
def Frame.stripped (frame : Frame) : Frame := { frame with matched := frame.matched.map Tree.stripped }

/-- The state with nothing but the kinds of the tokens that it has matched. -/
def State.stripped (state : State) : State := ⟨state.frame.stripped,state.ancestors.map Frame.stripped⟩

/-- What expanding a state gives, with nothing but the kinds of tokens. -/
def Expansion.stripped : Expansion → Expansion
  | .waiting kind => .waiting kind
  | .complete tree => .complete tree.stripped
  | .into states created => .into (states.map State.stripped) created

/-- A pending state with nothing but the kinds of tokens. -/
def strippedEntry (entry : TokenKind × State) : TokenKind × State := (entry.1,entry.2.stripped)

/-- A pass with nothing but the kinds of tokens. -/
def Pass.stripped (result : Pass) : Pass := ⟨result.pending.map strippedEntry,result.complete.map Tree.stripped⟩

@[simp] theorem stripped_predicted (production : Production) (origin : Nat) :
    (Frame.predicted production origin).stripped = .predicted production origin := rfl

@[simp] theorem stripped_advance (frame : Frame) (tree : Tree) :
    (frame.advance tree).stripped = frame.stripped.advance tree.stripped := rfl

@[simp] theorem tree_stripped (frame : Frame) : frame.stripped.tree = frame.tree.stripped := by
  simp [Frame.tree,Frame.stripped,Frame.name,Tree.stripped]

private theorem keys_stripped (frames : List Frame) : (frames.map Frame.stripped).map (fun frame => (frame.origin,frame.name)) =
    frames.map fun frame => (frame.origin,frame.name) := by
  rw [List.map_map]
  rfl

private theorem isLooped_stripped (state : State) (name : String) (current : Nat) :
    state.stripped.isLooped name current = state.isLooped name current := by
  apply isLooped_congr
  exact keys_stripped (state.frame :: state.ancestors)

private theorem mayGrow_stripped (state : State) (cycle : Cycle) : state.stripped.mayGrow cycle = state.mayGrow cycle := by
  apply mayGrow_congr
  · rfl
  · exact keys_stripped state.ancestors
  · rfl

private theorem growInto_stripped (tree : Tree) (origin : Nat) (cycle : Cycle) (frames : List Frame) :
    State.growInto tree.stripped origin cycle (frames.map Frame.stripped) =
      (State.growInto tree origin cycle frames).map State.stripped := by
  fun_induction State.growInto tree origin cycle frames with
  | case1 => rfl
  | case2 => rfl
  | case3 frames step cycle several ih =>
    rw [← ih,State.growInto]
    · rfl
    · exact several

private theorem close_stripped (state : State) (parent : Frame) (ancestors : List Frame) (cycles : List Cycle) :
    state.stripped.close parent.stripped (ancestors.map Frame.stripped) cycles =
      ((state.close parent ancestors cycles).1.map State.stripped,(state.close parent ancestors cycles).2) := by
  have allowed : state.stripped.mayGrow = state.mayGrow := funext (mayGrow_stripped state)
  have grown : state.stripped.grow = fun cycle => (state.grow cycle).map State.stripped := by
    funext cycle
    rw [State.grow,State.grow,← growInto_stripped,← tree_stripped]
    rfl
  rw [State.close,State.close,allowed,grown]
  simp only [List.map_cons,List.map_filterMap]
  rw [State.stripped,State.stripped,stripped_advance,tree_stripped]

/-- Expanding a state commutes with stripping it. -/
theorem expand_stripped (table : Table) (current : Nat) (state : State) :
    expand table current state.stripped = (expand table current state).stripped := by
  unfold expand
  rw [show state.stripped.frame.rest = state.frame.rest from rfl]
  cases state.frame.rest with
  | nil =>
    rw [show state.stripped.ancestors = state.ancestors.map Frame.stripped from rfl]
    cases state.ancestors with
    | nil => exact congrArg Expansion.complete (tree_stripped state.frame)
    | cons parent ancestors =>
      simp only [List.map_cons]
      rw [close_stripped]
      rfl
  | cons symbol tail =>
    cases symbol with
    | terminal kind => rfl
    | nonterminal name =>
      dsimp only
      rw [isLooped_stripped]
      by_cases looped : state.isLooped name current = true
      · rw [if_pos looped,if_pos looped]
        rfl
      · rw [if_neg looped,if_neg looped]
        simp [State.predict,Expansion.stripped,State.stripped]

/-! ### Passes -/

private theorem expandAll_stripped (table : Table) (limit current created waiting : Nat) (pending : List (TokenKind × State))
    (complete : List Tree) (stack : List State) :
    expandAll table limit current created waiting (pending.map strippedEntry) (complete.map Tree.stripped)
        (stack.map State.stripped) =
      (expandAll table limit current created waiting pending complete stack).map Pass.stripped := by
  fun_induction expandAll table limit current created waiting pending complete stack with
  | case1 created waiting pending complete => simp [expandAll,Pass.stripped]
  | case2 created waiting pending complete state stack exceeded =>
    rw [List.map_cons,expandAll,if_pos exceeded]
    rfl
  | case3 created waiting pending complete state stack within kind waits ih =>
    rw [← ih,List.map_cons,expandAll,if_neg within,expand_stripped,waits]
    rfl
  | case4 created waiting pending complete state stack within tree done ih =>
    rw [← ih,List.map_cons,expandAll,if_neg within,expand_stripped,done]
    rfl
  | case5 created waiting pending complete state stack within states replaced ih =>
    rw [← ih,List.map_cons,expandAll,if_neg within,expand_stripped,replaced]
    rfl
  | case6 created waiting pending complete state stack within states count replaced some ih =>
    rw [← ih,List.map_cons,expandAll,if_neg within,expand_stripped,replaced,List.map_append]
    simp only [Expansion.stripped,some,if_false]

private theorem pass_stripped (table : Table) (limit current : Nat) (live : List State) :
    pass table limit current (live.map State.stripped) = (pass table limit current live).map Pass.stripped :=
  expandAll_stripped table limit current 0 0 [] [] live

private theorem kinds_stripped (result : Pass) : result.stripped.pending.map (·.1) = result.pending.map (·.1) := by
  simp [Pass.stripped,strippedEntry]

private theorem scan_stripped (token : Token) (pending : List (TokenKind × State)) :
    scan (.bare token.kind) (pending.map strippedEntry) = (scan token pending).map State.stripped := by
  simp only [scan,List.filter_map,List.map_map]
  rfl

/-- The end of the passes with nothing but the kinds of tokens. -/
def strippedEnd : Except ParseError Pass → Except ParseError Pass
  | .ok result => .ok result.stripped
  | .error (.unexpected token expected canEnd) => .error (.unexpected (.bare token.kind) expected canEnd)
  | .error (.stateLimit limit _) => .error (.stateLimit limit .origin)
  | .error other => .error other

private theorem ok_of_strippedEnd {outcome : Except ParseError Pass} {result : Pass}
    (same : strippedEnd outcome = .ok result) : ∃ own, outcome = .ok own ∧ own.stripped = result := by
  rcases outcome with (_ | _ | _ | _ | _ | _) | own
  all_goals simp_all [strippedEnd]

private theorem unexpected_of_strippedEnd {outcome : Except ParseError Pass} {token : Token} {expected : List TokenKind}
    {canEnd : Bool} (same : strippedEnd outcome = .error (.unexpected token expected canEnd)) :
    ∃ own, outcome = .error (.unexpected own expected canEnd) := by
  rcases outcome with (_ | _ | _ | _ | _ | _) | own
  all_goals simp_all [strippedEnd]

private theorem stateLimit_of_strippedEnd {outcome : Except ParseError Pass} {limit : Nat} {place : Position}
    (same : strippedEnd outcome = .error (.stateLimit limit place)) : ∃ own, outcome = .error (.stateLimit limit own) := by
  rcases outcome with (_ | _ | _ | _ | _ | _) | own
  all_goals simp_all [strippedEnd]

/-- Passes over stripped tokens accept as many tokens and end alike. -/
theorem lastPass_stripped (table : Table) (limit : Nat) (pos : Position) (tokens : List Token) (current : Nat)
    (live : List State) :
    lastPass table limit .origin current (live.map State.stripped) (tokens.map fun token => .bare token.kind) =
        strippedEnd (lastPass table limit pos current live tokens) ∧
      acceptedFrom table limit current (live.map State.stripped) (tokens.map fun token => .bare token.kind) =
        acceptedFrom table limit current live tokens := by
  induction tokens generalizing current live with
  | nil =>
    rw [List.map_nil,lastPass,lastPass,pass_stripped]
    cases pass table limit current live with
    | none => exact ⟨rfl,rfl⟩
    | some result => exact ⟨rfl,rfl⟩
  | cons token rest ih =>
    rw [List.map_cons,lastPass,lastPass,acceptedFrom,acceptedFrom,pass_stripped]
    cases pass table limit current live with
    | none => exact ⟨rfl,rfl⟩
    | some result =>
      have scanned := scan_stripped token result.pending
      simp only [Option.map_some,kinds_stripped]
      rw [show result.stripped.pending = result.pending.map strippedEntry from rfl,scanned]
      cases scan token result.pending with
      | nil =>
        refine ⟨?_,rfl⟩
        simp [strippedEnd,Pass.stripped]
      | cons survivor others =>
        obtain ⟨ends,counts⟩ := ih (current + 1) (survivor :: others)
        exact ⟨ends,congrArg (· + 1) counts⟩

/-! ### Outcomes -/

/-- Two parses that accept as many tokens, one of each sequence, end alike. The outcome is of the same kind; trees are those
    of the first parse with the tokens of the second sequence; a token is unexpected, or a limit exceeded, behind the accepted
    tokens of each sequence, and the kinds in its place are the same. -/
def EndsAlike (first second : List Token) (pos pos' : Position) (index : Nat) :
    Except ParseError Tree → Except ParseError Tree → Prop
  | .ok tree, .ok tree' => tree' = tree.relabelled second
  | .error (.unexpected token expected canEnd), .error (.unexpected token' expected' canEnd') =>
    first[index]? = some token ∧ second[index]? = some token' ∧ expected = expected' ∧ canEnd = canEnd'
  | .error (.incomplete _ expected), .error (.incomplete _ expected') => expected = expected'
  | .error (.stateLimit bound place), .error (.stateLimit bound' place') =>
    bound = bound' ∧ index ≤ first.length ∧ place = placeAt first pos index ∧ place' = placeAt second pos' index
  | .error (.ambiguous trees), .error (.ambiguous trees') => trees' = trees.map (·.relabelled second)
  | _, _ => False

/-- Trees over tokens of which none is a NaN agree when and only when their stripped trees are equal. -/
theorem same_iff_stripped {tokens : List Token} (numbers : ∀ token ∈ tokens, token.NoNaN) {left right : Tree}
    (first : left.tokens = tokens) (second : right.tokens = tokens) :
    left.same right = true ↔ left.stripped = right.stripped := by
  constructor
  · intro agree
    rw [Tree.eq_of_same left right agree (first.trans second.symm)]
  · intro alike
    rw [Tree.eq_of_stripped alike (first.trans second.symm)]
    exact Tree.same_self right (by rw [second]; exact numbers)

/-- Trees over two sequences of tokens, equal in order when stripped, are the same up to the tokens of the second one. -/
theorem map_relabelled {trees trees' : List Tree} {second : List Token}
    (alike : trees.map Tree.stripped = trees'.map Tree.stripped) (leaves : ∀ tree ∈ trees', tree.tokens = second) :
    trees' = trees.map (·.relabelled second) := by
  induction trees generalizing trees' with
  | nil => simpa using alike.symm
  | cons tree rest ih =>
    obtain ⟨tree',rest',rfl,first,others⟩ := List.map_eq_cons_iff.mp alike.symm
    obtain ⟨own,later⟩ := List.forall_mem_cons.mp leaves
    rw [List.map_cons,← ih others.symm later,← own,← Tree.relabelled_of_stripped first.symm]

/-- Over tokens without NaN payloads, settling keeps the same of trees that are equal when stripped. -/
theorem distinct_alike {trees trees' : List Tree} {first second : List Token} (numbers : ∀ token ∈ first, token.NoNaN)
    (numbers' : ∀ token ∈ second, token.NoNaN) (alike : trees.map Tree.stripped = trees'.map Tree.stripped)
    (leaves : ∀ tree ∈ trees, tree.tokens = first) (leaves' : ∀ tree ∈ trees', tree.tokens = second) :
    distinct trees' = (distinct trees).map (·.relabelled second) := by
  obtain rfl := map_relabelled alike leaves'
  rw [List.map_map] at alike
  have stripped : ∀ tree ∈ trees, tree.stripped = (tree.relabelled second).stripped := List.map_inj_left.mp alike
  have own : ∀ tree ∈ trees, (tree.relabelled second).tokens = second := fun tree member =>
    leaves' _ (List.mem_map_of_mem member)
  refine distinct_map_of_mem fun left here right there => ?_
  rw [Bool.eq_iff_iff,same_iff_stripped numbers' (own left here) (own right there),
    same_iff_stripped numbers (leaves left here) (leaves right there),stripped left here,stripped right there]

private theorem settle_alike (policy : AmbiguityPolicy) (first second : List Token) (pos pos' : Position) (index : Nat)
    {result result' : Pass} (kinds : result.pending.map (·.1) = result'.pending.map (·.1))
    (trees : distinct result'.complete = (distinct result.complete).map (·.relabelled second)) :
    EndsAlike first second pos pos' index (settle policy pos result) (settle policy pos' result') := by
  rw [settle_eq,settle_eq,trees,kinds]
  rcases distinct result.complete with _ | ⟨tree,_ | ⟨next,others⟩⟩
  · exact rfl
  · exact rfl
  · by_cases taken : policy = .first
    · simp [taken,EndsAlike]
    · simp [taken,EndsAlike]

/-- Tokens of the same kinds are parsed alike, whatever else they carry and wherever they stand. -/
theorem parse_of_kinds (grammar : Grammar) (options : Options) (first second : List Token) (pos pos' : Position)
    (kinds : first.map (·.kind) = second.map (·.kind)) (numbers : ∀ token ∈ first, token.NoNaN)
    (numbers' : ∀ token ∈ second, token.NoNaN) :
    accepted grammar options first = accepted grammar options second ∧
      EndsAlike first second pos pos' (accepted grammar options first)
        (parse grammar options ⟨first,.finished pos⟩) (parse grammar options ⟨second,.finished pos'⟩) := by
  have bare : (first.map fun token => Token.bare token.kind) = second.map fun token => Token.bare token.kind := by
    simpa [Function.comp_def] using congrArg (List.map Token.bare) kinds
  obtain ⟨ends,counts⟩ := lastPass_stripped (Table.of grammar) options.maxStates pos first 0 (initial grammar)
  obtain ⟨ends',counts'⟩ := lastPass_stripped (Table.of grammar) options.maxStates pos' second 0 (initial grammar)
  rw [bare,ends'] at ends
  rw [bare,counts'] at counts
  have stops := lastPass_stops (Table.of grammar) options.maxStates pos first 0 (initial grammar)
  have stops' := lastPass_stops (Table.of grammar) options.maxStates pos' second 0 (initial grammar)
  rw [counts] at stops'
  have found := lastPass_spec grammar options.maxStates pos first
  have found' := lastPass_spec grammar options.maxStates pos' second
  refine ⟨counts.symm,?_⟩
  rw [parse_eq_lastPass,parse_eq_lastPass]
  -- However the first sequence ends its passes, the second does so as well, since their stripped ends are equal.
  rcases lastPass_cases (Table.of grammar) options.maxStates pos first 0 (initial grammar) with
    ⟨result,last⟩ | ⟨token,expected,canEnd,last⟩ | ⟨bound,place,last⟩
  · rw [last] at ends found ⊢
    obtain ⟨result',last',alike⟩ := ok_of_strippedEnd ends
    rw [last'] at found' ⊢
    have trees : distinct result'.complete = (distinct result.complete).map (·.relabelled second) :=
      distinct_alike numbers numbers' (congrArg Pass.complete alike).symm
        (fun tree member => (found_derivation ((found tree).mp member)).2)
        (fun tree member => (found_derivation ((found' tree).mp member)).2)
    have waiting : result.pending.map (·.1) = result'.pending.map (·.1) := by
      rw [← kinds_stripped result,← kinds_stripped result',alike]
    exact settle_alike options.ambiguity first second pos pos' _ waiting trees
  · rw [last] at ends stops ⊢
    obtain ⟨token',last'⟩ := unexpected_of_strippedEnd ends
    rw [last'] at stops' ⊢
    exact ⟨stops,stops',rfl,rfl⟩
  · rw [last] at ends stops ⊢
    obtain ⟨place',last'⟩ := stateLimit_of_strippedEnd ends
    rw [last'] at stops' ⊢
    exact ⟨rfl,stops.2.1,stops.2.2,stops'.2.2⟩

/-- The identifier `x` and a plus sign behind it. -/
def markedName : List Token :=
  [{ kind := .identifier,literal := [0x78],pos := ⟨1,1⟩ },{ kind := .plus,pos := ⟨1,2⟩ }]

/-- A name has the two readings that an identifier without a text has. -/
theorem parse_of_kinds_marked : ∃ trees,
    parse marked {} ⟨[.bare .identifier,.bare .plus],.finished .origin⟩ = .error (.ambiguous trees) ∧ trees.length = 2 ∧
    parse marked {} ⟨markedName,.finished ⟨1,3⟩⟩ = .error (.ambiguous (trees.map (·.relabelled markedName))) := by
  obtain ⟨trees,one,two⟩ : ∃ trees, parse marked {} ⟨[.bare .identifier,.bare .plus],.finished .origin⟩ =
      .error (.ambiguous trees) ∧ trees.length = 2 := ⟨_,by cbv,by cbv⟩
  have alike := (parse_of_kinds marked {} [.bare .identifier,.bare .plus] markedName .origin ⟨1,3⟩ (by decide) (by decide)
    (by decide)).2
  rw [one] at alike
  refine ⟨trees,one,two,?_⟩
  generalize parse marked {} ⟨markedName,.finished ⟨1,3⟩⟩ = outcome at alike ⊢
  rcases outcome with (_ | _ | _ | _ | others | _) | _
  all_goals simp_all [EndsAlike]

end Parser

end CFrontend
