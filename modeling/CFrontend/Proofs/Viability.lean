import CFrontend.Proofs.Completeness

/-!
Errors tell exactly what could have stood in a place. In a grammar whose nonterminals all derive tokens,
a state that waits for a kind can be completed, so the tokens before it and that kind begin a
sentence (`viable_of_waits`). In a followable grammar the converse holds as well: a sentence is found,
and its derivation passes through a state that waits for its next token (`waits_of_viable`).
-/
namespace CFrontend
namespace TokenKind

private theorem ofCode_code (kind : TokenKind) : ofCode kind.code = kind := by
  cases kind with
  | below n =>
    rw [code,ofCode,if_pos (by omega),show (-1 - (-1 - (n : Int))).toNat = n by omega]
  | above n =>
    have outside : named[(86 + (n : Int)).toNat]? = none := List.getElem?_eq_none (by
      have length : named.length = 86 := rfl
      omega)
    rw [code,ofCode,if_neg (by omega),outside,Option.getD_none,show (86 + (n : Int)).toNat - 86 = n by omega]
  | _ => rfl

theorem code_injective : Function.Injective code := Function.LeftInverse.injective ofCode_code

end TokenKind

namespace Grammar

variable {grammar : Grammar}

/-- Some derivation tree of the start symbol has leaves of the kinds. -/
def Sentence (grammar : Grammar) (kinds : List TokenKind) : Prop :=
  ∃ tree, grammar.Derives (.nonterminal grammar.start) tree ∧ tree.tokens.map (·.kind) = kinds

/-- Some sentence begins with the kinds. -/
def Viable (grammar : Grammar) (kinds : List TokenKind) : Prop := ∃ rest, grammar.Sentence (kinds ++ rest)

/-- Every nonterminal derives some tokens. -/
def Productive (grammar : Grammar) : Prop :=
  ∀ name ∈ grammar.nonterminals, ∃ tree, grammar.Derives (.nonterminal name) tree

private theorem Viable.of_append {front back : List TokenKind} (viable : grammar.Viable (front ++ back)) :
    grammar.Viable front := by
  obtain ⟨rest,sentence⟩ := viable
  exact ⟨back ++ rest,by rwa [← List.append_assoc]⟩

/-! ### Other tokens of the same kinds -/

mutual

private theorem exists_relabelled : (symbol : Symbol) → (tree : Tree) → grammar.Derives symbol tree → (tokens : List Token) →
    tokens.map (·.kind) = tree.tokens.map (·.kind) → ∃ other, grammar.Derives symbol other ∧ other.tokens = tokens
  | .terminal kind, .leaf token, derived, tokens, same => by
    obtain ⟨other,rfl,alike⟩ := List.map_eq_singleton_iff.mp same
    exact ⟨.leaf other,alike.trans derived,rfl⟩
  | .terminal _, .branch _ _, derived, _, _ => by simp [Derives] at derived
  | .nonterminal _, .leaf _, derived, _, _ => by simp [Derives] at derived
  | .nonterminal name, .branch label children, derived, tokens, same => by
    obtain ⟨rfl,rule,member,lhs,below⟩ := derived
    obtain ⟨others,derived',leaves⟩ := exists_relabelled_forest rule.rhs children below tokens same
    exact ⟨.branch label others,⟨rfl,rule,member,lhs,derived'⟩,leaves⟩

private theorem exists_relabelled_forest : (symbols : List Symbol) → (trees : List Tree) → grammar.DerivesAll symbols trees →
    (tokens : List Token) → tokens.map (·.kind) = (Tree.forestTokens trees).map (·.kind) →
    ∃ others, grammar.DerivesAll symbols others ∧ Tree.forestTokens others = tokens
  | [], trees, derived, tokens, same => by
    obtain rfl := (derivesAll_nil_iff trees).mp derived
    exact ⟨[],derived,(List.map_eq_nil_iff.mp same).symm⟩
  | _ :: _, [], derived, _, _ => by simp [DerivesAll] at derived
  | symbol :: symbols, tree :: trees, derived, tokens, same => by
    rw [Tree.forestTokens,List.map_append] at same
    obtain ⟨front,back,rfl,first,later⟩ := List.map_eq_append_iff.mp same
    obtain ⟨other,derived',leaves⟩ := exists_relabelled symbol tree derived.1 front first
    obtain ⟨others,all,rest⟩ := exists_relabelled_forest symbols trees derived.2 back later
    exact ⟨other :: others,⟨derived',all⟩,by rw [Tree.forestTokens,leaves,rest]⟩

end

/-- Tokens whose kinds are a sentence have a derivation. -/
theorem sentence_iff (tokens : List Token) :
    grammar.Sentence (tokens.map (·.kind)) ↔ ∃ tree, grammar.DerivationOf tokens tree := by
  constructor
  · rintro ⟨tree,derived,kinds⟩
    exact exists_relabelled _ tree derived tokens kinds.symm
  · rintro ⟨tree,derived,rfl⟩
    exact ⟨tree,derived,rfl⟩

/-! ### Symbols of productive grammars -/

theorem nonterminal_defined {rule : Rule} {name : String} (member : rule ∈ grammar.rules)
    (occurs : .nonterminal name ∈ rule.rhs) : name ∈ grammar.nonterminals := by
  have sound := grammar.valid
  unfold fault? at sound
  split at sound
  · simp at sound
  · split at sound
    · simp at sound
    · obtain ⟨index,place⟩ := List.getElem?_of_mem member
      have right := List.findSome?_eq_none_iff.mp sound (rule,index) (List.mk_mem_zipIdx_iff_getElem?.mpr place)
      have defined := List.findSome?_eq_none_iff.mp right _ occurs
      simp only [symbolFault?,ite_eq_left_iff,reduceCtorEq,imp_false,Bool.not_eq_true] at defined
      simpa [nonterminals,defines] using defined

private theorem Productive.derivesAll (productive : Productive grammar) {rule : Rule} (member : rule ∈ grammar.rules)
    {symbols : List Symbol} (inside : symbols ⊆ rule.rhs) : ∃ trees, grammar.DerivesAll symbols trees := by
  induction symbols with
  | nil => exact ⟨[],by simp⟩
  | cons symbol symbols ih =>
    obtain ⟨own,others⟩ := List.cons_subset.mp inside
    obtain ⟨trees,derived⟩ := ih others
    cases symbol with
    | terminal kind => exact ⟨.leaf (.bare kind) :: trees,rfl,derived⟩
    | nonterminal name =>
      obtain ⟨tree,first⟩ := productive name (nonterminal_defined member own)
      exact ⟨tree :: trees,first,derived⟩

end Grammar

namespace Parser
open Grammar (Sentence Viable Productive Followable)

variable {grammar : Grammar} {tokens : List Token} {count : Nat}

/-! ### Completing a partial derivation -/

private theorem Frame.Valid.completed {frame : Frame} {trees : List Tree} (valid : frame.Valid grammar)
    (derived : grammar.DerivesAll frame.rest trees) :
    grammar.Derives (.nonterminal frame.name) (.branch frame.name (frame.matched.reverse ++ trees)) := by
  obtain ⟨done,rhs,matched⟩ := valid.split
  exact Grammar.derives_of_rule (Grammar.rule_of_mem_alternatives valid.alternative)
    (rhs ▸ Grammar.derivesAll_append matched derived)

private theorem Frame.Valid.rest_subset {frame : Frame} (valid : frame.Valid grammar) :
    frame.rest ⊆ frame.production.rule.rhs := by
  obtain ⟨done,rhs,-⟩ := valid.split
  rw [rhs]
  exact List.subset_append_right done frame.rest

/-- Whatever the innermost frame still derives, the frames around it can be completed behind it. -/
theorem PartialDerivation.completed (productive : Productive grammar) {frames : List Frame} {read : List Token}
    (derivation : PartialDerivation grammar frames read) :
    ∀ {frame : Frame} {rest : List Frame} {trees : List Tree}, frames = frame :: rest →
      grammar.DerivesAll frame.rest trees →
      ∃ tree after, grammar.Derives (.nonterminal grammar.start) tree ∧
        tree.tokens = read ++ Tree.forestTokens trees ++ after := by
  induction derivation with
  | @root frame valid named placed =>
    rintro _ _ trees same derived
    obtain ⟨rfl,rfl⟩ := List.cons.inj same
    refine ⟨_,[],named ▸ valid.completed derived,?_⟩
    simp [Tree.tokens,Tree.forestTokens_append,Frame.tokens]
  | @push frame outer rest tail read below waits valid placed ih =>
    rintro _ _ trees same derived
    obtain ⟨rfl,rfl⟩ := List.cons.inj same
    have inside := below.valid outer (by simp)
    have known : tail ⊆ outer.production.rule.rhs := fun symbol member =>
      inside.rest_subset (by rw [waits]; exact List.mem_cons_of_mem _ member)
    obtain ⟨later,others⟩ := productive.derivesAll (Grammar.rule_of_mem_alternatives inside.alternative) known
    have next : grammar.DerivesAll outer.rest (.branch frame.name (frame.matched.reverse ++ trees) :: later) := by
      rw [waits]
      exact ⟨valid.completed derived,others⟩
    obtain ⟨tree,after,whole,leaves⟩ := ih rfl next
    refine ⟨tree,Tree.forestTokens later ++ after,whole,?_⟩
    simp [leaves,Tree.forestTokens,Tree.tokens,Tree.forestTokens_append,Frame.tokens]

theorem PartialDerivation.viable (productive : Productive grammar) {frame : Frame} {rest : List Frame}
    {read : List Token} (derivation : PartialDerivation grammar (frame :: rest) read) {trees : List Tree}
    (derived : grammar.DerivesAll frame.rest trees) :
    grammar.Viable (read.map (·.kind) ++ (Tree.forestTokens trees).map (·.kind)) := by
  obtain ⟨tree,after,whole,leaves⟩ := derivation.completed productive rfl derived
  exact ⟨after.map (·.kind),tree,whole,by simp [leaves]⟩

/-- The tokens that lead to a state begin a sentence. -/
theorem viable_of_reached (productive : Productive grammar) {state : State}
    (reached : Reached grammar tokens count state) : grammar.Viable ((tokens.take count).map (·.kind)) := by
  have valid := reached.partialDerivation.2.valid state.frame (by simp)
  obtain ⟨trees,derived⟩ := productive.derivesAll (Grammar.rule_of_mem_alternatives valid.alternative) valid.rest_subset
  exact Grammar.Viable.of_append (reached.partialDerivation.2.viable productive derived)

/-- So do these tokens and one of a kind that the state waits for. -/
theorem viable_of_waits (productive : Productive grammar) {state : State} {kind : TokenKind}
    (reached : Reached grammar tokens count state) (waits : Waits state kind) :
    grammar.Viable ((tokens.take count).map (·.kind) ++ [kind]) := by
  obtain ⟨tail,next⟩ := waits
  have valid := reached.partialDerivation.2.valid state.frame (by simp)
  have known : tail ⊆ state.frame.production.rule.rhs := fun symbol member =>
    valid.rest_subset (by rw [next]; exact List.mem_cons_of_mem _ member)
  obtain ⟨trees,derived⟩ := productive.derivesAll (Grammar.rule_of_mem_alternatives valid.alternative) known
  have both : grammar.DerivesAll state.frame.rest (.leaf (.bare kind) :: trees) := by
    rw [next]
    exact ⟨rfl,derived⟩
  have viable := reached.partialDerivation.2.viable productive both
  rw [Tree.forestTokens,Tree.tokens,List.map_append,← List.append_assoc] at viable
  exact Grammar.Viable.of_append viable

/-! ### The way of a derivation through the tokens -/

/-- Only the tokens before a state lead to it. -/
theorem Reached.of_take {others : List Token} {state : State} (reached : Reached grammar tokens count state)
    (same : tokens.take count = others.take count) : Reached grammar others count state := by
  induction reached with
  | start alternative => exact .start alternative
  | step _ taken ih => exact (ih same).step taken
  | @scan count state token reached waits here ih =>
    have place : others[count]? = some token := by
      have own : (tokens.take (count + 1))[count]? = some token := by rw [List.getElem?_take_of_lt (by omega),here]
      rwa [same,List.getElem?_take_of_lt (by omega)] at own
    have earlier : tokens.take count = others.take count := by
      have shorter := congrArg (List.take count) same
      simpa [List.take_take] using shorter
    exact (ih earlier).scan waits place

/-- On the way to a state every earlier token was waited for. -/
theorem Reached.earlier {state : State} {before : Nat} (reached : Reached grammar tokens count state)
    (less : before < count) :
    ∃ token waiting, tokens[before]? = some token ∧ Waits waiting token.kind ∧ Reached grammar tokens before waiting := by
  induction reached with
  | start => omega
  | step _ _ ih => exact ih less
  | @scan count state token reached waits here ih =>
    rcases Nat.lt_succ_iff_lt_or_eq.mp less with earlier | rfl
    · exact ih earlier
    · exact ⟨token,state,here,waits,reached⟩

/-- A kind that can follow the tokens in a sentence is waited for behind them. -/
theorem waits_of_viable (followable : Followable grammar) {kind : TokenKind} (within : count ≤ tokens.length)
    (viable : grammar.Viable ((tokens.take count).map (·.kind) ++ [kind])) :
    ∃ state, Reached grammar tokens count state ∧ Waits state kind := by
  obtain ⟨rest,tree,derived,kinds⟩ := viable
  let others := tokens.take count ++ .bare kind :: rest.map Token.bare
  have length : (tokens.take count).length = count := List.length_take_of_le within
  have alike : others.map (·.kind) = tree.tokens.map (·.kind) := by
    rw [kinds]
    simp [others,Token.bare,Function.comp_def]
  obtain ⟨other,derivation⟩ := Grammar.exists_relabelled _ tree derived others alike
  obtain ⟨state,reached,-⟩ := derivation_found followable derivation
  have before : count < others.length := by
    simp [others]
    omega
  obtain ⟨token,waiting,here,waits,earlier⟩ := reached.earlier before
  have next : others[count]? = some (.bare kind) := by
    rw [List.getElem?_append_right (by omega),length,Nat.sub_self]
    rfl
  obtain rfl := Option.some.inj (next.symm.trans here)
  refine ⟨waiting,earlier.of_take ?_,waits⟩
  rw [List.take_append_of_le_length (by omega),List.take_take,Nat.min_self]

end Parser

end CFrontend
