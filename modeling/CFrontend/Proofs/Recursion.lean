import CFrontend.Grammar.Recursion
import CFrontend.Proofs.Nullable
import Mathlib.Data.List.Nodup

/-!
The recursion index is exact: the cycles of a nonterminal are the chains of productions that lead
from it back to it by their first symbols, pass no nonterminal twice and need a token.
-/
namespace CFrontend.Grammar

variable {grammar : Grammar}

/-! ### Alternatives -/

theorem mem_productionsFrom_iff (name : String) (production : Production) (rules : List Rule) (index : Nat) :
    production ∈ productionsFrom name index rules ↔
      production.rule.lhs = name ∧ index ≤ production.index ∧
        rules[production.index - index]? = some production.rule := by
  induction rules generalizing index with
  | nil => simp [productionsFrom]
  | cons rule rest ih =>
    have later : production ∈ productionsFrom name (index + 1) rest ↔
        production.rule.lhs = name ∧ index < production.index ∧
          (rule :: rest)[production.index - index]? = some production.rule := by
      rw [ih (index + 1)]
      refine and_congr_right fun _ => and_congr_right fun above => ?_
      rw [show production.index - index = production.index - (index + 1) + 1 by omega,List.getElem?_cons_succ]
    have here : production = ⟨index,rule⟩ ↔
        production.index = index ∧ (rule :: rest)[production.index - index]? = some production.rule := by
      obtain ⟨place,own⟩ := production
      simp only [Production.mk.injEq]
      refine and_congr_right ?_
      rintro rfl
      simp [eq_comm]
    simp only [productionsFrom]
    split
    · rename_i named
      rw [List.mem_cons,later,here]
      constructor
      · rintro (⟨same,found⟩ | ⟨own,above,found⟩)
        · have first : rule = production.rule := by simpa [same] using found
          exact ⟨first ▸ named,by omega,found⟩
        · exact ⟨own,by omega,found⟩
      · rintro ⟨own,above,found⟩
        rcases Nat.eq_or_lt_of_le above with same | below
        · exact .inl ⟨same.symm,found⟩
        · exact .inr ⟨own,below,found⟩
    · rename_i other
      rw [later]
      refine and_congr_right fun own => ⟨fun ⟨above,found⟩ => ⟨by omega,found⟩,fun ⟨above,found⟩ => ⟨?_,found⟩⟩
      rcases Nat.eq_or_lt_of_le above with same | below
      · have first : rule = production.rule := by simpa [same] using found
        exact absurd (first ▸ own) other
      · exact below

theorem mem_alternatives_iff (grammar : Grammar) (name : String) (production : Production) :
    production ∈ grammar.alternatives name ↔
      production.rule.lhs = name ∧ grammar.rules[production.index]? = some production.rule := by
  simp [alternatives,mem_productionsFrom_iff]

theorem lhs_of_mem_alternatives {name : String} {production : Production}
    (member : production ∈ grammar.alternatives name) : production.rule.lhs = name :=
  ((mem_alternatives_iff grammar name production).mp member).1

theorem rule_of_mem_alternatives {name : String} {production : Production}
    (member : production ∈ grammar.alternatives name) : production.rule ∈ grammar.rules :=
  List.mem_of_getElem? ((mem_alternatives_iff grammar name production).mp member).2

theorem exists_alternative {rule : Rule} (member : rule ∈ grammar.rules) :
    ∃ production ∈ grammar.alternatives rule.lhs, production.rule = rule := by
  obtain ⟨index,found⟩ := List.getElem?_of_mem member
  exact ⟨⟨index,rule⟩,(mem_alternatives_iff grammar rule.lhs ⟨index,rule⟩).mpr ⟨rfl,found⟩,rfl⟩

private theorem length_productionsFrom (name : String) (rules : List Rule) (index : Nat) :
    (productionsFrom name index rules).length = rules.countP fun rule => rule.lhs == name := by
  induction rules generalizing index with
  | nil => rfl
  | cons rule rest ih =>
    rw [productionsFrom,List.countP_cons]
    by_cases named : rule.lhs = name
    · simp [named,ih]
    · simp [named,ih]

/-- The start symbol has exactly one alternative. -/
theorem alternatives_start (grammar : Grammar) : ∃ production, grammar.alternatives grammar.start = [production] := by
  have sound := grammar.valid
  unfold fault? at sound
  split at sound
  · simp at sound
  · split at sound
    · simp at sound
    · rename_i counted
      rw [← List.length_eq_one_iff,alternatives,length_productionsFrom]
      simpa [startFault?] using counted

/-! ### Chains of first symbols -/

/-- The productions lead from one nonterminal to another, each by its first symbol. -/
inductive LeftChain (grammar : Grammar) : String → List Production → String → Prop
  | nil (name : String) : LeftChain grammar name [] name
  | cons {name next target : String} {production : Production} {rest : List Production}
      (alternative : production ∈ grammar.alternatives name)
      (first : production.rule.rhs.head? = some (.nonterminal next))
      (others : LeftChain grammar next rest target) : LeftChain grammar name (production :: rest) target

theorem LeftChain.single {name next : String} {production : Production}
    (alternative : production ∈ grammar.alternatives name)
    (first : production.rule.rhs.head? = some (.nonterminal next)) : LeftChain grammar name [production] next :=
  .cons alternative first (.nil next)

theorem leftChain_append_iff (source target : String) (front back : List Production) :
    LeftChain grammar source (front ++ back) target ↔
      ∃ middle, LeftChain grammar source front middle ∧ LeftChain grammar middle back target := by
  induction front generalizing source with
  | nil =>
    constructor
    · intro chain; exact ⟨source,.nil source,chain⟩
    · rintro ⟨middle,here,chain⟩; cases here; exact chain
  | cons production rest ih =>
    constructor
    · intro chain
      cases chain with
      | cons alternative first others =>
        obtain ⟨middle,before,after⟩ := (ih _).mp others
        exact ⟨middle,.cons alternative first before,after⟩
    · rintro ⟨middle,chain,after⟩
      cases chain with
      | cons alternative first others => exact .cons alternative first ((ih _).mpr ⟨middle,others,after⟩)

theorem LeftChain.alternative_of_mem {source target : String} {chain : List Production}
    (linked : LeftChain grammar source chain target) :
    ∀ production ∈ chain, production ∈ grammar.alternatives production.rule.lhs := by
  induction linked with
  | nil => simp
  | cons alternative first others ih =>
    intro production member
    rcases List.mem_cons.mp member with rfl | later
    · exact (lhs_of_mem_alternatives alternative).symm ▸ alternative
    · exact ih production later

theorem LeftChain.head_lhs {source target : String} {production : Production} {rest : List Production}
    (linked : LeftChain grammar source (production :: rest) target) : production.rule.lhs = source := by
  cases linked with
  | cons alternative first others => exact lhs_of_mem_alternatives alternative

private theorem LeftChain.names_subset {source target : String} {chain : List Production}
    (linked : LeftChain grammar source chain target) :
    chain.map (·.rule.lhs) ⊆ grammar.rules.map (·.lhs) := by
  intro name member
  obtain ⟨production,inside,rfl⟩ := List.mem_map.mp member
  exact List.mem_map_of_mem (rule_of_mem_alternatives (linked.alternative_of_mem production inside))

/-! ### The cycles of a nonterminal -/

/-- A chain from a nonterminal back to it that passes no nonterminal twice. -/
structure SimpleCycle (grammar : Grammar) (root : String) (cycle : Cycle) : Prop where
  nonempty : cycle ≠ []
  linked : LeftChain grammar root cycle root
  distinct : (cycle.map (·.rule.lhs)).Nodup

/-- A path, last production first, that the search of cycles of `root` may have taken to a name: it
    passes no nonterminal twice. -/
structure SearchPath (grammar : Grammar) (root : String) (path : List Production) (name : String) : Prop where
  distinct : (name :: path.map (·.rule.lhs)).Nodup
  known : path.map (·.rule.lhs) ⊆ grammar.rules.map (·.lhs)
  rooted : root ∈ name :: path.map (·.rule.lhs)

theorem SearchPath.extend {root name next : String} {path : List Production} {production : Production}
    (search : SearchPath grammar root path name) (alternative : production ∈ grammar.alternatives name)
    (unseen : next ∉ (production :: path).map (·.rule.lhs)) : SearchPath grammar root (production :: path) next := by
  have own := lhs_of_mem_alternatives alternative
  refine ⟨List.nodup_cons.mpr ⟨unseen,?_⟩,?_,List.mem_cons_of_mem _ ?_⟩
  · simpa [own] using search.distinct
  · exact List.cons_subset.mpr ⟨List.mem_map_of_mem (rule_of_mem_alternatives alternative),search.known⟩
  · simpa [own] using search.rooted

/-- A path that can go on is shorter than the list of rules. -/
theorem SearchPath.length_lt {root name : String} {path : List Production} {production : Production}
    (search : SearchPath grammar root path name) (alternative : production ∈ grammar.alternatives name) :
    path.length < grammar.rules.length := by
  have own : name ∈ grammar.rules.map (·.lhs) := by
    rw [← lhs_of_mem_alternatives alternative]
    exact List.mem_map_of_mem (rule_of_mem_alternatives alternative)
  have bound := (List.subperm_of_subset search.distinct (List.cons_subset.mpr ⟨own,search.known⟩)).length_le
  simp only [List.length_cons,List.length_map] at bound
  omega

private theorem consumes_reverse (nullable : List String) (cycle : Cycle) :
    consumes nullable cycle.reverse = consumes nullable cycle := List.any_reverse

theorem unseen_iff (path : List Production) (next : String) :
    next ∉ path.map (·.rule.lhs) ↔ (path.any fun step => step.rule.lhs == next) = false := by
  simp

/-- One step of the search: an alternative that begins with the root closes the cycle, and one that begins
    with an unseen nonterminal is searched further. -/
theorem mem_cyclesThrough_succ_iff (grammar : Grammar) (nullable : List String) (root : String) (cycle : Cycle)
    (depth : Nat) (path : List Production) (name : String) :
    cycle ∈ cyclesThrough grammar nullable root (depth + 1) path name ↔
      ∃ production ∈ grammar.alternatives name, ∃ next, production.rule.rhs.head? = some (.nonterminal next) ∧
        (next = root ∧ consumes nullable (production :: path) = true ∧ cycle = (production :: path).reverse ∨
          next ≠ root ∧ next ∉ (production :: path).map (·.rule.lhs) ∧
            cycle ∈ cyclesThrough grammar nullable root depth (production :: path) next) := by
  simp only [cyclesThrough,List.mem_flatMap]
  refine exists_congr fun production => and_congr_right fun _ => ?_
  cases rhs : production.rule.rhs with
  | nil => simp
  | cons symbol tail =>
    cases symbol with
    | terminal kind => simp
    | nonterminal next =>
      simp only [List.head?_cons,Option.some.injEq,Symbol.nonterminal.injEq,exists_eq_left',unseen_iff]
      by_cases closes : next = root
      · by_cases consuming : consumes nullable (production :: path) = true
        · simp [closes,consuming]
        · simp [closes,consuming]
      · by_cases seen : ((production :: path).any fun step => step.rule.lhs == next) = true
        · simp [closes,seen]
        · rw [Bool.not_eq_true] at seen
          simp [closes,seen]

/-- The search from a path finds the cycles that go on from it. A path of distinct nonterminals is no
    longer than the list of rules, so the depth never runs out. -/
theorem mem_cyclesThrough_iff (grammar : Grammar) (nullable : List String) (root : String) (cycle : Cycle)
    (depth : Nat) (path : List Production) (name : String) (search : SearchPath grammar root path name)
    (enough : grammar.rules.length ≤ depth + path.length) :
    cycle ∈ cyclesThrough grammar nullable root depth path name ↔
      ∃ more, more ≠ [] ∧ cycle = path.reverse ++ more ∧ LeftChain grammar name more root ∧
        (cycle.map (·.rule.lhs)).Nodup ∧ consumes nullable cycle = true := by
  induction depth generalizing path name with
  | zero =>
    simp only [cyclesThrough,List.not_mem_nil,false_iff]
    rintro ⟨more,some,-,linked,-⟩
    cases linked with
    | nil => exact some rfl
    | cons alternative first others =>
      have := search.length_lt alternative
      omega
  | succ depth ih =>
    rw [mem_cyclesThrough_succ_iff]
    constructor
    · rintro ⟨production,alternative,next,first,⟨rfl,consuming,rfl⟩ | ⟨differs,unseen,found⟩⟩
      · have own := lhs_of_mem_alternatives alternative
        refine ⟨[production],by simp,by simp,.single alternative first,?_,by rwa [consumes_reverse]⟩
        rw [List.map_reverse,List.nodup_reverse]
        simpa [own] using search.distinct
      · obtain ⟨more,-,rfl,linked,simple,consuming⟩ :=
          (ih (production :: path) next (search.extend alternative unseen) (by simp; omega)).mp found
        exact ⟨production :: more,by simp,by simp,.cons alternative first linked,simple,consuming⟩
    · rintro ⟨more,some,rfl,linked,simple,consuming⟩
      cases linked with
      | nil => exact absurd rfl some
      | @cons _ next _ production rest alternative first others =>
        refine ⟨production,alternative,next,first,?_⟩
        have own := lhs_of_mem_alternatives alternative
        have rearranged : path.reverse ++ production :: rest = (production :: path).reverse ++ rest := by simp
        cases rest with
        | nil =>
          cases others
          rw [rearranged,List.append_nil,consumes_reverse] at consuming
          exact .inl ⟨rfl,consuming,by simp⟩
        | cons step rest =>
          have reached : next = step.rule.lhs := others.head_lhs.symm
          have apart := simple
          rw [rearranged,List.map_append,List.nodup_append] at apart
          have unseen : next ∉ (production :: path).map (·.rule.lhs) := by
            intro seen
            refine apart.2.2 next ?_ next (by simp [reached]) rfl
            rwa [List.map_reverse,List.mem_reverse]
          have differs : next ≠ root := by
            rintro rfl
            exact unseen (by simpa [own] using search.rooted)
          refine .inr ⟨differs,unseen,?_⟩
          exact (ih (production :: path) next (search.extend alternative unseen) (by simp; omega)).mpr
            ⟨step :: rest,by simp,rearranged,others,simple,consuming⟩

/-- The cycles of a nonterminal are exactly its simple cycles that need a token. -/
theorem mem_cycles_iff (grammar : Grammar) (root : String) (cycle : Cycle) :
    cycle ∈ grammar.cycles root ↔ SimpleCycle grammar root cycle ∧ consumes grammar.nullable cycle = true := by
  rw [cycles,cyclesOf,mem_cyclesThrough_iff grammar grammar.nullable root cycle grammar.rules.length [] root
    ⟨by simp,by simp,by simp⟩ (by simp)]
  constructor
  · rintro ⟨more,nonempty,rfl,linked,distinct,consuming⟩
    exact ⟨⟨nonempty,linked,distinct⟩,consuming⟩
  · rintro ⟨⟨nonempty,linked,distinct⟩,consuming⟩
    exact ⟨cycle,nonempty,rfl,linked,distinct,consuming⟩

/-- A cycle needs a token when some production of it has more after its first symbol than nullable
    symbols. -/
theorem consumes_nullable_iff (grammar : Grammar) (cycle : Cycle) :
    consumes grammar.nullable cycle = true ↔
      ∃ production ∈ cycle, ¬ ∀ symbol ∈ production.rule.rhs.tail, grammar.Nullable symbol := by
  simp only [consumes,List.any_eq_true,Bool.not_eq_true',← Bool.not_eq_true,allNullable_nullable_iff]

private theorem lookup_map (names : List String) (value : String → List Cycle) (name : String) :
    (names.map fun other => (other,value other)).lookup name = if name ∈ names then some (value name) else none := by
  induction names with
  | nil => rfl
  | cons other rest ih =>
    rw [List.map_cons,List.lookup_cons,ih]
    by_cases same : name = other
    · simp [same]
    · have differs : (name == other) = false := by simpa using same
      simp [differs,same]

/-- The index has the cycles of every name; a name without rules has none. -/
theorem recursionIndex_get (grammar : Grammar) (name : String) :
    grammar.recursionIndex.get name = grammar.cycles name := by
  unfold RecursionIndex.get recursionIndex
  rw [lookup_map]
  split
  · rfl
  · rename_i missing
    symm
    rw [Option.getD_none,List.eq_nil_iff_forall_not_mem]
    intro cycle member
    obtain ⟨⟨nonempty,linked,-⟩,-⟩ := (mem_cycles_iff grammar name cycle).mp member
    obtain ⟨production,rest,rfl⟩ := List.exists_cons_of_ne_nil nonempty
    apply missing
    rw [nonterminals,List.mem_eraseDups,← linked.head_lhs]
    exact linked.names_subset (by simp)

end CFrontend.Grammar
