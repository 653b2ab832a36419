import CFrontend.Proofs.Recursion

/-!
A grammar with its start symbol wrapped: one rule more, that derives the old start symbol from a new
one. Productions keep their rules, and those behind the new rule move up by one place. The wrapped
grammar has the same alternatives, the same nullable symbols and the same cycles for
every name other than the new one.
-/
namespace CFrontend.Grammar

/-- The outer grammar is the inner one with a rule between the given ones that derives its start symbol
    from a name that it does not use. -/
structure Wraps (before after : List Rule) (inner outer : Grammar) : Prop where
  rules : inner.rules = before ++ after
  wrapped : outer.rules = before ++ ⟨outer.start,[.nonterminal inner.start]⟩ :: after
  unstarted : outer.start ≠ inner.start
  undefined : ∀ rule ∈ inner.rules, rule.lhs ≠ outer.start
  unused : ∀ rule ∈ inner.rules, .nonterminal outer.start ∉ rule.rhs

/-- Makes room for a production at a place. -/
def shift (place : Nat) (production : Production) : Production :=
  if production.index < place then production else ⟨production.index + 1,production.rule⟩

@[simp] theorem rule_shift (place : Nat) (production : Production) : (shift place production).rule = production.rule := by
  unfold shift
  split <;> rfl

variable {before after : List Rule} {inner outer : Grammar}

/-! ### Alternatives -/

private theorem productionsFrom_append (name : String) (first second : List Rule) (index : Nat) :
    productionsFrom name index (first ++ second) =
      productionsFrom name index first ++ productionsFrom name (index + first.length) second := by
  induction first generalizing index with
  | nil => simp [productionsFrom]
  | cons rule rest ih =>
    have place : index + (rule :: rest).length = index + 1 + rest.length := by simp; omega
    rw [place,List.cons_append,productionsFrom,productionsFrom,ih]
    split <;> rfl

private theorem productionsFrom_succ (name : String) (rules : List Rule) (index : Nat) :
    productionsFrom name (index + 1) rules =
      (productionsFrom name index rules).map fun production => ⟨production.index + 1,production.rule⟩ := by
  induction rules generalizing index with
  | nil => rfl
  | cons rule rest ih =>
    rw [productionsFrom,productionsFrom,ih]
    split <;> rfl

/-- The nonterminals of the inner grammar keep their alternatives, which only move behind the rules in front. -/
theorem Wraps.alternatives (wraps : Wraps before after inner outer) {name : String} (known : name ≠ outer.start) :
    outer.alternatives name = (inner.alternatives name).map (shift before.length) := by
  have unshifted : (productionsFrom name 0 before).map (shift before.length) = productionsFrom name 0 before := by
    conv_rhs => rw [← List.map_id (productionsFrom name 0 before)]
    apply List.map_congr_left
    intro production member
    obtain ⟨-,-,found⟩ := (mem_productionsFrom_iff name production before 0).mp member
    have := (List.getElem?_eq_some_iff.mp found).1
    rw [shift,if_pos (by omega),id]
  have shifted : (productionsFrom name before.length after).map (shift before.length) =
      productionsFrom name (before.length + 1) after := by
    rw [productionsFrom_succ]
    apply List.map_congr_left
    intro production member
    have := ((mem_productionsFrom_iff name production after before.length).mp member).2.1
    rw [shift,if_neg (by omega)]
  rw [Grammar.alternatives,Grammar.alternatives,wraps.rules,wraps.wrapped,productionsFrom_append,productionsFrom_append,
    List.map_append,unshifted,Nat.zero_add,shifted,productionsFrom,if_neg (Ne.symm known)]

/-- The new start symbol has the old one as its only alternative. -/
theorem Wraps.alternatives_start (wraps : Wraps before after inner outer) :
    outer.alternatives outer.start = [⟨before.length,⟨outer.start,[.nonterminal inner.start]⟩⟩] := by
  have none : ∀ index rules, rules ⊆ inner.rules → productionsFrom outer.start index rules = [] := by
    intro index rules inside
    rw [List.eq_nil_iff_forall_not_mem]
    intro production member
    obtain ⟨named,-,found⟩ := (mem_productionsFrom_iff _ production rules index).mp member
    exact wraps.undefined _ (inside (List.mem_of_getElem? found)) named
  rw [Grammar.alternatives,wraps.wrapped,productionsFrom_append,productionsFrom,if_pos rfl,
    none 0 before (by rw [wraps.rules]; simp),none _ after (by rw [wraps.rules]; simp),Nat.zero_add,List.nil_append]

/-! ### Derivations and nullable symbols -/

private theorem Wraps.mem_rules_iff (wraps : Wraps before after inner outer) (rule : Rule) :
    rule ∈ outer.rules ↔ rule ∈ inner.rules ∨ rule = ⟨outer.start,[.nonterminal inner.start]⟩ := by
  rw [wraps.wrapped,wraps.rules]
  simp only [List.mem_append,List.mem_cons]
  tauto

mutual

private theorem Wraps.derives_iff (wraps : Wraps before after inner outer) : (tree : Tree) → (symbol : Symbol) →
    symbol ≠ .nonterminal outer.start → (outer.Derives symbol tree ↔ inner.Derives symbol tree)
  | .leaf _, .terminal _, _ => by simp [Derives]
  | .leaf _, .nonterminal _, _ => by simp [Derives]
  | .branch _ _, .terminal _, _ => by simp [Derives]
  | .branch label children, .nonterminal name, known => by
    simp only [Derives]
    refine and_congr_right fun _ => exists_congr fun rule => ?_
    rw [wraps.mem_rules_iff]
    constructor
    · rintro ⟨member | rfl,lhs,derived⟩
      · exact ⟨member,lhs,(wraps.derivesAll_iff children rule.rhs (wraps.unused rule member)).mp derived⟩
      · exact absurd (by rw [← lhs]) known
    · rintro ⟨member,lhs,derived⟩
      exact ⟨.inl member,lhs,(wraps.derivesAll_iff children rule.rhs (wraps.unused rule member)).mpr derived⟩

private theorem Wraps.derivesAll_iff (wraps : Wraps before after inner outer) : (trees : List Tree) → (symbols : List Symbol) →
    .nonterminal outer.start ∉ symbols → (outer.DerivesAll symbols trees ↔ inner.DerivesAll symbols trees)
  | [], [], _ => by simp
  | [], _ :: _, _ => by simp [DerivesAll]
  | _ :: _, [], _ => by simp
  | tree :: rest, symbol :: symbols, known => by
    rw [List.mem_cons,not_or] at known
    simp only [DerivesAll]
    rw [wraps.derives_iff tree symbol (Ne.symm known.1),wraps.derivesAll_iff rest symbols known.2]

end

theorem Wraps.allNullable (wraps : Wraps before after inner outer) {symbols : List Symbol}
    (known : .nonterminal outer.start ∉ symbols) :
    allNullable outer.nullable symbols = allNullable inner.nullable symbols := by
  rw [Bool.eq_iff_iff,allNullable_nullable_iff,allNullable_nullable_iff]
  refine forall_congr' fun symbol => forall_congr' fun member => exists_congr fun tree => ?_
  rw [wraps.derives_iff tree symbol fun same => known (same ▸ member)]

/-! ### Cycles -/

theorem Wraps.consumes (wraps : Wraps before after inner outer) {cycle : Cycle}
    (known : ∀ production ∈ cycle, production.rule ∈ inner.rules) :
    Grammar.consumes outer.nullable (cycle.map (shift before.length)) = Grammar.consumes inner.nullable cycle := by
  rw [Bool.eq_iff_iff,Grammar.consumes,Grammar.consumes,List.any_map,List.any_eq_true,List.any_eq_true]
  refine exists_congr fun production => and_congr_right fun member => ?_
  have absent : .nonterminal outer.start ∉ production.rule.rhs.tail := fun inside =>
    wraps.unused _ (known production member) (List.mem_of_mem_tail inside)
  rw [Function.comp_apply,rule_shift,wraps.allNullable absent]

/-- More depth than there are rules finds no further cycles. -/
theorem cyclesThrough_succ (grammar : Grammar) (nullable : List String) (root : String) (depth : Nat)
    (path : List Production) (name : String) (search : SearchPath grammar root path name)
    (enough : grammar.rules.length ≤ depth + path.length) :
    cyclesThrough grammar nullable root (depth + 1) path name = cyclesThrough grammar nullable root depth path name := by
  induction depth generalizing path name with
  | zero =>
    have none : grammar.alternatives name = [] := by
      rw [List.eq_nil_iff_forall_not_mem]
      intro production alternative
      have := search.length_lt alternative
      omega
    rw [cyclesThrough,cyclesThrough,none,List.flatMap_nil]
  | succ depth ih =>
    rw [cyclesThrough,cyclesThrough.eq_def grammar nullable root (depth + 1)]
    apply List.flatMap_congr
    intro production alternative
    dsimp only
    split
    · rename_i next tail rhs
      split
      · rfl
      · split
        · rfl
        · rename_i fresh
          exact ih (production :: path) next
            (search.extend alternative ((unseen_iff (production :: path) next).mpr (by simpa using fresh))) (by simp; omega)
    · rfl

/-- The search for cycles from a nonterminal of the inner grammar never leaves this grammar. -/
theorem Wraps.cyclesThrough (wraps : Wraps before after inner outer) (root : String) (depth : Nat)
    (path : List Production) (name : String) (known : name ≠ outer.start)
    (own : ∀ production ∈ path, production.rule ∈ inner.rules) :
    Grammar.cyclesThrough outer outer.nullable root depth (path.map (shift before.length)) name =
      (Grammar.cyclesThrough inner inner.nullable root depth path name).map (List.map (shift before.length)) := by
  induction depth generalizing path name with
  | zero => rfl
  | succ depth ih =>
    rw [Grammar.cyclesThrough,Grammar.cyclesThrough,wraps.alternatives known,List.flatMap_map,List.map_flatMap]
    apply List.flatMap_congr
    intro production alternative
    have member := rule_of_mem_alternatives alternative
    have extended : ∀ step ∈ production :: path, step.rule ∈ inner.rules := by
      simpa [member] using own
    have seen : ∀ next, ((production :: path).map (shift before.length)).any (fun step => step.rule.lhs == next) =
        (production :: path).any fun step => step.rule.lhs == next := by
      intro next
      simp [List.any_map,Function.comp_def]
    rw [rule_shift,← List.map_cons]
    dsimp only
    split
    · rename_i next tail rhs
      have unknown : next ≠ outer.start := by
        rintro rfl
        exact wraps.unused _ member (by simp [rhs])
      rw [wraps.consumes extended,seen,ih (production :: path) next unknown extended]
      split
      · split <;> simp
      · split <;> rfl
    · rfl

/-- The nonterminals of the inner grammar keep their cycles. -/
theorem Wraps.cycles (wraps : Wraps before after inner outer) {name : String} (known : name ≠ outer.start) :
    outer.cycles name = (inner.cycles name).map (List.map (shift before.length)) := by
  have length : outer.rules.length = inner.rules.length + 1 := by
    rw [wraps.wrapped,wraps.rules]
    simp; omega
  rw [Grammar.cycles,cyclesOf,length]
  have found := wraps.cyclesThrough name (inner.rules.length + 1) [] name known (by simp)
  rw [List.map_nil] at found
  rw [found,cyclesThrough_succ inner inner.nullable name inner.rules.length [] name ⟨by simp,by simp,by simp⟩ (by simp)]
  rfl

end CFrontend.Grammar
