import CFrontend.Grammar.Nullable
import CFrontend.Proofs.Derivation
import Mathlib.Data.List.Perm.Subperm

/-!
The nullable set is exact: a nonterminal is in it when and only when some derivation tree of it has
no leaves. The passes stop by themselves, because each pass but the last adds a left-hand side
(`saturates_saturate`), and they stop at a set that is closed under the rules (`Saturates.closedUnder`).
-/
namespace CFrontend.Grammar

variable {grammar : Grammar}

/-- Every rule whose symbols are all in the set has its left-hand side in the set. -/
def ClosedUnder (rules : List Rule) (nullable : List String) : Prop :=
  ∀ rule ∈ rules, allNullable nullable rule.rhs = true → rule.lhs ∈ nullable

private theorem allNullable_iff (nullable : List String) (symbols : List Symbol) :
    allNullable nullable symbols = true ↔ ∀ symbol ∈ symbols, ∃ name ∈ nullable, symbol = .nonterminal name := by
  simp only [allNullable,List.all_eq_true]
  refine forall₂_congr fun symbol _ => ?_
  cases symbol with
  | terminal kind => simp
  | nonterminal name => simp

/-! ### What one pass over the rules adds -/

private theorem suffix_addNullable (nullable : List String) (rule : Rule) : nullable <:+ addNullable nullable rule := by
  unfold addNullable
  split
  · exact List.suffix_rfl
  · exact List.suffix_cons rule.lhs nullable

private theorem suffix_pass (rules : List Rule) (nullable : List String) : nullable <:+ rules.foldl addNullable nullable := by
  induction rules generalizing nullable with
  | nil => exact List.suffix_rfl
  | cons rule rest ih => exact (suffix_addNullable nullable rule).trans (ih (addNullable nullable rule))

private theorem closedUnder_of_pass {rules : List Rule} {nullable : List String}
    (same : (rules.foldl addNullable nullable).length = nullable.length) : ClosedUnder rules nullable := by
  induction rules with
  | nil => simp [ClosedUnder]
  | cons rule rest ih =>
    have first := (suffix_addNullable nullable rule).length_le
    have others := (suffix_pass rest (addNullable nullable rule)).length_le
    rw [List.foldl_cons] at same
    have kept : addNullable nullable rule = nullable :=
      ((suffix_addNullable nullable rule).eq_of_length (by omega)).symm
    rw [kept] at same
    intro other member derived
    rcases List.mem_cons.mp member with rfl | later
    · by_contra missing
      have longer := congrArg List.length kept
      simp [addNullable,missing,derived] at longer
    · exact ih same other later derived

/-- What a pass starts from and what it keeps: each name once, and each a left-hand side. -/
def Collected (rules : List Rule) (nullable : List String) : Prop :=
  nullable.Nodup ∧ nullable ⊆ rules.map (·.lhs)

private theorem collected_addNullable {rules : List Rule} {nullable : List String} {rule : Rule}
    (collected : Collected rules nullable) (member : rule ∈ rules) : Collected rules (addNullable nullable rule) := by
  unfold addNullable
  split
  · exact collected
  · rename_i added
    simp only [Bool.or_eq_true,List.contains_iff_mem,not_or] at added
    refine ⟨List.nodup_cons.mpr ⟨added.1,collected.1⟩,?_⟩
    exact List.cons_subset.mpr ⟨List.mem_map_of_mem member,collected.2⟩

private theorem collected_pass {rules : List Rule} (part : List Rule) {nullable : List String} (inside : part ⊆ rules)
    (collected : Collected rules nullable) : Collected rules (part.foldl addNullable nullable) := by
  induction part generalizing nullable with
  | nil => exact collected
  | cons rule rest ih =>
    obtain ⟨member,others⟩ := List.cons_subset.mp inside
    exact ih others (collected_addNullable collected member)

private theorem collected_length {rules : List Rule} {nullable : List String} (collected : Collected rules nullable) :
    nullable.length ≤ rules.length := by
  have bound := (List.subperm_of_subset collected.1 collected.2).length_le
  simpa using bound

/-! ### Passes until one adds nothing -/

/-- Passes over the rules lead from one set to another, at which a pass adds nothing. Their number is not bounded. -/
inductive Saturates (rules : List Rule) : List String → List String → Prop
  | unchanged {nullable : List String} (idle : rules.foldl addNullable nullable = nullable) :
      Saturates rules nullable nullable
  | changed {nullable result : List String} (adds : rules.foldl addNullable nullable ≠ nullable)
      (later : Saturates rules (rules.foldl addNullable nullable) result) : Saturates rules nullable result

theorem Saturates.unique {rules : List Rule} {nullable first second : List String}
    (left : Saturates rules nullable first) (right : Saturates rules nullable second) : first = second := by
  induction left with
  | unchanged idle =>
    cases right with
    | unchanged => rfl
    | changed adds => exact absurd idle adds
  | changed adds later ih =>
    cases right with
    | unchanged idle => exact absurd idle adds
    | changed _ others => exact ih others

/-- Adding nonterminals until nothing changes ends with a set to which no rule adds one. -/
theorem Saturates.closedUnder {rules : List Rule} {nullable result : List String}
    (saturates : Saturates rules nullable result) : ClosedUnder rules result := by
  induction saturates with
  | unchanged idle => exact closedUnder_of_pass (congrArg List.length idle)
  | changed _ _ ih => exact ih

/-- With enough passes left, it is not their number that ends them. -/
theorem saturates_saturate (rules : List Rule) (passes : Nat) (nullable : List String)
    (collected : Collected rules nullable) (enough : rules.length < passes + nullable.length) :
    Saturates rules nullable (saturate rules passes nullable) := by
  induction passes generalizing nullable with
  | zero =>
    have := collected_length collected
    omega
  | succ passes ih =>
    have grows := suffix_pass rules nullable
    simp only [saturate]
    split
    · rename_i same
      exact .unchanged (grows.eq_of_length same.symm).symm
    · rename_i longer
      have := grows.length_le
      refine .changed (fun idle => longer (congrArg List.length idle)) (ih _ ?_ (by omega))
      exact collected_pass rules (List.Subset.refl rules) collected

private theorem saturates_nil (rules : List Rule) : Saturates rules [] (saturate rules (rules.length + 1) []) :=
  saturates_saturate rules (rules.length + 1) [] ⟨List.nodup_nil,by simp⟩ (by simp)

theorem closedUnder_nullable (grammar : Grammar) : ClosedUnder grammar.rules grammar.nullable :=
  (saturates_nil grammar.rules).closedUnder

/-! ### Members derive no tokens -/

private theorem nullable_of_allNullable {nullable : List String}
    (sound : ∀ name ∈ nullable, grammar.Nullable (.nonterminal name)) {symbols : List Symbol}
    (all : allNullable nullable symbols = true) : ∀ symbol ∈ symbols, grammar.Nullable symbol := by
  intro symbol member
  obtain ⟨name,inside,rfl⟩ := (allNullable_iff nullable symbols).mp all symbol member
  exact sound name inside

private theorem sound_pass (rules : List Rule) (inside : rules ⊆ grammar.rules) (nullable : List String)
    (sound : ∀ name ∈ nullable, grammar.Nullable (.nonterminal name)) :
    ∀ name ∈ rules.foldl addNullable nullable, grammar.Nullable (.nonterminal name) := by
  induction rules generalizing nullable with
  | nil => exact sound
  | cons rule rest ih =>
    obtain ⟨member,others⟩ := List.cons_subset.mp inside
    apply ih others
    unfold addNullable
    split
    · exact sound
    · rename_i added
      simp only [Bool.or_eq_true,Bool.not_eq_true',not_or,Bool.not_eq_false] at added
      intro name found
      rcases List.mem_cons.mp found with rfl | earlier
      · exact nullable_of_rule member (nullable_of_allNullable sound added.2)
      · exact sound name earlier

private theorem sound_saturate (passes : Nat) (nullable : List String)
    (sound : ∀ name ∈ nullable, grammar.Nullable (.nonterminal name)) :
    ∀ name ∈ saturate grammar.rules passes nullable, grammar.Nullable (.nonterminal name) := by
  induction passes generalizing nullable with
  | zero => exact sound
  | succ passes ih =>
    simp only [saturate]
    split
    · exact sound
    · exact ih _ (sound_pass grammar.rules (List.Subset.refl _) nullable sound)

/-! ### What derives no tokens is a member -/

mutual

private theorem mem_of_empty {nullable : List String} (closed : ClosedUnder grammar.rules nullable) (name : String) :
    (tree : Tree) → grammar.Derives (.nonterminal name) tree → tree.tokens = [] → name ∈ nullable
  | .leaf token, derived, _ => by simp [Derives] at derived
  | .branch label children, derived, empty => by
    obtain ⟨rfl,rule,member,rfl,below⟩ := derived
    exact closed rule member (allNullable_of_empty closed rule.rhs children below empty)

private theorem allNullable_of_empty {nullable : List String} (closed : ClosedUnder grammar.rules nullable)
    (symbols : List Symbol) : (trees : List Tree) → grammar.DerivesAll symbols trees →
    Tree.forestTokens trees = [] → allNullable nullable symbols = true
  | [], derived, _ => by
    cases symbols with
    | nil => rfl
    | cons symbol rest => simp [DerivesAll] at derived
  | tree :: trees, derived, empty => by
    cases symbols with
    | nil => rfl
    | cons symbol rest =>
      obtain ⟨first,others⟩ := derived
      simp only [Tree.forestTokens,List.append_eq_nil_iff] at empty
      have below := allNullable_of_empty closed rest trees others empty.2
      cases symbol with
      | terminal kind => exact absurd ⟨tree,first,empty.1⟩ (not_nullable_terminal kind)
      | nonterminal name =>
        have member := mem_of_empty closed name tree first empty.1
        simp only [allNullable,List.all_cons,Bool.and_eq_true,List.contains_iff_mem] at below ⊢
        exact ⟨member,below⟩

end

/-- The nullable set has exactly the nonterminals that derive no tokens. -/
theorem mem_nullable_iff (grammar : Grammar) (name : String) :
    name ∈ grammar.nullable ↔ grammar.Nullable (.nonterminal name) := by
  constructor
  · exact sound_saturate (grammar.rules.length + 1) [] (by simp) name
  · rintro ⟨tree,derived,empty⟩
    exact mem_of_empty (closedUnder_nullable grammar) name tree derived empty

/-- Symbols pass the check against the nullable set when and only when each derives no tokens. -/
theorem allNullable_nullable_iff (grammar : Grammar) (symbols : List Symbol) :
    allNullable grammar.nullable symbols = true ↔ ∀ symbol ∈ symbols, grammar.Nullable symbol := by
  constructor
  · exact nullable_of_allNullable (fun name member => (mem_nullable_iff grammar name).mp member)
  · intro nullable
    obtain ⟨trees,derived,empty⟩ := derivesAll_of_nullable nullable
    exact allNullable_of_empty (closedUnder_nullable grammar) symbols trees derived empty

/-- A nonterminal is taken for nullable when and only when it has a derivation tree without leaves. On every list of rules
    the passes, begun with nothing, end by themselves, and they end at the set that the bounded passes give. -/
theorem nullable_exact :
    (∀ (grammar : Grammar) (name : String), grammar.nullable.contains name = true ↔
      ∃ tree, grammar.Derives (.nonterminal name) tree ∧ tree.tokens = []) ∧
    ∀ rules result, Saturates rules [] result ↔ result = saturate rules (rules.length + 1) [] := by
  refine ⟨fun grammar name => ?_,fun rules result => ⟨fun ends => ?_,?_⟩⟩
  · rw [List.contains_iff_mem]
    exact mem_nullable_iff grammar name
  · exact ends.unique (saturates_nil rules)
  · rintro rfl
    exact saturates_nil rules

end CFrontend.Grammar
