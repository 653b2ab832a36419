import CFrontend.Grammar.CLanguage
import CFrontend.Proofs.Recursion
import Mathlib.Logic.Relation

/-!
Left corners and the grammars whose recursion the parser follows in full. A nonterminal has another
one as a left corner when a rule has it behind nullable symbols only. The parser grows recursion back
where it goes through the first symbols of rules; `Followable` says that no other recursion
is there to be lost. The grammar of C is of this kind.
-/
namespace CFrontend.Grammar
open Relation (ReflTransGen TransGen)

variable {grammar : Grammar}

/-- A rule of the first nonterminal has the second one behind nullable symbols only. -/
def LeftCorner (grammar : Grammar) (name corner : String) : Prop :=
  ∃ rule ∈ grammar.rules, rule.lhs = name ∧ ∃ before after,
    rule.rhs = before ++ .nonterminal corner :: after ∧ ∀ symbol ∈ before, grammar.Nullable symbol

/-- A rule of the first nonterminal has the second one among nullable symbols only. -/
def LoneCorner (grammar : Grammar) (name corner : String) : Prop :=
  ∃ rule ∈ grammar.rules, rule.lhs = name ∧ ∃ before after, rule.rhs = before ++ .nonterminal corner :: after ∧
    (∀ symbol ∈ before, grammar.Nullable symbol) ∧ ∀ symbol ∈ after, grammar.Nullable symbol

/-- One nonterminal of a sequence of symbols is replaced by the right-hand side of a rule of it. -/
def Rewrites (grammar : Grammar) (old new : List Symbol) : Prop :=
  ∃ rule ∈ grammar.rules, ∃ left right,
    old = left ++ .nonterminal rule.lhs :: right ∧ new = left ++ rule.rhs ++ right

/-- No recursion is hidden behind a nullable prefix, no nonterminal derives itself alone, and the start
    symbol is not its own left corner. -/
structure Followable (grammar : Grammar) : Prop where
  unhidden : ∀ rule ∈ grammar.rules, ∀ before corner after, rule.rhs = before ++ .nonterminal corner :: after →
    before ≠ [] → (∀ symbol ∈ before, grammar.Nullable symbol) →
      ¬ ReflTransGen grammar.LeftCorner corner rule.lhs
  acyclic : ∀ name, ¬ TransGen grammar.Rewrites [.nonterminal name] [.nonterminal name]
  startFree : ¬ TransGen grammar.LeftCorner grammar.start grammar.start

/-! ### Rewriting -/

private theorem rewrites_context {old new : List Symbol} (rewritten : grammar.Rewrites old new) (front back : List Symbol) :
    grammar.Rewrites (front ++ old ++ back) (front ++ new ++ back) := by
  obtain ⟨rule,member,left,right,rfl,rfl⟩ := rewritten
  exact ⟨rule,member,front ++ left,right ++ back,by simp,by simp⟩

private theorem rewrites_star_context {old new : List Symbol} (rewritten : ReflTransGen grammar.Rewrites old new)
    (front back : List Symbol) :
    ReflTransGen grammar.Rewrites (front ++ old ++ back) (front ++ new ++ back) :=
  rewritten.lift (fun symbols => front ++ symbols ++ back) fun _ _ step => rewrites_context step front back

mutual

private theorem rewrites_nil_of_empty : (symbol : Symbol) → (tree : Tree) → grammar.Derives symbol tree →
    tree.tokens = [] → ReflTransGen grammar.Rewrites [symbol] []
  | .terminal kind, tree, derived, empty => absurd ⟨tree,derived,empty⟩ (not_nullable_terminal kind)
  | .nonterminal _, .leaf _, derived, _ => by simp [Derives] at derived
  | .nonterminal name, .branch label children, derived, empty => by
    obtain ⟨rfl,rule,member,lhs,below⟩ := derived
    have first : grammar.Rewrites [.nonterminal label] rule.rhs := ⟨rule,member,[],[],by simp [lhs],by simp⟩
    exact .head first (rewrites_nil_of_forest rule.rhs children below empty)

private theorem rewrites_nil_of_forest : (symbols : List Symbol) → (trees : List Tree) → grammar.DerivesAll symbols trees →
    Tree.forestTokens trees = [] → ReflTransGen grammar.Rewrites symbols []
  | [], _, _, _ => .refl
  | _ :: _, [], derived, _ => by simp [DerivesAll] at derived
  | symbol :: symbols, tree :: trees, derived, empty => by
    simp only [Tree.forestTokens,List.append_eq_nil_iff] at empty
    have first := rewrites_star_context (rewrites_nil_of_empty symbol tree derived.1 empty.1) [] symbols
    exact first.trans (by simpa using rewrites_nil_of_forest symbols trees derived.2 empty.2)

end

private theorem rewrites_nil {symbols : List Symbol} (nullable : ∀ symbol ∈ symbols, grammar.Nullable symbol) :
    ReflTransGen grammar.Rewrites symbols [] := by
  obtain ⟨trees,derived,empty⟩ := derivesAll_of_nullable nullable
  exact rewrites_nil_of_forest symbols trees derived empty

private theorem rewrites_first {name next : String} {production : Production}
    (alternative : production ∈ grammar.alternatives name)
    (first : production.rule.rhs.head? = some (.nonterminal next))
    (nullable : ∀ symbol ∈ production.rule.rhs.tail, grammar.Nullable symbol) :
    TransGen grammar.Rewrites [.nonterminal name] [.nonterminal next] := by
  obtain ⟨tail,rhs⟩ := List.head?_eq_some_iff.mp first
  have replaced : grammar.Rewrites [.nonterminal name] (.nonterminal next :: tail) :=
    ⟨production.rule,rule_of_mem_alternatives alternative,[],[],
      by simp [lhs_of_mem_alternatives alternative],by simp [rhs]⟩
  have dropped := rewrites_star_context (rewrites_nil nullable) [.nonterminal next] []
  rw [rhs] at dropped
  exact TransGen.head' replaced (by simpa using dropped)

private theorem LeftChain.rewrites {source target : String} {chain : List Production}
    (linked : LeftChain grammar source chain target)
    (nullable : ∀ production ∈ chain, ∀ symbol ∈ production.rule.rhs.tail, grammar.Nullable symbol) :
    ReflTransGen grammar.Rewrites [.nonterminal source] [.nonterminal target] := by
  induction linked with
  | nil => exact .refl
  | cons alternative first others ih =>
    have here := rewrites_first alternative first (nullable _ (by simp))
    exact here.to_reflTransGen.trans (ih fun production member => nullable production (by simp [member]))

/-- Where no nonterminal derives itself alone, every simple cycle is in the index. -/
theorem Followable.mem_cycles (followable : Followable grammar) {root : String} {cycle : Cycle}
    (simple : SimpleCycle grammar root cycle) : cycle ∈ grammar.cycles root := by
  rw [mem_cycles_iff,consumes_nullable_iff]
  refine ⟨simple,?_⟩
  by_contra none
  push Not at none
  obtain ⟨nonempty,linked,-⟩ := simple
  cases linked with
  | nil => exact nonempty rfl
  | cons alternative first others =>
    have here := rewrites_first alternative first (none _ (by simp))
    exact followable.acyclic root (here.trans_left (others.rewrites fun step member => none step (by simp [member])))

/-! ### Chains and left corners -/

private theorem leftCorner_first {name next : String} {production : Production}
    (alternative : production ∈ grammar.alternatives name)
    (first : production.rule.rhs.head? = some (.nonterminal next)) : grammar.LeftCorner name next := by
  obtain ⟨tail,rhs⟩ := List.head?_eq_some_iff.mp first
  exact ⟨production.rule,rule_of_mem_alternatives alternative,lhs_of_mem_alternatives alternative,[],tail,
    by simp [rhs],by simp⟩

theorem LeftChain.corners {source target : String} {chain : List Production}
    (linked : LeftChain grammar source chain target) : ReflTransGen grammar.LeftCorner source target := by
  induction linked with
  | nil => exact .refl
  | cons alternative first others ih => exact .head (leftCorner_first alternative first) ih

/-- A nonterminal on a chain is a left corner of its start and has its end as one. -/
theorem LeftChain.corners_through {source target : String} {chain : List Production}
    (linked : LeftChain grammar source chain target) {production : Production} (member : production ∈ chain) :
    ReflTransGen grammar.LeftCorner source production.rule.lhs ∧
      ReflTransGen grammar.LeftCorner production.rule.lhs target := by
  obtain ⟨front,back,rfl⟩ := List.append_of_mem member
  obtain ⟨middle,before,after⟩ := (leftChain_append_iff source target front (production :: back)).mp linked
  obtain rfl := after.head_lhs
  exact ⟨before.corners,after.corners⟩

/-! ### Checking a grammar -/

/-- The nonterminals of a sequence that stand among nullable symbols only. -/
def loneCorners (nullable : List String) : List Symbol → List String
  | [] => []
  | symbol :: rest =>
    (match symbol with
      | .nonterminal name => if allNullable nullable rest then [name] else []
      | .terminal _ => []) ++
    if allNullable nullable [symbol] then loneCorners nullable rest else []

private theorem mem_loneCorners {nullable : List String} {before after : List Symbol} {corner : String}
    (left : allNullable nullable before = true) (right : allNullable nullable after = true) :
    corner ∈ loneCorners nullable (before ++ .nonterminal corner :: after) := by
  induction before with
  | nil => simp [loneCorners,right]
  | cons symbol rest ih =>
    have parts : allNullable nullable [symbol] = true ∧ allNullable nullable rest = true := by
      simpa [allNullable] using left
    simp [loneCorners,parts.1,ih parts.2]

private theorem split_append {α : Type} {left right before after : List α} {element : α}
    (split : left ++ right = before ++ element :: after) :
    (∃ more, left = before ++ element :: more ∧ after = more ++ right) ∨
      ∃ more, right = more ++ element :: after ∧ before = left ++ more := by
  rcases List.append_eq_append_iff.mp split with ⟨more,rfl,rfl⟩ | ⟨more,rfl,rest⟩
  · exact .inr ⟨more,rfl,rfl⟩
  · cases more with
    | nil => exact .inr ⟨[],by simpa using rest.symm,by simp⟩
    | cons head more =>
      obtain ⟨rfl,rfl⟩ := List.cons.inj rest
      exact .inl ⟨more,rfl,rfl⟩

/-- A sequence that can be rewritten to one nonterminal has, among nullable symbols, a nonterminal that leads to it
    through lone corners. -/
theorem lone_of_rewrites {symbols : List Symbol} {target : String}
    (rewritten : ReflTransGen grammar.Rewrites symbols [.nonterminal target]) :
    ∃ before name after, symbols = before ++ .nonterminal name :: after ∧ ReflTransGen grammar.LoneCorner name target ∧
      (∀ symbol ∈ before, grammar.Nullable symbol) ∧ ∀ symbol ∈ after, grammar.Nullable symbol := by
  induction rewritten using ReflTransGen.head_induction_on with
  | refl => exact ⟨[],target,[],rfl,.refl,by simp,by simp⟩
  | head step _ ih =>
    obtain ⟨rule,member,left,right,rfl,rfl⟩ := step
    obtain ⟨before,name,after,split,below,front,back⟩ := ih
    -- The nonterminal stands before the new symbols, among them or after them.
    rcases split_append split with ⟨more,inner,rfl⟩ | ⟨more,rfl,rfl⟩
    · rcases split_append inner with ⟨others,rfl,rfl⟩ | ⟨others,rhs,rfl⟩
      · have nullable : grammar.Nullable (.nonterminal rule.lhs) :=
          nullable_of_rule member fun symbol own => back symbol (by simp [own])
        refine ⟨before,name,others ++ .nonterminal rule.lhs :: right,by simp,below,front,?_⟩
        intro symbol own
        simp only [List.mem_append,List.mem_cons] at own
        rcases own with own | rfl | own
        · exact back symbol (by simp [own])
        · exact nullable
        · exact back symbol (by simp [own])
      · have lone : grammar.LoneCorner rule.lhs name := ⟨rule,member,rfl,others,more,rhs,
          fun symbol own => front symbol (by simp [own]),fun symbol own => back symbol (by simp [own])⟩
        refine ⟨left,rule.lhs,right,rfl,below.head lone,?_,?_⟩
        · intro symbol own; exact front symbol (by simp [own])
        · intro symbol own; exact back symbol (by simp [own])
    · have nullable : grammar.Nullable (.nonterminal rule.lhs) :=
        nullable_of_rule member fun symbol own => front symbol (by simp [own])
      refine ⟨left ++ .nonterminal rule.lhs :: more,name,after,by simp,below,?_,back⟩
      intro symbol own
      simp only [List.mem_append,List.mem_cons] at own
      rcases own with own | rfl | own
      · exact front symbol (by simp [own])
      · exact nullable
      · exact front symbol (by simp [own])

/-- A nonterminal that derives itself alone leads back to itself through lone corners. -/
theorem lone_of_cyclic {name : String} (cyclic : TransGen grammar.Rewrites [.nonterminal name] [.nonterminal name]) :
    TransGen grammar.LoneCorner name name := by
  obtain ⟨symbols,⟨rule,member,left,right,split,rfl⟩,rest⟩ := TransGen.head'_iff.mp cyclic
  obtain ⟨rfl,rfl,rfl⟩ : left = [] ∧ rule.lhs = name ∧ right = [] := by
    cases left with
    | nil => simpa [eq_comm] using split
    | cons head more => simp at split
  rw [List.nil_append,List.append_nil] at rest
  obtain ⟨before,corner,after,rhs,below,front,back⟩ := lone_of_rewrites rest
  exact .head' ⟨rule,member,rfl,before,after,rhs,front,back⟩ below

/-- A relation along which a rank falls does not lead back. -/
theorem not_cyclic_of_rank {relation : String → String → Prop} (rank : String → Nat)
    (falls : ∀ name corner, relation name corner → rank corner < rank name) (name : String) :
    ¬ TransGen relation name name := by
  have along : ∀ target, TransGen relation name target → rank target < rank name := by
    intro target path
    induction path with
    | single step => exact falls _ _ step
    | tail _ step ih => exact Nat.lt_trans (falls _ _ step) ih
  exact fun cyclic => Nat.lt_irrefl (rank name) (along name cyclic)

/-- No nonterminal derives itself alone when each has a higher rank than what stands alone in its rules. -/
theorem acyclic_of_rank (rank : String → Nat)
    (falls : ∀ rule ∈ grammar.rules, ∀ corner ∈ loneCorners grammar.nullable rule.rhs, rank corner < rank rule.lhs)
    (name : String) : ¬ TransGen grammar.Rewrites [.nonterminal name] [.nonterminal name] := by
  refine fun cyclic => not_cyclic_of_rank rank ?_ name (lone_of_cyclic cyclic)
  rintro _ corner ⟨rule,member,rfl,before,after,rhs,front,back⟩
  refine falls rule member corner ?_
  rw [rhs]
  exact mem_loneCorners ((allNullable_nullable_iff grammar before).mpr front)
    ((allNullable_nullable_iff grammar after).mpr back)

/-- A grammar is followable when no rule of several symbols begins with a nullable one, no rule mentions
    the start symbol, and ranks fall along lone corners. -/
theorem followable_of_checks (rank : String → Nat)
    (falls : ∀ rule ∈ grammar.rules, ∀ corner ∈ loneCorners grammar.nullable rule.rhs, rank corner < rank rule.lhs)
    (firsts : ∀ rule ∈ grammar.rules, rule.rhs.length ≤ 1 ∨ allNullable grammar.nullable (rule.rhs.take 1) = false)
    (unused : ∀ rule ∈ grammar.rules, Symbol.nonterminal grammar.start ∉ rule.rhs) : Followable grammar := by
  refine ⟨?_,acyclic_of_rank rank falls,?_⟩
  · intro rule member before corner after rhs nonempty nullable
    obtain ⟨first,more,rfl⟩ := List.exists_cons_of_ne_nil nonempty
    rcases firsts rule member with short | solid
    · simp [rhs] at short
    · have empty := (allNullable_nullable_iff grammar [first]).mpr (by simpa using nullable first (by simp))
      simp [rhs,empty] at solid
  · intro recursive
    obtain ⟨name,-,rule,member,-,before,after,rhs,-⟩ := TransGen.tail'_iff.mp recursive
    exact unused rule member (by simp [rhs])

/-! ### Grammars without left recursion -/

private theorem LoneCorner.leftCorner {name corner : String} (lone : grammar.LoneCorner name corner) :
    grammar.LeftCorner name corner := by
  obtain ⟨rule,member,lhs,before,after,rhs,front,-⟩ := lone
  exact ⟨rule,member,lhs,before,after,rhs,front⟩

/-- A grammar is followable when no nonterminal is its own left corner. -/
theorem followable_of_nonrecursive (nonrecursive : ∀ name, ¬ TransGen grammar.LeftCorner name name) :
    Followable grammar := by
  refine ⟨?_,?_,nonrecursive grammar.start⟩
  · intro rule member before corner after rhs _ nullable back
    have first : grammar.LeftCorner rule.lhs corner := ⟨rule,member,rfl,before,after,rhs,nullable⟩
    exact nonrecursive rule.lhs (.head' first back)
  · intro name cyclic
    exact nonrecursive name (TransGen.mono (fun _ _ => LoneCorner.leftCorner) _ _ (lone_of_cyclic cyclic))

/-- Where no nonterminal is its own left corner, there is no recursion to grow back. -/
theorem cycles_eq_nil (nonrecursive : ∀ name, ¬ TransGen grammar.LeftCorner name name) (name : String) :
    grammar.cycles name = [] := by
  rw [List.eq_nil_iff_forall_not_mem]
  intro cycle recorded
  obtain ⟨⟨nonempty,linked,-⟩,-⟩ := (mem_cycles_iff grammar name cycle).mp recorded
  cases linked with
  | nil => exact nonempty rfl
  | cons alternative first others => exact nonrecursive name (.head' (leftCorner_first alternative first) others.corners)

/-- The nonterminals of a sequence that stand behind nullable symbols only. -/
def leftCorners (nullable : List String) : List Symbol → List String
  | [] => []
  | symbol :: rest =>
    (match symbol with
      | .nonterminal name => [name]
      | .terminal _ => []) ++
    if allNullable nullable [symbol] then leftCorners nullable rest else []

private theorem mem_leftCorners {nullable : List String} {before after : List Symbol} {corner : String}
    (left : allNullable nullable before = true) : corner ∈ leftCorners nullable (before ++ .nonterminal corner :: after) := by
  induction before with
  | nil => simp [leftCorners]
  | cons symbol rest ih =>
    have parts : allNullable nullable [symbol] = true ∧ allNullable nullable rest = true := by
      simpa [allNullable] using left
    simp [leftCorners,parts.1,ih parts.2]

/-- No nonterminal is its own left corner when each has a higher rank than the left corners in its rules. -/
theorem nonrecursive_of_rank (rank : String → Nat)
    (falls : ∀ rule ∈ grammar.rules, ∀ corner ∈ leftCorners grammar.nullable rule.rhs, rank corner < rank rule.lhs)
    (name : String) : ¬ TransGen grammar.LeftCorner name name := by
  refine not_cyclic_of_rank rank ?_ name
  rintro _ corner ⟨rule,member,rfl,before,after,rhs,front⟩
  refine falls rule member corner ?_
  rw [rhs]
  exact mem_leftCorners ((allNullable_nullable_iff grammar before).mpr front)

end CFrontend.Grammar

namespace CFrontend.CLanguage
open Grammar (loneCorners allNullable)

/-- The nonterminals of C with a rule that has a nonterminal alone, each before those that it has so. -/
def loneOrder : List String :=
  ["Start","TopStatements","TopStatement","ForwardDeclaration","ParameterList","Parameters","Parameter",
    "TypeDeclaration","InitializerList","Initializer","ForInit","Declaration","Type","Specifiers","Specifier",
    "Fields","Enumerators","BlockItems","BlockItem","Statement","IfBody","OpenTail","Matched","Simple",
    "OptExpression","Arguments","ArgumentList","Expression","Assignment","Conditional","LogicalOr","LogicalAnd",
    "BitOr","BitXor","BitAnd","Equality","Relational","Shift","Additive","Multiplicative","Cast","Unary","Postfix"]

/-- The place of a nonterminal in the order, counted from its end. -/
def loneRank (name : String) : Nat := loneOrder.length - loneOrder.idxOf name

/-- The parser follows all recursion of the grammar of C. -/
theorem followable : grammar.Followable :=
  Grammar.followable_of_checks loneRank (by decide +kernel) (by decide +kernel) (by decide +kernel)

end CFrontend.CLanguage
