import CFrontend.Proofs.Follow
import CFrontend.Proofs.Predecessor
import Mathlib.Logic.Relation

/-!
Reading derivations bottom up. A stack holds trees, the last one on top; a token is shifted onto it, and the
trees on top of it are reduced to the tree of a rule that they spell. Which items (rules with a place in
their right-hand sides) are valid for a stack depends on the symbols of its trees alone. Every
derivation is reached by steps that respect the valid items and what can follow (`reads_derivation`).
Where no two valid items clash there is at most one step to take, so no tokens have two derivations
(`unambiguous_of_apart`).
-/
namespace CFrontend.Grammar
open Relation (ReflTransGen)

variable {grammar : Grammar}

/-- No tokens have two derivations from the start symbol. -/
def Unambiguous (grammar : Grammar) : Prop :=
  ∀ tokens first second, grammar.DerivationOf tokens first → grammar.DerivationOf tokens second → first = second

/-- A rule and the number of symbols of its right-hand side that are behind. -/
structure Item where
  rule : Rule
  dot : Nat

namespace Item

/-- The symbol that comes next, if the item is not complete. -/
def next? (item : Item) : Option Symbol := item.rule.rhs[item.dot]?

/-- The item behind the next symbol. -/
def advance (item : Item) : Item := { item with dot := item.dot + 1 }

end Item

/-- The item can be under way when the symbols, the last one first, are on the stack. -/
inductive Valid (grammar : Grammar) : List Symbol → Item → Prop
  | start {rule : Rule} : rule ∈ grammar.rules → rule.lhs = grammar.start → Valid grammar [] ⟨rule,0⟩
  | predict {stack : List Symbol} {item : Item} {rule : Rule} : Valid grammar stack item →
    item.next? = some (.nonterminal rule.lhs) → rule ∈ grammar.rules → Valid grammar stack ⟨rule,0⟩
  | advance {stack : List Symbol} {item : Item} {symbol : Symbol} : Valid grammar stack item →
    item.next? = some symbol → Valid grammar (symbol :: stack) item.advance

theorem Valid.rule_mem {stack : List Symbol} {item : Item} (valid : grammar.Valid stack item) :
    item.rule ∈ grammar.rules := by
  induction valid with
  | start member _ => exact member
  | predict _ _ member => exact member
  | advance _ _ ih => exact ih

theorem Valid.dot_le {stack : List Symbol} {item : Item} (valid : grammar.Valid stack item) :
    item.dot ≤ item.rule.rhs.length := by
  cases valid with
  | start => exact Nat.zero_le _
  | predict => exact Nat.zero_le _
  | advance _ next => exact (List.getElem?_eq_some_iff.mp next).1

/-- The trees on the stack and the tokens that are left. -/
abbrev Configuration := List Tree × List Token

/-- One step of reading: a token that a valid item waits for is shifted, or the trees of a complete valid item are
    reduced before a token that can follow them. -/
inductive Reads (grammar : Grammar) : Configuration → Configuration → Prop
  | shift {stack : List Tree} {token : Token} {input : List Token} {item : Item} :
    grammar.Valid (stack.map Tree.symbol) item → item.next? = some (.terminal token.kind) →
    Reads grammar (stack,token :: input) (.leaf token :: stack,input)
  | reduce {trees children stack : List Tree} {input : List Token} {rule : Rule} :
    grammar.Valid (trees.map Tree.symbol) ⟨rule,rule.rhs.length⟩ → trees = children.reverse ++ stack →
    children.length = rule.rhs.length → grammar.Follows rule.lhs (lookahead input) →
    Reads grammar (trees,input) (.branch rule.lhs children :: stack,input)

/-! ### Every derivation is read -/

mutual

/-- A tree of the next symbol of a valid item is read onto the stack. -/
theorem reads_tree : (tree : Tree) → ∀ {name : String} {stack : List Tree} {item : Item} {rest : List Token},
    grammar.Derives (.nonterminal name) tree → grammar.Valid (stack.map Tree.symbol) item →
    item.next? = some (.nonterminal name) → grammar.Follows name (lookahead rest) →
    ReflTransGen grammar.Reads (stack,tree.tokens ++ rest) (tree :: stack,rest)
  | .leaf _, _, _, _, _, derived, _, _, _ => by simp [Derives] at derived
  | .branch label children, name, stack, item, rest, derived, valid, next, behind => by
    obtain ⟨rfl,rule,member,rfl,spelled⟩ := derived
    have whole : grammar.DerivesAll (rule.rhs.drop 0) children := spelled
    obtain ⟨read,complete⟩ := reads_forest children whole (valid.predict next member) behind
    have count : children.length = rule.rhs.length := by
      rw [← symbols_of_derivesAll spelled,List.length_map]
    exact read.tail (.reduce complete rfl count behind)

/-- The trees of the symbols that a valid item has left are read onto the stack one after another. -/
theorem reads_forest : (trees : List Tree) → ∀ {stack : List Tree} {rule : Rule} {dot : Nat} {rest : List Token},
    grammar.DerivesAll (rule.rhs.drop dot) trees → grammar.Valid (stack.map Tree.symbol) ⟨rule,dot⟩ →
    grammar.Follows rule.lhs (lookahead rest) →
    ReflTransGen grammar.Reads (stack,Tree.forestTokens trees ++ rest) (trees.reverse ++ stack,rest) ∧
      grammar.Valid ((trees.reverse ++ stack).map Tree.symbol) ⟨rule,rule.rhs.length⟩
  | [], stack, rule, dot, rest, derived, valid, behind => by
    have none : rule.rhs.drop dot = [] := by simpa [derivesAll_iff_forall] using derived
    have last : dot = rule.rhs.length := Nat.le_antisymm valid.dot_le (List.drop_eq_nil_iff.mp none)
    exact ⟨.refl,last ▸ valid⟩
  | tree :: trees, stack, rule, dot, rest, derived, valid, behind => by
    obtain ⟨symbol,tail,left,own,others⟩ := (derivesAll_tree_cons_iff _ tree trees).mp derived
    have next : rule.rhs[dot]? = some symbol := by rw [← List.head?_drop,left,List.head?_cons]
    have later : rule.rhs.drop (dot + 1) = tail := by rw [← List.tail_drop,left,List.tail_cons]
    have advanced : grammar.Valid ((tree :: stack).map Tree.symbol) ⟨rule,dot + 1⟩ := by
      rw [List.map_cons,symbol_of_derives own]
      exact valid.advance next
    obtain ⟨read,complete⟩ := reads_forest trees (later ▸ others) advanced behind
    have first : ReflTransGen grammar.Reads (stack,tree.tokens ++ (Tree.forestTokens trees ++ rest))
        (tree :: stack,Tree.forestTokens trees ++ rest) := by
      cases symbol with
      | nonterminal name =>
        have split : rule.rhs = rule.rhs.take dot ++ .nonterminal name :: tail := by rw [← left,List.take_append_drop]
        have nearer := Follows.inside behind valid.rule_mem split others
        rw [← lookahead_append] at nearer
        exact reads_tree tree own valid next nearer
      | terminal kind =>
        obtain ⟨token,rfl,rfl⟩ := (derives_terminal_iff kind tree).mp own
        exact .single (.shift valid next)
    constructor
    · simpa [Tree.forestTokens] using first.trans read
    · simpa using complete

end

/-- Every derivation is read by shifting its tokens and reducing its nodes from left to right. -/
theorem reads_derivation {tokens : List Token} {tree : Tree} (derivation : grammar.DerivationOf tokens tree) :
    ReflTransGen grammar.Reads ([],tokens) ([tree],[]) ∧ tree.symbol = .nonterminal grammar.start := by
  obtain ⟨derived,rfl⟩ := derivation
  obtain ⟨rule,member,lhs,children,rfl,spelled⟩ := (derives_nonterminal_iff grammar.start tree).mp derived
  have whole : grammar.DerivesAll (rule.rhs.drop 0) children := spelled
  have root : grammar.Valid (List.map Tree.symbol []) ⟨rule,0⟩ := .start member lhs
  have ending : grammar.Follows rule.lhs (lookahead []) := lhs ▸ .start
  obtain ⟨read,complete⟩ := reads_forest children whole root ending
  have count : children.length = rule.rhs.length := by
    rw [← symbols_of_derivesAll spelled,List.length_map]
  have last := read.tail (.reduce complete rfl count ending)
  rw [List.append_nil,lhs] at last
  exact ⟨last,rfl⟩

/-! ### At most one step -/

/-- The items ask for different steps before some token: the first one is complete, and what can follow it is what
    the second one waits for, or can follow the second one too, which is complete by another rule. -/
def Clash (grammar : Grammar) (first second : Item) : Prop :=
  first.next? = none ∧
    ((∃ kind, second.next? = some (.terminal kind) ∧ grammar.Follows first.rule.lhs (some kind)) ∨
      (second.next? = none ∧ first.rule ≠ second.rule ∧
        ∃ next, grammar.Follows first.rule.lhs next ∧ grammar.Follows second.rule.lhs next))

/-- No two items that are valid for one stack clash. -/
def Apart (grammar : Grammar) : Prop :=
  ∀ stack first second, grammar.Valid stack first → grammar.Valid stack second → ¬ grammar.Clash first second

private theorem next?_complete (rule : Rule) : Item.next? ⟨rule,rule.rhs.length⟩ = none :=
  List.getElem?_eq_none (Nat.le_refl _)

private theorem reads_rightUnique (apart : grammar.Apart) : Relator.RightUnique grammar.Reads := by
  -- A token that can be shifted cannot follow a complete item.
  have shifts : ∀ {trees : List Tree} {token : Token} {input : List Token} {item : Item} {rule : Rule},
      grammar.Valid (trees.map Tree.symbol) item → item.next? = some (.terminal token.kind) →
      grammar.Valid (trees.map Tree.symbol) ⟨rule,rule.rhs.length⟩ →
      ¬ grammar.Follows rule.lhs (lookahead (token :: input)) := by
    intro trees token input item rule valid next complete behind
    exact apart _ _ _ complete valid ⟨next?_complete rule,.inl ⟨token.kind,next,behind⟩⟩
  intro before after after' read read'
  cases read with
  | shift valid next =>
    cases read' with
    | shift => rfl
    | reduce complete _ _ behind => exact absurd behind (shifts valid next complete)
  | @reduce trees children stack input rule complete split count behind =>
    cases read' with
    | shift valid next => exact absurd behind (shifts valid next complete)
    | @reduce _ children' stack' _ rule' complete' split' count' behind' =>
      have same : rule = rule' := by
        by_contra differ
        exact apart _ _ _ complete complete' ⟨next?_complete rule,.inr ⟨next?_complete rule',differ,_,behind,behind'⟩⟩
      subst same
      have lengths : children.reverse.length = children'.reverse.length := by simp [count,count']
      obtain ⟨parts,rest⟩ := List.append_inj (split.symm.trans split') lengths
      rw [List.reverse_inj.mp parts,rest]

private theorem not_valid_start (unused : ∀ rule ∈ grammar.rules, Symbol.nonterminal grammar.start ∉ rule.rhs)
    {stack : List Symbol} {item : Item} : ¬ grammar.Valid (.nonterminal grammar.start :: stack) item := by
  intro valid
  generalize whole : Symbol.nonterminal grammar.start :: stack = symbols at valid
  induction valid with
  | start => simp at whole
  | predict _ _ _ ih => exact ih whole
  | advance earlier next =>
    obtain ⟨rfl,-⟩ := List.cons.inj whole
    exact unused _ earlier.rule_mem (List.mem_of_getElem? next)

/-- Where no two valid items clash and no rule mentions the start symbol, no tokens have two derivations. -/
theorem unambiguous_of_apart (apart : grammar.Apart)
    (unused : ∀ rule ∈ grammar.rules, Symbol.nonterminal grammar.start ∉ rule.rhs) : grammar.Unambiguous := by
  -- A derivation that is read completely leaves no step to take.
  have stuck : ∀ {tree : Tree} {after : Configuration}, tree.symbol = .nonterminal grammar.start →
      ReflTransGen grammar.Reads ([tree],[]) after → ([tree],[]) = after := by
    intro tree after root steps
    rcases steps.cases_head with same | ⟨next,read,-⟩
    · exact same
    · cases read with
      | reduce complete =>
        rw [List.map_cons,root] at complete
        exact absurd complete (not_valid_start unused)
  intro tokens first second derivation derivation'
  obtain ⟨steps,root⟩ := reads_derivation derivation
  obtain ⟨steps',root'⟩ := reads_derivation derivation'
  rcases steps.total_of_right_unique (reads_rightUnique apart) steps' with onward | onward
  · simpa using stuck root onward
  · simpa using (stuck root' onward).symm

end CFrontend.Grammar
