import CFrontend.Grammar.Basic
import CFrontend.Tree.Basic
import Mathlib.Data.List.Forall2

/-!
Derivation trees. A tree derives a symbol when every branch of it spells a rule of its
nonterminal; the tokens that it derives are its leaves from left to right. A symbol
is nullable when it derives no tokens at all.
-/
namespace CFrontend.Grammar

mutual

/-- The tree derives the symbol: a leaf is a token of the terminal's kind, and the children of a
    branch spell the right-hand side of a rule of its nonterminal. -/
def Derives (grammar : Grammar) : Symbol → Tree → Prop
  | .terminal kind, .leaf token => token.kind = kind
  | .nonterminal name, .branch label children =>
    label = name ∧ ∃ rule ∈ grammar.rules, rule.lhs = name ∧ DerivesAll grammar rule.rhs children
  | _, _ => False

/-- The trees derive the symbols, one tree for each symbol in order. -/
def DerivesAll (grammar : Grammar) : List Symbol → List Tree → Prop
  | [], [] => True
  | symbol :: symbols, tree :: trees => Derives grammar symbol tree ∧ DerivesAll grammar symbols trees
  | _, _ => False

end

/-- The tree is a derivation of the tokens from the start symbol. -/
def DerivationOf (grammar : Grammar) (tokens : List Token) (tree : Tree) : Prop :=
  grammar.Derives (.nonterminal grammar.start) tree ∧ tree.tokens = tokens

/-- Some tree derives no tokens from the symbol. -/
def Nullable (grammar : Grammar) (symbol : Symbol) : Prop :=
  ∃ tree, grammar.Derives symbol tree ∧ tree.tokens = []

variable {grammar : Grammar}

theorem derivesAll_iff_forall (symbols : List Symbol) (trees : List Tree) :
    grammar.DerivesAll symbols trees ↔ List.Forall₂ grammar.Derives symbols trees := by
  induction symbols generalizing trees with
  | nil => cases trees <;> simp [DerivesAll]
  | cons symbol symbols ih => cases trees <;> simp [DerivesAll,ih]

@[simp] theorem derivesAll_nil_iff (trees : List Tree) : grammar.DerivesAll [] trees ↔ trees = [] := by
  simp [derivesAll_iff_forall]

theorem derivesAll_cons_iff (symbol : Symbol) (symbols : List Symbol) (trees : List Tree) :
    grammar.DerivesAll (symbol :: symbols) trees ↔
      ∃ tree rest, trees = tree :: rest ∧ grammar.Derives symbol tree ∧ grammar.DerivesAll symbols rest := by
  cases trees with
  | nil => simp [DerivesAll]
  | cons tree rest => simp [DerivesAll]

theorem derivesAll_tree_cons_iff (symbols : List Symbol) (tree : Tree) (rest : List Tree) :
    grammar.DerivesAll symbols (tree :: rest) ↔
      ∃ symbol tail, symbols = symbol :: tail ∧ grammar.Derives symbol tree ∧ grammar.DerivesAll tail rest := by
  cases symbols with
  | nil => simp [DerivesAll]
  | cons symbol tail => simp [DerivesAll]

theorem derivesAll_append {left right : List Symbol} {first second : List Tree}
    (onLeft : grammar.DerivesAll left first) (onRight : grammar.DerivesAll right second) :
    grammar.DerivesAll (left ++ right) (first ++ second) := by
  rw [derivesAll_iff_forall] at *
  exact List.rel_append onLeft onRight

theorem derives_terminal_iff (kind : TokenKind) (tree : Tree) :
    grammar.Derives (.terminal kind) tree ↔ ∃ token, tree = .leaf token ∧ token.kind = kind := by
  cases tree with
  | leaf token => simp [Derives]
  | branch name children => simp [Derives]

theorem derives_nonterminal_iff (name : String) (tree : Tree) :
    grammar.Derives (.nonterminal name) tree ↔
      ∃ rule ∈ grammar.rules, rule.lhs = name ∧
        ∃ children, tree = .branch name children ∧ grammar.DerivesAll rule.rhs children := by
  cases tree with
  | leaf token => simp [Derives]
  | branch label children =>
    simp only [Derives,Tree.branch.injEq]
    constructor
    · rintro ⟨same,rule,member,lhs,derived⟩
      exact ⟨rule,member,lhs,children,⟨same,rfl⟩,derived⟩
    · rintro ⟨rule,member,lhs,other,⟨same,rfl⟩,derived⟩
      exact ⟨same,rule,member,lhs,derived⟩

theorem derives_of_rule {rule : Rule} {children : List Tree} (member : rule ∈ grammar.rules)
    (derived : grammar.DerivesAll rule.rhs children) :
    grammar.Derives (.nonterminal rule.lhs) (.branch rule.lhs children) := by
  rw [derives_nonterminal_iff]
  exact ⟨rule,member,rfl,children,rfl,derived⟩

theorem derives_of_getElem? (index : Nat) {name : String} {rhs : List Symbol} {children : List Tree}
    (listed : grammar.rules[index]? = some ⟨name,rhs⟩) (derived : grammar.DerivesAll rhs children) :
    grammar.Derives (.nonterminal name) (.branch name children) :=
  derives_of_rule (List.mem_of_getElem? listed) derived

/-- Nullable symbols have trees without tokens. -/
theorem derivesAll_of_nullable {symbols : List Symbol} (nullable : ∀ symbol ∈ symbols, grammar.Nullable symbol) :
    ∃ trees, grammar.DerivesAll symbols trees ∧ Tree.forestTokens trees = [] := by
  induction symbols with
  | nil => exact ⟨[],by simp,rfl⟩
  | cons symbol symbols ih =>
    obtain ⟨tree,derived,empty⟩ := nullable symbol (by simp)
    obtain ⟨trees,others,none⟩ := ih (fun other member => nullable other (by simp [member]))
    exact ⟨tree :: trees,⟨derived,others⟩,by simp [Tree.forestTokens,empty,none]⟩

theorem nullable_of_rule {rule : Rule} (member : rule ∈ grammar.rules)
    (nullable : ∀ symbol ∈ rule.rhs, grammar.Nullable symbol) : grammar.Nullable (.nonterminal rule.lhs) := by
  obtain ⟨trees,derived,empty⟩ := derivesAll_of_nullable nullable
  exact ⟨.branch rule.lhs trees,derives_of_rule member derived,empty⟩

theorem not_nullable_terminal (kind : TokenKind) : ¬ grammar.Nullable (.terminal kind) := by
  rintro ⟨tree,derived,empty⟩
  obtain ⟨token,rfl,_⟩ := (derives_terminal_iff kind tree).mp derived
  simp [Tree.tokens] at empty

end CFrontend.Grammar

namespace CFrontend.Tree

theorem forestTokens_append (first second : List Tree) :
    forestTokens (first ++ second) = forestTokens first ++ forestTokens second := by
  induction first with
  | nil => simp [forestTokens]
  | cons tree rest ih => simp [forestTokens,ih]

@[simp] theorem forestTokens_singleton (tree : Tree) : forestTokens [tree] = tree.tokens := by
  simp [forestTokens]

end CFrontend.Tree
