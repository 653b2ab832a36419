import CFrontend.Proofs.Follow
import Mathlib.Data.Nat.Bitwise

/-!
What can follow each nonterminal of a grammar, bounded by a table. Symbols are numbered, and a set of numbers is
kept as one number whose bits tell the members, so that large tables are checked by a short
computation. Where a table of first and following terminals is closed under the rules, it
has everything that `Follows` allows (`Lookaheads.testBit_follow`).
-/
namespace CFrontend.Grammar

/-- Whether all members of the first set are in the second one. -/
def contained (small large : Nat) : Bool := Nat.beq (small ||| large) large

theorem testBit_of_contained {small large n : Nat} (inside : contained small large = true) (member : small.testBit n = true) :
    large.testBit n = true := by
  rw [← Nat.eq_of_beq_eq_true inside,Nat.testBit_or,member,Bool.true_or]

theorem contained_of_testBit {small large : Nat} (inside : ∀ n, small.testBit n = true → large.testBit n = true) :
    contained small large = true := by
  have same : small ||| large = large := by
    apply Nat.eq_of_testBit_eq
    intro n
    rw [Nat.testBit_or]
    cases member : small.testBit n with
    | false => rfl
    | true => rw [inside n member,Bool.or_self]
  rw [contained,same,Nat.beq_refl]

theorem contained_trans {small middle large : Nat} (first : contained small middle = true)
    (second : contained middle large = true) : contained small large = true :=
  contained_of_testBit fun _ member => testBit_of_contained second (testBit_of_contained first member)

/-- Whether a number is one of a terminal. -/
def isTerminal (number : Nat) : Bool := Nat.blt number 100

/-- Numbers for symbols. Symbols may share a number unless one is a terminal and the other one is not. -/
structure Numbering where
  number : Symbol → Nat
  terminal (kind : TokenKind) : isTerminal (number (.terminal kind)) = true ∧ number (.terminal kind) ≠ 0
  nonterminal (name : String) : isTerminal (number (.nonterminal name)) = false

/-- A rule by the numbers of its symbols. -/
abbrev NumberedRule := Nat × List Nat

namespace Numbering

/-- The rule by the numbers of its symbols. -/
def rule (numbering : Numbering) : Rule → NumberedRule
  | ⟨lhs,rhs⟩ => (numbering.number (.nonterminal lhs),rhs.map numbering.number)

/-- The number of what comes next, zero for the end. -/
def next (numbering : Numbering) : Option TokenKind → Nat
  | none => 0
  | some kind => numbering.number (.terminal kind)

end Numbering

/-- Sets of terminals by the number of a nonterminal, with zero for the end. -/
structure Lookaheads where
  /-- What the trees of a nonterminal begin with, zero if one of them has no tokens. -/
  first : Nat → Nat
  /-- What comes right behind the trees of a nonterminal. -/
  follow : Nat → Nat

namespace Lookaheads

/-- What trees of the symbols begin with when what comes behind them begins with one of a set. -/
def begins (table : Lookaheads) : List Nat → (behind : Nat) → Nat
  | [], behind => behind
  | symbol :: rest, behind =>
    bif isTerminal symbol then 1 <<< symbol
    else bif (table.first symbol).testBit 0 then (table.first symbol ^^^ 1) ||| table.begins rest behind
    else table.first symbol

/-- Whether each nonterminal of a right-hand side is followed by what begins behind it. -/
def followsClosed (table : Lookaheads) (lhs : Nat) : List Nat → Bool
  | [] => true
  | symbol :: rest =>
    (isTerminal symbol || contained (table.begins rest (table.follow lhs)) (table.follow symbol)) &&
      table.followsClosed lhs rest

/-- Whether the table is closed under the rules and the start symbol can stand at the end. -/
def closed (table : Lookaheads) (rules : List NumberedRule) (start : Nat) : Bool :=
  (table.follow start).testBit 0 && rules.all fun (lhs,rhs) =>
    contained (table.begins rhs 1) (table.first lhs) && table.followsClosed lhs rhs

/-- The table is closed under the rules of a grammar. -/
def ClosedFor (table : Lookaheads) (numbering : Numbering) (grammar : Grammar) : Prop :=
  table.closed (grammar.rules.map numbering.rule) (numbering.number (.nonterminal grammar.start)) = true

variable {grammar : Grammar} {numbering : Numbering} {table : Lookaheads}

theorem ClosedFor.rule (closed : table.ClosedFor numbering grammar) {rule : Rule} (member : rule ∈ grammar.rules) :
    contained (table.begins (rule.rhs.map numbering.number) 1)
        (table.first (numbering.number (.nonterminal rule.lhs))) = true ∧
      table.followsClosed (numbering.number (.nonterminal rule.lhs)) (rule.rhs.map numbering.number) = true := by
  simp only [ClosedFor,Lookaheads.closed,Bool.and_eq_true,List.all_eq_true] at closed
  exact closed.2 _ (List.mem_map_of_mem member)

private theorem testBit_begins_terminal (kind : TokenKind) (rest : List Nat) (behind : Nat) :
    (table.begins (numbering.number (.terminal kind) :: rest) behind).testBit (numbering.number (.terminal kind)) =
      true := by
  simp [begins,(numbering.terminal kind).1,Nat.one_shiftLeft]

private theorem testBit_begins_first {name : String} {n : Nat}
    (member : (table.first (numbering.number (.nonterminal name))).testBit n = true) (token : n ≠ 0) (rest : List Nat)
    (behind : Nat) :
    (table.begins (numbering.number (.nonterminal name) :: rest) behind).testBit n = true := by
  have other : Nat.testBit 1 n = false := by rw [← Nat.pow_zero 2,Nat.testBit_two_pow_of_ne token.symm]
  cases empty : (table.first (numbering.number (.nonterminal name))).testBit 0 with
  | true => simp [begins,numbering.nonterminal name,empty,member,other]
  | false => simp [begins,numbering.nonterminal name,empty,member]

private theorem testBit_begins_rest {name : String} {rest : List Nat} {behind n : Nat}
    (empty : (table.first (numbering.number (.nonterminal name))).testBit 0 = true)
    (member : (table.begins rest behind).testBit n = true) :
    (table.begins (numbering.number (.nonterminal name) :: rest) behind).testBit n = true := by
  simp [begins,numbering.nonterminal name,empty,member]

mutual

/-- The first set of a nonterminal has what its trees begin with. -/
theorem testBit_first (closed : table.ClosedFor numbering grammar) : (tree : Tree) → ∀ {name : String},
    grammar.Derives (.nonterminal name) tree →
    (table.first (numbering.number (.nonterminal name))).testBit (numbering.next (lookahead tree.tokens)) = true
  | .leaf _, _, derived => by simp [Derives] at derived
  | .branch label children, name, derived => by
    obtain ⟨rfl,rule,member,rfl,spelled⟩ := derived
    have ending : Nat.testBit 1 (numbering.next none) = true := by simp [Numbering.next]
    have here := testBit_begins closed children spelled ending
    rw [Option.or_none] at here
    exact testBit_of_contained (closed.rule member).1 here

/-- Trees of symbols begin with what the table computes for the symbols. -/
theorem testBit_begins (closed : table.ClosedFor numbering grammar) : (trees : List Tree) →
    ∀ {symbols : List Symbol} {behind : Nat} {next : Option TokenKind}, grammar.DerivesAll symbols trees →
    behind.testBit (numbering.next next) = true →
    (table.begins (symbols.map numbering.number) behind).testBit
      (numbering.next ((lookahead (Tree.forestTokens trees)).or next)) = true
  | [], symbols, behind, next, derived, following => by
    obtain rfl : symbols = [] := by simpa [derivesAll_iff_forall] using derived
    exact following
  | tree :: trees, symbols, behind, next, derived, following => by
    obtain ⟨symbol,tail,rfl,own,others⟩ := (derivesAll_tree_cons_iff symbols tree trees).mp derived
    rw [Tree.forestTokens,lookahead_append,Option.or_assoc,List.map_cons]
    cases symbol with
    | terminal kind =>
      obtain ⟨token,rfl,rfl⟩ := (derives_terminal_iff kind tree).mp own
      exact testBit_begins_terminal token.kind _ behind
    | nonterminal name =>
      have start := testBit_first closed tree own
      cases found : lookahead tree.tokens with
      | none =>
        rw [found] at start
        exact testBit_begins_rest start (testBit_begins closed trees others following)
      | some kind =>
        rw [found] at start
        exact testBit_begins_first start (numbering.terminal kind).2 _ behind

end

private theorem contained_of_followsClosed {lhs : Nat} {before after : List Symbol} {name : String}
    (closed : table.followsClosed lhs ((before ++ .nonterminal name :: after).map numbering.number) = true) :
    contained (table.begins (after.map numbering.number) (table.follow lhs))
      (table.follow (numbering.number (.nonterminal name))) = true := by
  induction before with
  | nil =>
    simp only [List.nil_append,List.map_cons,followsClosed,numbering.nonterminal name,Bool.false_or,
      Bool.and_eq_true] at closed
    exact closed.1
  | cons symbol before ih =>
    simp only [List.cons_append,List.map_cons,followsClosed,Bool.and_eq_true] at closed
    exact ih closed.2

/-- The table has everything that can follow a nonterminal. -/
theorem testBit_follow (closed : table.ClosedFor numbering grammar) {name : String} {next : Option TokenKind}
    (follows : grammar.Follows name next) :
    (table.follow (numbering.number (.nonterminal name))).testBit (numbering.next next) = true := by
  induction follows with
  | start =>
    simp only [ClosedFor,Lookaheads.closed,Bool.and_eq_true] at closed
    exact closed.1
  | @inside rule before after name trees next _ member split derived ih =>
    have spelled := (closed.rule member).2
    rw [split] at spelled
    exact testBit_of_contained (contained_of_followsClosed spelled) (testBit_begins closed trees derived ih)

/-! ### Finding a table -/

/-- The set with a number in a family of sets of numbers below a width, which is kept as one number. -/
def member (width family n : Nat) : Nat := (family >>> (width * n)) % Nat.pow 2 width

/-- Adds to a set of a family. -/
def addTo (width family n set : Nat) : Nat := family ||| (set <<< (width * n))

/-- Applies a pass several times. -/
def repeated (pass : Nat → Nat) : (times : Nat) → Nat → Nat
  | 0, family => family
  | times + 1, family => repeated pass times (pass family)

/-- The table with families of first and following sets. -/
def ofFamilies (first follow : Nat) : Lookaheads := ⟨member 100 first,member 100 follow⟩

/-- Adds what each rule begins with, the last rule first. -/
def firstPass (rules : List NumberedRule) (first : Nat) : Nat :=
  rules.foldr (fun (lhs,rhs) first => addTo 100 first lhs ((ofFamilies first 0).begins rhs 1)) first

/-- Adds what follows each nonterminal of a right-hand side. -/
def addFollows (first lhs : Nat) : List Nat → Nat → Nat
  | [], follow => follow
  | symbol :: rest, follow => addFollows first lhs rest (bif isTerminal symbol then follow
      else addTo 100 follow symbol ((ofFamilies first follow).begins rest (member 100 follow lhs)))

/-- Adds what follows each nonterminal of each rule, the first rule first. -/
def followPass (first : Nat) (rules : List NumberedRule) (follow : Nat) : Nat :=
  rules.foldl (fun follow (lhs,rhs) => addFollows first lhs rhs follow) follow

/-- A table for rules and a start symbol, found by passes over the rules. Whether the passes were enough is left
    to the check. -/
def ofRules (passes : Nat) (rules : List NumberedRule) (start : Nat) : Lookaheads :=
  let first := repeated (firstPass rules) passes 0
  ofFamilies first (repeated (followPass first rules) passes (addTo 100 0 start 1))

end Lookaheads

end CFrontend.Grammar
