import CFrontend.Proofs.CTables
import CFrontend.Proofs.Soundness

/-!
An `else` belongs to the nearest `if` before it. An `if` without an `else` of its own is a tree of `Statement` or of
`Open`, neither of which can be followed by an `else` in the grammar of C. So an `else` that comes
next would have been read as part of the construct (`else_binds_nearest`).
-/
namespace CFrontend.CLanguage
open Grammar

/-- The tree is an `if` construct that has no `else`: its body is open, so that an `else` in it belongs to an inner `if`
    at most, or its body is matched with nothing behind it. -/
inductive OwnsNoElse : Tree → Prop
  | statementOpen {token : Token} {left condition right : Tree} {body : List Tree} : token.kind = .kwIf →
    OwnsNoElse (.branch "Statement" [.leaf token,left,condition,right,.branch "IfBody" [.branch "Open" body]])
  | statementMatched {token : Token} {left condition right : Tree} {body : List Tree} : token.kind = .kwIf →
    OwnsNoElse (.branch "Statement" [.leaf token,left,condition,right,
      .branch "IfBody" [.branch "Matched" body,.branch "ElseTail" []]])
  | openOpen {token : Token} {left condition right : Tree} {body : List Tree} : token.kind = .kwIf →
    OwnsNoElse (.branch "Open" [.leaf token,left,condition,right,.branch "OpenTail" [.branch "Open" body]])
  | openMatched {token : Token} {left condition right : Tree} {body : List Tree} : token.kind = .kwIf →
    OwnsNoElse (.branch "Open" [.leaf token,left,condition,right,
      .branch "OpenTail" [.branch "Matched" body,.branch "OpenElse" []]])

theorem OwnsNoElse.branch {part : Tree} (construct : OwnsNoElse part) :
    ∃ name children, part = .branch name children ∧ (name = "Statement" ∨ name = "Open") := by
  cases construct with
  | statementOpen => exact ⟨_,_,rfl,.inl rfl⟩
  | statementMatched => exact ⟨_,_,rfl,.inl rfl⟩
  | openOpen => exact ⟨_,_,rfl,.inr rfl⟩
  | openMatched => exact ⟨_,_,rfl,.inr rfl⟩

/-- No `else` can follow a statement or an open statement. -/
theorem not_follows_else {name : String} (construct : name = "Statement" ∨ name = "Open") :
    ¬ grammar.Follows name (some .kwElse) := by
  intro follows
  have listed := lookaheads.testBit_follow lookaheads_closed follows
  have missing : ∀ name ∈ ["Statement","Open"],
      (lookaheads.follow (numbering.number (.nonterminal name))).testBit (numbering.next (some .kwElse)) = false := by
    decide +kernel
  rw [missing name (by simpa using construct)] at listed
  exact Bool.noConfusion listed

private theorem next_ne_else {tokens before after : List Token} {tree part : Tree} (derivation : grammar.DerivationOf tokens tree)
    (occurs : Tree.Occurs part tree before after) (construct : OwnsNoElse part) : lookahead after ≠ some .kwElse := by
  obtain ⟨name,children,rfl,named⟩ := construct.branch
  intro next
  have follows := derivation.follows occurs
  rw [next] at follows
  exact not_follows_else named follows

/-- In every derivation in the grammar of C, and so in every tree that a parse returns, no `else` comes right behind an
    `if` construct that has none. -/
theorem else_binds_nearest :
    (∀ tokens tree, grammar.DerivationOf tokens tree → ∀ part before after, Tree.Occurs part tree before after →
      OwnsNoElse part → tokens = before ++ part.tokens ++ after ∧ lookahead after ≠ some .kwElse) ∧
    ∀ options stream tree, Parser.parse grammar options stream = .ok tree →
      ∀ part before after, Tree.Occurs part tree before after → OwnsNoElse part →
        stream.tokens = before ++ part.tokens ++ after ∧ lookahead after ≠ some .kwElse := by
  have nearest : ∀ tokens tree, grammar.DerivationOf tokens tree → ∀ part before after,
      Tree.Occurs part tree before after → OwnsNoElse part →
      tokens = before ++ part.tokens ++ after ∧ lookahead after ≠ some .kwElse := by
    intro tokens tree derivation part before after occurs construct
    exact ⟨derivation.2.symm.trans occurs.tokens,next_ne_else derivation occurs construct⟩
  exact ⟨nearest,fun options stream tree parsed => nearest _ tree (Parser.derivation_of_parse parsed)⟩

/-- An identifier as an operand of any operator. -/
def operand : Tree :=
  ["LogicalOr","LogicalAnd","BitOr","BitXor","BitAnd","Equality","Relational","Shift","Additive","Multiplicative","Cast",
    "Unary","Postfix","Primary"].foldr (fun name tree => .branch name [tree]) (.leaf (.bare .identifier))

/-- An `if` with the body `tail` behind its condition, which is an identifier. -/
def conditional (name : String) (tail : List Tree) : Tree :=
  .branch name (.leaf (.bare .kwIf) :: .leaf (.bare .leftParen) ::
    .branch "Expression" [.branch "Assignment" [
      .branch "Conditional" [operand,.branch "ConditionalTail" []],.branch "AssignTail" []]] ::
    .leaf (.bare .rightParen) :: tail)

/-- An empty statement. -/
def idle : Tree := .branch "Matched" [.branch "Simple" [.leaf (.bare .semicolon)]]

/-- An `if` without an `else` around one that has it. -/
def nestedIf : Tree :=
  conditional "Statement" [
    .branch "IfBody" [conditional "Matched" [idle,.leaf (.bare .kwElse),idle],.branch "ElseTail" []]]

/-- A function with the nested constructs as its body. -/
def nestedFunction : Tree :=
  .branch "Start" [.branch "TopStatements" [
    .branch "TopStatement" [.branch "FunctionDefinition" [
      .branch "FunctionHeader" [
        .branch "TypeWithIdentifier" [
          .branch "Type" [.branch "Specifiers" [.branch "Specifier" [.leaf (.bare .kwVoid)]],.branch "Pointers" []],
          .leaf (.bare .identifier)],
        .leaf (.bare .leftParen),.branch "ParameterList" [],.leaf (.bare .rightParen)],
      .branch "Block" [.leaf (.bare .leftBrace),
        .branch "BlockItems" [.branch "BlockItem" [nestedIf],.branch "BlockItems" []],.leaf (.bare .rightBrace)]]],
    .branch "TopStatements" []]]

private theorem derives_operand : grammar.Derives (.nonterminal "LogicalOr") operand := by
  refine derives_of_getElem? 140 rfl ⟨derives_of_getElem? 142 rfl ⟨derives_of_getElem? 144 rfl ⟨derives_of_getElem? 146 rfl
    ⟨derives_of_getElem? 148 rfl ⟨derives_of_getElem? 150 rfl ⟨derives_of_getElem? 153 rfl ⟨derives_of_getElem? 158 rfl
    ⟨derives_of_getElem? 161 rfl ⟨derives_of_getElem? 164 rfl ⟨derives_of_getElem? 168 rfl ⟨derives_of_getElem? 170 rfl
    ⟨derives_of_getElem? 182 rfl ⟨derives_of_getElem? 193 rfl ⟨rfl,?_⟩,?_⟩,?_⟩,?_⟩,?_⟩,?_⟩,?_⟩,?_⟩,?_⟩,?_⟩,?_⟩,?_⟩,?_⟩,?_⟩
  all_goals trivial

private theorem derives_conditional (index : Nat) {name : String} {symbols : List Symbol} {tail : List Tree}
    (listed : grammar.rules[index]? =
      some ⟨name,t .kwIf :: t .leftParen :: n "Expression" :: t .rightParen :: symbols⟩)
    (derived : grammar.DerivesAll symbols tail) : grammar.Derives (.nonterminal name) (conditional name tail) :=
  derives_of_getElem? index listed ⟨rfl,rfl,
    derives_of_getElem? 121 rfl ⟨derives_of_getElem? 123 rfl
      ⟨derives_of_getElem? 137 rfl ⟨derives_operand,derives_of_getElem? 138 rfl trivial,trivial⟩,
        derives_of_getElem? 124 rfl trivial,trivial⟩,trivial⟩,rfl,derived⟩

private theorem derives_nestedIf : grammar.Derives (.nonterminal "Statement") nestedIf := by
  have body : grammar.Derives (.nonterminal "Matched") idle :=
    derives_of_getElem? 99 rfl ⟨derives_of_getElem? 109 rfl ⟨rfl,trivial⟩,trivial⟩
  exact derives_conditional 88 rfl ⟨derives_of_getElem? 92 rfl
    ⟨derives_conditional 96 rfl ⟨body,rfl,body,trivial⟩,derives_of_getElem? 94 rfl trivial,trivial⟩,trivial⟩

private theorem derives_nestedFunction : grammar.Derives (.nonterminal "Start") nestedFunction := by
  refine derives_of_getElem? 0 rfl ⟨derives_of_getElem? 2 rfl ⟨derives_of_getElem? 5 rfl ⟨derives_of_getElem? 10 rfl
    ⟨derives_of_getElem? 11 rfl ⟨?type,rfl,derives_of_getElem? 12 rfl trivial,rfl,trivial⟩,?block,trivial⟩,trivial⟩,
    derives_of_getElem? 1 rfl trivial,trivial⟩,trivial⟩
  case type =>
    exact derives_of_getElem? 32 rfl ⟨derives_of_getElem? 33 rfl
      ⟨derives_of_getElem? 34 rfl ⟨derives_of_getElem? 36 rfl ⟨rfl,trivial⟩,trivial⟩,derives_of_getElem? 59 rfl trivial,
        trivial⟩,rfl,trivial⟩
  case block =>
    exact derives_of_getElem? 81 rfl ⟨rfl,derives_of_getElem? 83 rfl
      ⟨derives_of_getElem? 85 rfl ⟨derives_nestedIf,trivial⟩,derives_of_getElem? 82 rfl trivial,trivial⟩,rfl,trivial⟩

/-- The outer `if` of the function owns no `else`, and the closing brace of the body comes next. -/
theorem else_binds_nearest_nestedFunction :
    grammar.DerivationOf nestedFunction.tokens nestedFunction ∧ OwnsNoElse nestedIf ∧
    ∃ before after, Tree.Occurs nestedIf nestedFunction before after ∧ after = [.bare .rightBrace] ∧
      nestedFunction.tokens = before ++ nestedIf.tokens ++ after ∧ lookahead after ≠ some .kwElse := by
  have derivation : grammar.DerivationOf nestedFunction.tokens nestedFunction := ⟨derives_nestedFunction,rfl⟩
  have construct : OwnsNoElse nestedIf := .statementMatched rfl
  obtain ⟨before,occurs⟩ : ∃ before, Tree.Occurs nestedIf nestedFunction before [.bare .rightBrace] :=
    ⟨_,@Tree.Occurs.child _ _ [] [] _ _ _ (@Tree.Occurs.child _ _ [] [_] _ _ _ (@Tree.Occurs.child _ _ [] [] _ _ _
      (@Tree.Occurs.child _ _ [_] [] _ _ _ (@Tree.Occurs.child _ _ [_] [_] _ _ _ (@Tree.Occurs.child _ _ [] [_] _ _ _
      (@Tree.Occurs.child _ _ [] [] _ _ _ .here))))))⟩
  exact ⟨derivation,construct,before,_,occurs,rfl,else_binds_nearest.1 _ _ derivation _ _ _ occurs construct⟩

end CFrontend.CLanguage
