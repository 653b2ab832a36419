import CFrontend.Grammar.Basic

/-!
The rules of the supported part of C. Expressions and lists are left-recursive. What alternatives
share at their start is factored out, so that few of them are explored side by side. Type names
are keywords: a name introduced by `typedef` is no type.
-/
namespace CFrontend.CLanguage

/-- A terminal. -/
def t (kind : TokenKind) : Symbol := .terminal kind

/-- A nonterminal. -/
def n (name : String) : Symbol := .nonterminal name

/-- The rules of one nonterminal. -/
def declare (lhs : String) (alternatives : List (List Symbol)) : List Rule :=
  alternatives.map fun rhs => ⟨lhs,rhs⟩

/-- The rules of declarations at the top level and in blocks. -/
def declarationRules : List Rule := List.flatten [
  declare "Start" [[n "TopStatements"]],
  declare "TopStatements" [[],[n "TopStatement",n "TopStatements"]],
  declare "TopStatement" [
    [n "Declaration",t .semicolon],[n "ForwardDeclaration",t .semicolon],
    [n "FunctionDefinition"],[n "Typedef",t .semicolon],[n "TypeDeclaration",t .semicolon],
    [t .semicolon]],
  declare "ForwardDeclaration" [[n "FunctionHeader"]],
  declare "FunctionDefinition" [[n "FunctionHeader",n "Block"]],
  declare "FunctionHeader" [
    [n "TypeWithIdentifier",t .leftParen,n "ParameterList",t .rightParen]],
  declare "ParameterList" [[],[n "Parameters"]],
  declare "Parameters" [[n "Parameter"],[n "Parameters",t .comma,n "Parameter"]],
  declare "Parameter" [[n "Type"],[n "TypeWithIdentifier",n "Arrays"]],
  declare "Typedef" [[t .kwTypedef,n "TypeWithIdentifier",n "Arrays"]],
  declare "TypeDeclaration" [[n "Type"]],
  declare "Declaration" [[n "TypeWithIdentifier",n "Arrays",n "Init"]],
  declare "Init" [[],[t .assign,n "Initializer"]],
  declare "Initializer" [
    [n "Assignment"],[t .leftBrace,n "InitializerList",n "OptComma",t .rightBrace]],
  declare "OptComma" [[],[t .comma]],
  declare "InitializerList" [[n "Initializer"],[n "InitializerList",t .comma,n "Initializer"]],
  declare "Arrays" [
    [],[t .leftBracket,t .rightBracket,n "Arrays"],
    [t .leftBracket,n "Conditional",t .rightBracket,n "Arrays"]]]

/-- The rules of types. -/
def typeRules : List Rule := List.flatten [
  declare "TypeWithIdentifier" [[n "Type",t .identifier]],
  declare "Type" [[n "Specifiers",n "Pointers"]],
  declare "Specifiers" [[n "Specifier"],[n "Specifiers",n "Specifier"]],
  declare "Specifier" [
    [t .kwVoid],[t .kwChar],[t .kwShort],[t .kwInt],[t .kwLong],[t .kwFloat],[t .kwDouble],
    [t .kwSigned],[t .kwUnsigned],[t .kwBool],[t .kwComplex],[t .kwImaginary],[t .kwConst],
    [t .kwVolatile],[t .kwRestrict],[t .kwStatic],[t .kwExtern],[t .kwAuto],[t .kwRegister],
    [t .kwInline],[n "StructType"],[n "UnionType"],[n "EnumType"]],
  declare "Pointers" [
    [],[t .star,n "Pointers"],[t .star,t .kwConst,n "Pointers"],
    [t .star,t .kwVolatile,n "Pointers"],[t .star,t .kwRestrict,n "Pointers"]],
  declare "StructType" [
    [t .kwStruct,t .identifier],
    [t .kwStruct,t .identifier,t .leftBrace,n "Fields",t .rightBrace],
    [t .kwStruct,t .leftBrace,n "Fields",t .rightBrace]],
  declare "UnionType" [
    [t .kwUnion,t .identifier],
    [t .kwUnion,t .identifier,t .leftBrace,n "Fields",t .rightBrace],
    [t .kwUnion,t .leftBrace,n "Fields",t .rightBrace]],
  declare "Fields" [[],[n "Field",n "Fields"]],
  declare "Field" [[n "TypeWithIdentifier",n "Arrays",t .semicolon]],
  declare "EnumType" [
    [t .kwEnum,t .identifier],
    [t .kwEnum,t .identifier,t .leftBrace,n "Enumerators",t .rightBrace],
    [t .kwEnum,t .leftBrace,n "Enumerators",t .rightBrace]],
  declare "Enumerators" [
    [n "Enumerator"],[n "Enumerators",t .comma],[n "Enumerators",t .comma,n "Enumerator"]],
  declare "Enumerator" [[t .identifier],[t .identifier,t .assign,n "Conditional"]]]

/-- The rules of statements. An `if` whose body is matched may take an `else`, so an `else` always
    belongs to the nearest `if`. -/
def statementRules : List Rule := List.flatten [
  declare "Block" [[t .leftBrace,n "BlockItems",t .rightBrace]],
  declare "BlockItems" [[],[n "BlockItem",n "BlockItems"]],
  declare "BlockItem" [
    [n "Declaration",t .semicolon],[n "Statement"],[t .kwCase,n "Conditional",t .colon],
    [t .kwDefault,t .colon]],
  declare "Statement" [
    [t .kwIf,t .leftParen,n "Expression",t .rightParen,n "IfBody"],
    [t .kwWhile,t .leftParen,n "Expression",t .rightParen,n "Statement"],
    [t .kwFor,t .leftParen,n "ForInit",t .semicolon,n "OptExpression",t .semicolon,
      n "OptExpression",t .rightParen,n "Statement"],
    [n "Simple"]],
  declare "IfBody" [[n "Matched",n "ElseTail"],[n "Open"]],
  declare "ElseTail" [[],[t .kwElse,n "Statement"]],
  declare "Matched" [
    [t .kwIf,t .leftParen,n "Expression",t .rightParen,n "Matched",t .kwElse,n "Matched"],
    [t .kwWhile,t .leftParen,n "Expression",t .rightParen,n "Matched"],
    [t .kwFor,t .leftParen,n "ForInit",t .semicolon,n "OptExpression",t .semicolon,
      n "OptExpression",t .rightParen,n "Matched"],
    [n "Simple"]],
  declare "Open" [
    [t .kwIf,t .leftParen,n "Expression",t .rightParen,n "OpenTail"],
    [t .kwWhile,t .leftParen,n "Expression",t .rightParen,n "Open"],
    [t .kwFor,t .leftParen,n "ForInit",t .semicolon,n "OptExpression",t .semicolon,
      n "OptExpression",t .rightParen,n "Open"]],
  declare "OpenTail" [[n "Open"],[n "Matched",n "OpenElse"]],
  declare "OpenElse" [[],[t .kwElse,n "Open"]],
  declare "Simple" [
    [n "Block"],[n "Expression",t .semicolon],[t .semicolon],[t .kwReturn,t .semicolon],
    [t .kwReturn,n "Expression",t .semicolon],[t .kwBreak,t .semicolon],
    [t .kwContinue,t .semicolon],
    [t .kwDo,n "Statement",t .kwWhile,t .leftParen,n "Expression",t .rightParen,t .semicolon],
    [t .kwSwitch,t .leftParen,n "Expression",t .rightParen,n "Block"]],
  declare "ForInit" [[],[n "Expression"],[n "Declaration"]],
  declare "OptExpression" [[],[n "Expression"]]]

/-- The rules of expressions, lowest precedence first. -/
def expressionRules : List Rule := List.flatten [
  declare "Expression" [[n "Assignment"],[n "Expression",t .comma,n "Assignment"]],
  declare "Assignment" [[n "Conditional",n "AssignTail"]],
  declare "AssignTail" [[],[n "AssignOp",n "Assignment"]],
  declare "AssignOp" [
    [t .assign],[t .plusAssign],[t .minusAssign],[t .starAssign],[t .slashAssign],
    [t .percentAssign],[t .shiftLeftAssign],[t .shiftRightAssign],[t .ampersandAssign],
    [t .barAssign],[t .caretAssign]],
  declare "Conditional" [[n "LogicalOr",n "ConditionalTail"]],
  declare "ConditionalTail" [[],[t .question,n "Expression",t .colon,n "Conditional"]],
  declare "LogicalOr" [[n "LogicalAnd"],[n "LogicalOr",t .barBar,n "LogicalAnd"]],
  declare "LogicalAnd" [[n "BitOr"],[n "LogicalAnd",t .ampAmp,n "BitOr"]],
  declare "BitOr" [[n "BitXor"],[n "BitOr",t .bar,n "BitXor"]],
  declare "BitXor" [[n "BitAnd"],[n "BitXor",t .caret,n "BitAnd"]],
  declare "BitAnd" [[n "Equality"],[n "BitAnd",t .ampersand,n "Equality"]],
  declare "Equality" [
    [n "Relational"],[n "Equality",t .equal,n "Relational"],
    [n "Equality",t .notEqual,n "Relational"]],
  declare "Relational" [
    [n "Shift"],[n "Relational",t .less,n "Shift"],[n "Relational",t .greater,n "Shift"],
    [n "Relational",t .lessEqual,n "Shift"],[n "Relational",t .greaterEqual,n "Shift"]],
  declare "Shift" [
    [n "Additive"],[n "Shift",t .shiftLeft,n "Additive"],
    [n "Shift",t .shiftRight,n "Additive"]],
  declare "Additive" [
    [n "Multiplicative"],[n "Additive",t .plus,n "Multiplicative"],
    [n "Additive",t .minus,n "Multiplicative"]],
  declare "Multiplicative" [
    [n "Cast"],[n "Multiplicative",t .star,n "Cast"],
    [n "Multiplicative",t .slash,n "Cast"],[n "Multiplicative",t .percent,n "Cast"]],
  declare "Cast" [[n "Unary"],[t .leftParen,n "Type",t .rightParen,n "Cast"]],
  declare "Unary" [
    [n "Postfix"],[t .increment,n "Unary"],[t .decrement,n "Unary"],[n "UnaryOp",n "Cast"],
    [t .kwSizeof,n "Unary"],[t .kwSizeof,t .leftParen,n "Type",t .rightParen]],
  declare "UnaryOp" [[t .ampersand],[t .star],[t .plus],[t .minus],[t .tilde],[t .bang]],
  declare "Postfix" [
    [n "Primary"],[n "Postfix",t .leftBracket,n "Expression",t .rightBracket],
    [n "Postfix",t .leftParen,n "Arguments",t .rightParen],
    [n "Postfix",t .period,t .identifier],[n "Postfix",t .arrow,t .identifier],
    [n "Postfix",t .increment],[n "Postfix",t .decrement]],
  declare "Arguments" [[],[n "ArgumentList"]],
  declare "ArgumentList" [[n "Assignment"],[n "ArgumentList",t .comma,n "Assignment"]],
  declare "Primary" [
    [t .identifier],[t .number],[t .string],[t .leftParen,n "Expression",t .rightParen]]]

/-- All rules. -/
def rules : List Rule := declarationRules ++ typeRules ++ statementRules ++ expressionRules

/-- The grammar of C. -/
def grammar : Grammar := ⟨"Start",rules,by decide +kernel⟩

end CFrontend.CLanguage
