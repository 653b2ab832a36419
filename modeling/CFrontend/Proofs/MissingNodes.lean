import Mathlib.Data.List.Basic
import Mathlib.Logic.Relation
import CFrontend.Declaration.Reader

/-!
Looks into missing nodes. The reader expects a shape before it looks into a node, so that a missing node is a fault of shape
like any other, but for the first child of a `TopStatement` or of a `Specifier`, into which it looks at once (`Hollow`). A
look into a missing node is made exactly where the reader comes to such a node, having read everything in front of it (`GoesOn`,
`read_missing_iff`). The place that is said of a fault is looked for in its node, up to the first leaf or missing node
(`Declaration.Fault.report_error_iff`).
-/
namespace CFrontend.Declaration

/-! ### Where the reader looks -/

/-- A node that is looked into at its first child, and this child is missing. -/
inductive Hollow : Node → Prop
  | statement {tail : List Node} : tail.length ≤ 1 → Hollow (.branch "TopStatement" (.absent :: tail))
  | specifier : Hollow (.branch "Specifier" [.absent])

/-- The nonterminals that a top statement starts with. -/
def declared : List String := ["Declaration","ForwardDeclaration","FunctionDefinition","Typedef","TypeDeclaration"]

/-- Nothing or a semicolon. -/
def EndsStatement (tail : List Node) : Prop :=
  tail = [] ∨ ∃ token name children, tail = [.leaf token name children] ∧ token.kind = .semicolon

/-- Reading a node goes on with reading a node in it, once everything is read that is read before that one. Statements,
    specifiers and the parts of a header are read from left to right, parameters from the last one on. -/
inductive GoesOn : Node → Node → Prop
  | statements {list : List Node} :
    GoesOn (.branch "Start" [.branch "TopStatements" list]) (.branch "TopStatements" list)
  | first {statement : List Node} {rest : Node} :
    GoesOn (.branch "TopStatements" [.branch "TopStatement" statement,rest]) (.branch "TopStatement" statement)
  | rest {first : Node} {list : List Node} {declaration : Declaration} : readStatement first = .ok declaration →
    GoesOn (.branch "TopStatements" [first,.branch "TopStatements" list]) (.branch "TopStatements" list)
  | declared {name : String} {children tail : List Node} : name ∈ declared → EndsStatement tail →
    GoesOn (.branch "TopStatement" (.branch name children :: tail)) (.branch name children)
  | object {named : List Node} {arrays init : Node} :
    GoesOn (.branch "Declaration" [.branch "TypeWithIdentifier" named,arrays,init]) (.branch "TypeWithIdentifier" named)
  | typedef {keyword : Token} {name : String} {inside named : List Node} {arrays : Node} : keyword.kind = .kwTypedef →
    GoesOn (.branch "Typedef" [.leaf keyword name inside,.branch "TypeWithIdentifier" named,arrays])
      (.branch "TypeWithIdentifier" named)
  | forward {header : List Node} :
    GoesOn (.branch "ForwardDeclaration" [.branch "FunctionHeader" header]) (.branch "FunctionHeader" header)
  | function {header : List Node} {body : Node} :
    GoesOn (.branch "FunctionDefinition" [.branch "FunctionHeader" header,body]) (.branch "FunctionHeader" header)
  | typeOnly {type : List Node} : GoesOn (.branch "TypeDeclaration" [.branch "Type" type]) (.branch "Type" type)
  | result {named : List Node} {left list right : Node} :
    GoesOn (.branch "FunctionHeader" [.branch "TypeWithIdentifier" named,left,list,right]) (.branch "TypeWithIdentifier" named)
  | parameterList {named left right : Node} {list : List Node} {type : TypeName} {name : List UInt8} :
    readNamed named = .ok (type,name) →
    GoesOn (.branch "FunctionHeader" [named,left,.branch "ParameterList" list,right]) (.branch "ParameterList" list)
  | parameters {list : List Node} :
    GoesOn (.branch "ParameterList" [.branch "Parameters" list]) (.branch "Parameters" list)
  | lone {parameter : List Node} :
    GoesOn (.branch "Parameters" [.branch "Parameter" parameter]) (.branch "Parameter" parameter)
  | last {init comma : Node} {parameter : List Node} :
    GoesOn (.branch "Parameters" [init,comma,.branch "Parameter" parameter]) (.branch "Parameter" parameter)
  | others {list : List Node} {comma last : Node} {parameter : Parameter} : readParameter last = .ok parameter →
    GoesOn (.branch "Parameters" [.branch "Parameters" list,comma,last]) (.branch "Parameters" list)
  | unnamed {type : List Node} : GoesOn (.branch "Parameter" [.branch "Type" type]) (.branch "Type" type)
  | named {named : List Node} {arrays : Node} :
    GoesOn (.branch "Parameter" [.branch "TypeWithIdentifier" named,arrays]) (.branch "TypeWithIdentifier" named)
  | type {type : List Node} {name : Node} :
    GoesOn (.branch "TypeWithIdentifier" [.branch "Type" type,name]) (.branch "Type" type)
  | specifiers {list : List Node} {pointers : Node} :
    GoesOn (.branch "Type" [.branch "Specifiers" list,pointers]) (.branch "Specifiers" list)
  | only {specifier : List Node} :
    GoesOn (.branch "Specifiers" [.branch "Specifier" specifier]) (.branch "Specifier" specifier)
  | front {list : List Node} {last : Node} :
    GoesOn (.branch "Specifiers" [.branch "Specifiers" list,last]) (.branch "Specifiers" list)
  | behind {front : Node} {specifier : List Node} {type : TypeName} : readSpecifiers front = .ok type →
    GoesOn (.branch "Specifiers" [front,.branch "Specifier" specifier]) (.branch "Specifier" specifier)

/-- Reading a node comes to one that is looked into at a missing child. -/
def Stumbles (node : Node) : Prop := ∃ hollow, Relation.ReflTransGen GoesOn node hollow ∧ Hollow hollow

private theorem Hollow.stumbles {node : Node} (hollow : Hollow node) : Stumbles node := ⟨node,.refl,hollow⟩

/-- What the reader comes to in a part of a node, it comes to from the node. -/
theorem GoesOn.stumbles {node inner : Node} (step : GoesOn node inner) (later : Stumbles inner) : Stumbles node := by
  obtain ⟨hollow,path,own⟩ := later
  exact ⟨hollow,.head step path,own⟩

/-! ### One reader -/

/-- A look into a missing node in two steps is one in the first step, or in the second one after the first has succeeded. -/
theorem bind_missing_iff {α β : Type} {action : Except Fault α} {next : α → Except Fault β} :
    (action >>= next) = .error .missing ↔
      action = .error .missing ∨ ∃ value, action = .ok value ∧ next value = .error .missing := by
  cases action <;> simp [Bind.bind,Except.bind]

private theorem map_missing_iff {α β : Type} {f : α → β} {action : Except Fault α} :
    f <$> action = .error .missing ↔ action = .error .missing := by
  cases action <;> simp [Functor.map,Except.map]

private theorem pure_ne_missing {α : Type} (value : α) : (pure value : Except Fault α) ≠ .error .missing := by
  simp [pure,Except.pure]

private theorem throw_missing_iff {α : Type} {fault : Fault} :
    (throw fault : Except Fault α) = .error .missing ↔ fault = .missing := by
  simp [throw,throwThe,MonadExceptOf.throw]

/-- What is expected is compared with a node without a look into a missing one. -/
theorem expect_ne_missing (node : Node) (name : String) (lengths : List Nat) : expect node name lengths ≠ .error .missing := by
  unfold expect
  split
  · split
    · simp
    · split <;> simp
  · simp

private theorem expect_ok_iff {node : Node} {name : String} {lengths : List Nat} {done : Unit} :
    expect node name lengths = .ok done ↔
    ∃ children, node = .branch name children ∧ (lengths = [] ∨ children.length ∈ lengths) := by
  cases node with
  | absent => simp [expect]
  | leaf token label children => simp [expect]
  | branch label children =>
    unfold expect
    dsimp only
    by_cases same : label = name
    · subst same
      by_cases fits : lengths = [] ∨ children.length ∈ lengths
      · simp [fits]
      · simp [fits]
    · simp [same]

/-- What is expected is there when the reader goes on. -/
theorem expect_bind_missing_iff {α : Type} {node : Node} {name : String} {lengths : List Nat} {next : Unit → Except Fault α} :
    (expect node name lengths >>= next) = .error .missing ↔
      ∃ children, node = .branch name children ∧ (lengths = [] ∨ children.length ∈ lengths) ∧ next () = .error .missing := by
  rw [bind_missing_iff]
  simp only [expect_ne_missing,expect_ok_iff,false_or]
  constructor
  · rintro ⟨_,⟨children,same,length⟩,missing⟩
    exact ⟨children,same,length,missing⟩
  · rintro ⟨children,same,length,missing⟩
    exact ⟨(),⟨children,same,length⟩,missing⟩

private theorem expect_one_missing_iff {α : Type} {node : Node} {name : String} {next : Unit → Except Fault α} :
    (expect node name [1] >>= next) = .error .missing ↔ ∃ a, node = .branch name [a] ∧ next () = .error .missing := by
  rw [expect_bind_missing_iff]
  constructor
  · rintro ⟨children,rfl,length,missing⟩
    obtain ⟨a,rfl⟩ := List.length_eq_one_iff.mp (by simpa using length)
    exact ⟨a,rfl,missing⟩
  · rintro ⟨a,rfl,missing⟩
    exact ⟨_,rfl,by simp,missing⟩

private theorem expect_two_missing_iff {α : Type} {node : Node} {name : String} {next : Unit → Except Fault α} :
    (expect node name [2] >>= next) = .error .missing ↔ ∃ a b, node = .branch name [a,b] ∧ next () = .error .missing := by
  rw [expect_bind_missing_iff]
  constructor
  · rintro ⟨children,rfl,length,missing⟩
    obtain ⟨a,b,rfl⟩ := List.length_eq_two.mp (by simpa using length)
    exact ⟨a,b,rfl,missing⟩
  · rintro ⟨a,b,rfl,missing⟩
    exact ⟨_,rfl,by simp,missing⟩

private theorem expect_three_missing_iff {α : Type} {node : Node} {name : String} {next : Unit → Except Fault α} :
    (expect node name [3] >>= next) = .error .missing ↔ ∃ a b c, node = .branch name [a,b,c] ∧ next () = .error .missing := by
  rw [expect_bind_missing_iff]
  constructor
  · rintro ⟨children,rfl,length,missing⟩
    obtain ⟨a,b,c,rfl⟩ := List.length_eq_three.mp (by simpa using length)
    exact ⟨a,b,c,rfl,missing⟩
  · rintro ⟨a,b,c,rfl,missing⟩
    exact ⟨_,rfl,by simp,missing⟩

/-- A token is expected in place of any node without a look into a missing one. -/
theorem expectToken_ne_missing (node : Node) (kind : TokenKind) : expectToken node kind ≠ .error .missing := by
  unfold expectToken
  split
  · split <;> simp
  · simp

private theorem expectToken_ok_iff {node : Node} {kind : TokenKind} {token : Token} : expectToken node kind = .ok token ↔
    ∃ name children, node = .leaf token name children ∧ token.kind = kind := by
  cases node with
  | absent => simp [expectToken]
  | branch name children => simp [expectToken]
  | leaf own name children =>
    by_cases same : own.kind = kind
    · simp only [expectToken,same,↓reduceIte]
      constructor
      · rintro ⟨⟩
        exact ⟨name,children,rfl,same⟩
      · rintro ⟨_,_,⟨⟩,_⟩
        rfl
    · simp only [expectToken,same,↓reduceIte]
      constructor
      · rintro ⟨⟩
      · rintro ⟨_,_,⟨⟩,kind⟩
        exact absurd kind same

attribute [local simp] bind_missing_iff map_missing_iff pure_ne_missing throw_missing_iff expectToken_ne_missing expect_ne_missing
  Node.child Node.children

/-! ### Which reader comes to which -/

/-- Pointers are counted along a chain of which every link is expected first. -/
theorem countPointers_ne_missing (node : Node) : countPointers node ≠ .error .missing := by
  fun_induction countPointers node with
  | case1 node next =>
    rw [ne_eq,expect_bind_missing_iff]
    rintro ⟨children,rfl,length,missing⟩
    rcases children with _ | ⟨_,_ | ⟨_,_ | ⟨_,_ | ⟨_,_⟩⟩⟩⟩
    · simp at missing
    · simp at length
    · exact next (by simpa using missing)
    · exact next (by simpa using missing)
    · simp at length

/-- Array dimensions are counted along a chain of which every link is expected first. -/
theorem countArrays_ne_missing (node : Node) : countArrays node ≠ .error .missing := by
  fun_induction countArrays node with
  | case1 node next =>
    rw [ne_eq,expect_bind_missing_iff]
    rintro ⟨children,rfl,length,missing⟩
    rcases children with _ | ⟨_,_ | ⟨_,_ | ⟨_,_ | ⟨_,_ | ⟨_,_⟩⟩⟩⟩⟩
    · simp at missing
    · simp at length
    · simp at length
    · exact next (by simpa using missing)
    · exact next (by simpa using missing)
    · simp at length

attribute [local simp] countPointers_ne_missing countArrays_ne_missing

/-- The child of a specifier is looked into without being expected. -/
theorem readSpecifier_missing_iff {type : TypeName} {node : Node} : readSpecifier type node = .error .missing ↔
    node = .branch "Specifier" [.absent] := by
  unfold readSpecifier
  rw [expect_one_missing_iff]
  constructor
  · rintro ⟨child,rfl,missing⟩
    cases child with
    | absent => rfl
    | leaf token name children => simp at missing
    | branch name children =>
      cases keyword : children.head?.bind Node.token? with
      | none => simp [keyword] at missing
      | some token =>
        -- what stands behind the keyword is only looked at, whatever it is
        have only : (Node.branch "Specifier" [.branch name children]).child 0 = .branch name children := rfl
        cases tag : (Node.branch name children).child 1 <;> simp [-Node.child,only,keyword,tag] at missing
  · rintro rfl
    exact ⟨_,rfl,rfl⟩

/-- Specifiers are read from the left, so that a look into a missing node is made for the first one that leads to it. -/
theorem readSpecifiers_missing_iff {node : Node} : readSpecifiers node = .error .missing ↔
    (∃ last, node = .branch "Specifiers" [last] ∧ readSpecifier {} last = .error .missing) ∨
    ∃ front last, node = .branch "Specifiers" [front,last] ∧ (readSpecifiers front = .error .missing ∨
      ∃ type, readSpecifiers front = .ok type ∧ readSpecifier type last = .error .missing) := by
  rw [readSpecifiers.eq_def,expect_bind_missing_iff]
  constructor
  · rintro ⟨children,rfl,length,missing⟩
    rcases children with _ | ⟨a,_ | ⟨b,_ | ⟨c,rest⟩⟩⟩
    · simp at length
    · exact .inl ⟨a,rfl,by simpa using missing⟩
    · exact .inr ⟨a,b,rfl,by simpa using missing⟩
    · simp at length
  · rintro (⟨last,rfl,missing⟩ | ⟨front,last,rfl,missing⟩)
    · exact ⟨_,rfl,by simp,by simpa using missing⟩
    · exact ⟨_,rfl,by simp,by simpa using missing⟩

/-- The pointers of a type are read without a look into a missing node. -/
theorem readType_missing_iff {node : Node} : readType node = .error .missing ↔
    ∃ specifiers pointers, node = .branch "Type" [specifiers,pointers] ∧ readSpecifiers specifiers = .error .missing := by
  unfold readType
  rw [expect_two_missing_iff]
  refine exists₂_congr fun specifiers pointers => and_congr_right ?_
  rintro rfl
  simp

private theorem readNamed_missing_iff {node : Node} : readNamed node = .error .missing ↔
    ∃ type name, node = .branch "TypeWithIdentifier" [type,name] ∧ readType type = .error .missing := by
  unfold readNamed
  rw [expect_two_missing_iff]
  refine exists₂_congr fun type name => and_congr_right ?_
  rintro rfl
  simp

private theorem readParameter_missing_iff {node : Node} : readParameter node = .error .missing ↔
    (∃ type, node = .branch "Parameter" [type] ∧ readType type = .error .missing) ∨
    ∃ named arrays, node = .branch "Parameter" [named,arrays] ∧ readNamed named = .error .missing := by
  unfold readParameter
  rw [expect_bind_missing_iff]
  constructor
  · rintro ⟨children,rfl,length,missing⟩
    rcases children with _ | ⟨a,_ | ⟨b,_ | ⟨c,rest⟩⟩⟩
    · simp at length
    · exact .inl ⟨a,rfl,by simpa using missing⟩
    · exact .inr ⟨a,b,rfl,by simpa using missing⟩
    · simp at length
  · rintro (⟨type,rfl,missing⟩ | ⟨named,arrays,rfl,missing⟩)
    · exact ⟨_,rfl,by simp,by simpa using missing⟩
    · exact ⟨_,rfl,by simp,by simpa using missing⟩

/-- Parameters are read from the last one on. -/
theorem readParameters_missing_iff {node : Node} : readParameters node = .error .missing ↔
    (∃ last, node = .branch "Parameters" [last] ∧ readParameter last = .error .missing) ∨
    ∃ others comma last, node = .branch "Parameters" [others,comma,last] ∧ (readParameter last = .error .missing ∨
      ∃ parameter, readParameter last = .ok parameter ∧ readParameters others = .error .missing) := by
  rw [readParameters.eq_def,expect_bind_missing_iff]
  constructor
  · rintro ⟨children,rfl,length,missing⟩
    rcases children with _ | ⟨a,_ | ⟨b,_ | ⟨c,_ | ⟨d,rest⟩⟩⟩⟩
    · simp at length
    · exact .inl ⟨a,rfl,by simpa using missing⟩
    · simp at length
    · exact .inr ⟨a,b,c,rfl,by simpa using missing⟩
    · simp at length
  · rintro (⟨last,rfl,missing⟩ | ⟨others,comma,last,rfl,missing⟩)
    · exact ⟨_,rfl,by simp,by simpa using missing⟩
    · exact ⟨_,rfl,by simp,by simpa using missing⟩

private theorem readParameterList_missing_iff {node : Node} : readParameterList node = .error .missing ↔
    ∃ parameters, node = .branch "ParameterList" [parameters] ∧ readParameters parameters = .error .missing := by
  unfold readParameterList
  rw [expect_bind_missing_iff]
  constructor
  · rintro ⟨children,rfl,length,missing⟩
    rcases children with _ | ⟨parameters,_ | ⟨b,rest⟩⟩
    · simp at missing
    · refine ⟨parameters,rfl,?_⟩
      rcases bind_missing_iff.mp missing with own | ⟨list,_,missing⟩
      · exact own
      · split at missing <;> exact absurd missing (pure_ne_missing _)
    · simp at length
  · rintro ⟨parameters,rfl,missing⟩
    exact ⟨_,rfl,by simp,bind_missing_iff.mpr (.inl missing)⟩

/-- The parameters of a header are read once its name is. -/
theorem readHeader_missing_iff {node : Node} : readHeader node = .error .missing ↔
    ∃ named left list right, node = .branch "FunctionHeader" [named,left,list,right] ∧ (readNamed named = .error .missing ∨
      ∃ type name, readNamed named = .ok (type,name) ∧ readParameterList list = .error .missing) := by
  unfold readHeader
  rw [expect_bind_missing_iff]
  constructor
  · rintro ⟨children,rfl,length,missing⟩
    rcases children with _ | ⟨named,_ | ⟨left,_ | ⟨list,_ | ⟨right,_ | ⟨_,_⟩⟩⟩⟩⟩
    case cons.cons.cons.cons.nil => exact ⟨named,left,list,right,rfl,by simpa using missing⟩
    all_goals simp at length
  · rintro ⟨named,left,list,right,rfl,missing⟩
    exact ⟨_,rfl,by simp,by simpa using missing⟩

private theorem readObject_missing_iff {node : Node} : readObject node = .error .missing ↔
    ∃ named arrays init, node = .branch "Declaration" [named,arrays,init] ∧ readNamed named = .error .missing := by
  unfold readObject
  rw [expect_three_missing_iff]
  refine exists₃_congr fun named arrays init => and_congr_right ?_
  rintro rfl
  constructor
  · intro missing
    cases init with
    | absent => simpa [expect_ok_iff] using missing
    | leaf token name children => simpa [expect_ok_iff] using missing
    | branch name children =>
      by_cases given : children.length = 2 <;> simpa [given] using missing
  · intro missing
    simp [missing]

private theorem readTypedef_missing_iff {node : Node} : readTypedef node = .error .missing ↔
    ∃ keyword named arrays, node = .branch "Typedef" [keyword,named,arrays] ∧
      (∃ token, expectToken keyword .kwTypedef = .ok token) ∧ readNamed named = .error .missing := by
  unfold readTypedef
  rw [expect_three_missing_iff]
  refine exists₃_congr fun keyword named arrays => and_congr_right ?_
  rintro rfl
  simp

private theorem readForward_missing_iff {node : Node} : readForward node = .error .missing ↔
    ∃ header, node = .branch "ForwardDeclaration" [header] ∧ readHeader header = .error .missing := by
  unfold readForward
  rw [expect_one_missing_iff]
  refine exists_congr fun header => and_congr_right ?_
  rintro rfl
  simp

private theorem readFunction_missing_iff {node : Node} : readFunction node = .error .missing ↔
    ∃ header body, node = .branch "FunctionDefinition" [header,body] ∧ readHeader header = .error .missing := by
  unfold readFunction
  rw [expect_two_missing_iff]
  refine exists₂_congr fun header body => and_congr_right ?_
  rintro rfl
  simp

private theorem readTypeDeclaration_missing_iff {node : Node} : readTypeDeclaration node = .error .missing ↔
    ∃ type, node = .branch "TypeDeclaration" [type] ∧ readType type = .error .missing := by
  unfold readTypeDeclaration
  rw [expect_one_missing_iff]
  refine exists_congr fun type => and_congr_right ?_
  rintro rfl
  simp

/-- Reads what a top statement starts with. -/
def readDeclared (name : String) (children : List Node) : Except Fault Declaration :=
  if name = "Declaration" then readObject (.branch name children)
  else if name = "ForwardDeclaration" then readForward (.branch name children)
  else if name = "FunctionDefinition" then readFunction (.branch name children)
  else if name = "Typedef" then readTypedef (.branch name children)
  else if name = "TypeDeclaration" then readTypeDeclaration (.branch name children)
  else throw (.shape (.branch name children) "top-level declaration")

private theorem readStatement_ended (name : String) (children : List Node) (last : Node) :
    readStatement (.branch "TopStatement" [.branch name children,last]) =
      (expectToken last .semicolon >>= fun _ => readDeclared name children) := rfl

private theorem readDeclared_missing_declared {name : String} {children : List Node}
    (missing : readDeclared name children = .error .missing) :
    name ∈ declared := by
  unfold readDeclared at missing
  split_ifs at missing <;> simp_all [declared]

/-- The first child of a top statement is looked into without being expected, and its semicolon is expected before what it
    declares is read. -/
theorem readStatement_missing_iff {node : Node} : readStatement node = .error .missing ↔
    (∃ tail, node = .branch "TopStatement" (.absent :: tail) ∧ tail.length ≤ 1) ∨
    ∃ name children tail, node = .branch "TopStatement" (.branch name children :: tail) ∧ EndsStatement tail ∧
      readDeclared name children = .error .missing := by
  constructor
  · intro missing
    obtain ⟨children,rfl,length,-⟩ := expect_bind_missing_iff.mp missing
    rcases children with _ | ⟨absent | ⟨token,name,inside⟩ | ⟨name,inside⟩,_ | ⟨last,_ | ⟨_,_⟩⟩⟩
    case nil => simp at length
    case cons.absent.nil | cons.absent.cons.nil => exact .inl ⟨_,rfl,by simp⟩
    case cons.leaf.nil | cons.leaf.cons.nil => simp [readStatement,expect] at missing
    case cons.branch.nil => exact .inr ⟨name,inside,[],rfl,.inl rfl,missing⟩
    case cons.branch.cons.nil =>
      obtain ⟨token,ended,own⟩ : ∃ token, expectToken last .semicolon = .ok token ∧ readDeclared name inside = .error .missing := by
        simpa [readStatement_ended] using missing
      obtain ⟨label,below,rfl,kind⟩ := expectToken_ok_iff.mp ended
      exact .inr ⟨name,inside,_,rfl,.inr ⟨token,label,below,rfl,kind⟩,own⟩
    all_goals simp at length
  · rintro (⟨tail,rfl,short⟩ | ⟨name,inside,tail,rfl,rfl | ⟨token,label,below,rfl,kind⟩,missing⟩)
    · rcases tail with _ | ⟨last,_ | ⟨_,_⟩⟩
      · rfl
      · rfl
      · simp at short
    · exact missing
    · simp [readStatement_ended,expectToken,kind,missing]

/-- Top statements are read in order. -/
theorem readStatements_missing_iff {node : Node} : readStatements node = .error .missing ↔
    ∃ first rest, node = .branch "TopStatements" [first,rest] ∧ (readStatement first = .error .missing ∨
      ∃ declaration, readStatement first = .ok declaration ∧ readStatements rest = .error .missing) := by
  rw [readStatements.eq_def,expect_bind_missing_iff]
  constructor
  · rintro ⟨children,rfl,length,missing⟩
    rcases children with _ | ⟨first,_ | ⟨rest,_ | ⟨c,others⟩⟩⟩
    · simp at missing
    · simp at length
    · exact ⟨first,rest,rfl,by simpa using missing⟩
    · simp at length
  · rintro ⟨first,rest,rfl,missing⟩
    exact ⟨_,rfl,by simp,by simpa using missing⟩

private theorem read_missing_iff_statements {root : Node} : read root = .error .missing ↔
    ∃ statements, root = .branch "Start" [statements] ∧ readStatements statements = .error .missing := by
  unfold read
  rw [expect_one_missing_iff]
  refine exists_congr fun statements => and_congr_right ?_
  rintro rfl
  simp

/-! ### The whole tree -/

/-- The reader of the nodes of its name looks into a missing node. -/
def ReadsMissing : Node → Prop
  | .branch "Start" children => read (.branch "Start" children) = .error .missing
  | .branch "TopStatements" children => readStatements (.branch "TopStatements" children) = .error .missing
  | .branch "TopStatement" children => readStatement (.branch "TopStatement" children) = .error .missing
  | .branch "FunctionHeader" children => readHeader (.branch "FunctionHeader" children) = .error .missing
  | .branch "ParameterList" children => readParameterList (.branch "ParameterList" children) = .error .missing
  | .branch "Parameters" children => readParameters (.branch "Parameters" children) = .error .missing
  | .branch "Parameter" children => readParameter (.branch "Parameter" children) = .error .missing
  | .branch "TypeWithIdentifier" children => readNamed (.branch "TypeWithIdentifier" children) = .error .missing
  | .branch "Type" children => readType (.branch "Type" children) = .error .missing
  | .branch "Specifiers" children => readSpecifiers (.branch "Specifiers" children) = .error .missing
  | .branch "Specifier" children => readSpecifier {} (.branch "Specifier" children) = .error .missing
  | .branch name children => readDeclared name children = .error .missing
  | _ => False

private theorem readsMissing_declared {name : String} {children : List Node} (top : name ∈ declared) :
    ReadsMissing (.branch name children) ↔ readDeclared name children = .error .missing := by
  simp only [declared,List.mem_cons,List.not_mem_nil,or_false] at top
  rcases top with rfl | rfl | rfl | rfl | rfl <;> rfl

/-- A look into a missing node is made from every node that reading goes on from. -/
theorem GoesOn.reads {node inner : Node} (step : GoesOn node inner) (own : ReadsMissing inner) : ReadsMissing node := by
  cases step with
  | statements => exact read_missing_iff_statements.mpr ⟨_,rfl,own⟩
  | first => exact readStatements_missing_iff.mpr ⟨_,_,rfl,.inl own⟩
  | rest done => exact readStatements_missing_iff.mpr ⟨_,_,rfl,.inr ⟨_,done,own⟩⟩
  | declared top ended => exact readStatement_missing_iff.mpr (.inr ⟨_,_,_,rfl,ended,(readsMissing_declared top).mp own⟩)
  | object => exact readObject_missing_iff.mpr ⟨_,_,_,rfl,own⟩
  | typedef kind => exact readTypedef_missing_iff.mpr ⟨_,_,_,rfl,⟨_,expectToken_ok_iff.mpr ⟨_,_,rfl,kind⟩⟩,own⟩
  | forward => exact readForward_missing_iff.mpr ⟨_,rfl,own⟩
  | function => exact readFunction_missing_iff.mpr ⟨_,_,rfl,own⟩
  | typeOnly => exact readTypeDeclaration_missing_iff.mpr ⟨_,rfl,own⟩
  | result => exact readHeader_missing_iff.mpr ⟨_,_,_,_,rfl,.inl own⟩
  | parameterList done => exact readHeader_missing_iff.mpr ⟨_,_,_,_,rfl,.inr ⟨_,_,done,own⟩⟩
  | parameters => exact readParameterList_missing_iff.mpr ⟨_,rfl,own⟩
  | lone => exact readParameters_missing_iff.mpr (.inl ⟨_,rfl,own⟩)
  | last => exact readParameters_missing_iff.mpr (.inr ⟨_,_,_,rfl,.inl own⟩)
  | others done => exact readParameters_missing_iff.mpr (.inr ⟨_,_,_,rfl,.inr ⟨_,done,own⟩⟩)
  | unnamed => exact readParameter_missing_iff.mpr (.inl ⟨_,rfl,own⟩)
  | named => exact readParameter_missing_iff.mpr (.inr ⟨_,_,rfl,own⟩)
  | type => exact readNamed_missing_iff.mpr ⟨_,_,rfl,own⟩
  | specifiers => exact readType_missing_iff.mpr ⟨_,_,rfl,own⟩
  | only => exact readSpecifiers_missing_iff.mpr (.inl ⟨_,rfl,own⟩)
  | front => exact readSpecifiers_missing_iff.mpr (.inr ⟨_,_,rfl,.inl own⟩)
  | behind done =>
    exact readSpecifiers_missing_iff.mpr (.inr ⟨_,_,rfl,.inr ⟨_,done,readSpecifier_missing_iff.mpr (readSpecifier_missing_iff.mp own)⟩⟩)

/-- A reader that looks into a missing node has found a node of the name that it expects. -/
theorem named_of_missing {α : Type} {node : Node} {name : String} {lengths : List Nat} {next : Unit → Except Fault α}
    (missing : (expect node name lengths >>= next) = .error .missing) : ∃ children, node = .branch name children := by
  obtain ⟨children,same,-⟩ := expect_bind_missing_iff.mp missing
  exact ⟨children,same⟩

private theorem readSpecifiers_missing_named {node : Node} (missing : readSpecifiers node = .error .missing) :
    ∃ children, node = .branch "Specifiers" children := by
  rw [readSpecifiers.eq_def] at missing
  exact named_of_missing missing

private theorem readParameters_missing_named {node : Node} (missing : readParameters node = .error .missing) :
    ∃ children, node = .branch "Parameters" children := by
  rw [readParameters.eq_def] at missing
  exact named_of_missing missing

private theorem readStatements_missing_named {node : Node} (missing : readStatements node = .error .missing) :
    ∃ children, node = .branch "TopStatements" children := by
  rw [readStatements.eq_def] at missing
  exact named_of_missing missing

private theorem readDeclared_missing_goesOn {name : String} {children : List Node}
    (missing : readDeclared name children = .error .missing) :
    ∃ inner, GoesOn (.branch name children) inner ∧ ReadsMissing inner := by
  unfold readDeclared at missing
  split_ifs at missing
  · obtain ⟨named,arrays,init,⟨⟩,own⟩ := readObject_missing_iff.mp missing
    obtain ⟨list,rfl⟩ := named_of_missing own
    exact ⟨_,.object,own⟩
  · obtain ⟨header,⟨⟩,own⟩ := readForward_missing_iff.mp missing
    obtain ⟨list,rfl⟩ := named_of_missing own
    exact ⟨_,.forward,own⟩
  · obtain ⟨header,body,⟨⟩,own⟩ := readFunction_missing_iff.mp missing
    obtain ⟨list,rfl⟩ := named_of_missing own
    exact ⟨_,.function,own⟩
  · obtain ⟨keyword,named,arrays,⟨⟩,⟨token,done⟩,own⟩ := readTypedef_missing_iff.mp missing
    obtain ⟨label,below,rfl,kind⟩ := expectToken_ok_iff.mp done
    obtain ⟨list,rfl⟩ := named_of_missing own
    exact ⟨_,.typedef kind,own⟩
  · obtain ⟨type,⟨⟩,own⟩ := readTypeDeclaration_missing_iff.mp missing
    obtain ⟨list,rfl⟩ := named_of_missing own
    exact ⟨_,.typeOnly,own⟩
  · simp at missing

private theorem read_missing_goesOn {node : Node} (missing : read node = .error .missing) :
    ∃ inner, GoesOn node inner ∧ ReadsMissing inner := by
  obtain ⟨statements,rfl,own⟩ := read_missing_iff_statements.mp missing
  obtain ⟨list,rfl⟩ := readStatements_missing_named own
  exact ⟨_,.statements,own⟩

private theorem readStatements_missing_goesOn {node : Node} (missing : readStatements node = .error .missing) :
    ∃ inner, GoesOn node inner ∧ ReadsMissing inner := by
  obtain ⟨first,rest,rfl,own | ⟨declaration,done,own⟩⟩ := readStatements_missing_iff.mp missing
  · obtain ⟨list,rfl⟩ := named_of_missing own
    exact ⟨_,.first,own⟩
  · obtain ⟨list,rfl⟩ := readStatements_missing_named own
    exact ⟨_,.rest done,own⟩

private theorem readStatement_missing_goesOn {node : Node} (missing : readStatement node = .error .missing) :
    Hollow node ∨ ∃ inner, GoesOn node inner ∧ ReadsMissing inner := by
  obtain ⟨tail,rfl,short⟩ | ⟨name,inside,tail,rfl,ended,own⟩ := readStatement_missing_iff.mp missing
  · exact .inl (.statement short)
  · exact .inr ⟨_,.declared (readDeclared_missing_declared own) ended,
      (readsMissing_declared (readDeclared_missing_declared own)).mpr own⟩

private theorem readHeader_missing_goesOn {node : Node} (missing : readHeader node = .error .missing) :
    ∃ inner, GoesOn node inner ∧ ReadsMissing inner := by
  obtain ⟨named,left,list,right,rfl,own | ⟨type,name,done,own⟩⟩ := readHeader_missing_iff.mp missing
  · obtain ⟨list,rfl⟩ := named_of_missing own
    exact ⟨_,.result,own⟩
  · obtain ⟨list,rfl⟩ := named_of_missing own
    exact ⟨_,.parameterList done,own⟩

private theorem readParameterList_missing_goesOn {node : Node} (missing : readParameterList node = .error .missing) :
    ∃ inner, GoesOn node inner ∧ ReadsMissing inner := by
  obtain ⟨parameters,rfl,own⟩ := readParameterList_missing_iff.mp missing
  obtain ⟨list,rfl⟩ := readParameters_missing_named own
  exact ⟨_,.parameters,own⟩

private theorem readParameters_missing_goesOn {node : Node} (missing : readParameters node = .error .missing) :
    ∃ inner, GoesOn node inner ∧ ReadsMissing inner := by
  obtain ⟨last,rfl,own⟩ | ⟨others,comma,last,rfl,own | ⟨parameter,done,own⟩⟩ := readParameters_missing_iff.mp missing
  · obtain ⟨list,rfl⟩ := named_of_missing own
    exact ⟨_,.lone,own⟩
  · obtain ⟨list,rfl⟩ := named_of_missing own
    exact ⟨_,.last,own⟩
  · obtain ⟨list,rfl⟩ := readParameters_missing_named own
    exact ⟨_,.others done,own⟩

private theorem readParameter_missing_goesOn {node : Node} (missing : readParameter node = .error .missing) :
    ∃ inner, GoesOn node inner ∧ ReadsMissing inner := by
  obtain ⟨type,rfl,own⟩ | ⟨named,arrays,rfl,own⟩ := readParameter_missing_iff.mp missing
  · obtain ⟨list,rfl⟩ := named_of_missing own
    exact ⟨_,.unnamed,own⟩
  · obtain ⟨list,rfl⟩ := named_of_missing own
    exact ⟨_,.named,own⟩

private theorem readNamed_missing_goesOn {node : Node} (missing : readNamed node = .error .missing) :
    ∃ inner, GoesOn node inner ∧ ReadsMissing inner := by
  obtain ⟨type,name,rfl,own⟩ := readNamed_missing_iff.mp missing
  obtain ⟨list,rfl⟩ := named_of_missing own
  exact ⟨_,.type,own⟩

private theorem readType_missing_goesOn {node : Node} (missing : readType node = .error .missing) :
    ∃ inner, GoesOn node inner ∧ ReadsMissing inner := by
  obtain ⟨specifiers,pointers,rfl,own⟩ := readType_missing_iff.mp missing
  obtain ⟨list,rfl⟩ := readSpecifiers_missing_named own
  exact ⟨_,.specifiers,own⟩

private theorem readSpecifiers_missing_goesOn {node : Node} (missing : readSpecifiers node = .error .missing) :
    ∃ inner, GoesOn node inner ∧ ReadsMissing inner := by
  obtain ⟨last,rfl,own⟩ | ⟨front,last,rfl,own | ⟨type,done,own⟩⟩ := readSpecifiers_missing_iff.mp missing
  · obtain ⟨list,rfl⟩ := named_of_missing own
    exact ⟨_,.only,own⟩
  · obtain ⟨list,rfl⟩ := readSpecifiers_missing_named own
    exact ⟨_,.front,own⟩
  · obtain rfl := readSpecifier_missing_iff.mp own
    exact ⟨_,.behind done,rfl⟩

/-- A look into a missing node is made at the node itself or in one that reading goes on with. -/
theorem ReadsMissing.goesOn {node : Node} (missing : ReadsMissing node) :
    Hollow node ∨ ∃ inner, GoesOn node inner ∧ ReadsMissing inner := by
  unfold ReadsMissing at missing
  split at missing
  · exact .inr (read_missing_goesOn missing)
  · exact .inr (readStatements_missing_goesOn missing)
  · exact readStatement_missing_goesOn missing
  · exact .inr (readHeader_missing_goesOn missing)
  · exact .inr (readParameterList_missing_goesOn missing)
  · exact .inr (readParameters_missing_goesOn missing)
  · exact .inr (readParameter_missing_goesOn missing)
  · exact .inr (readNamed_missing_goesOn missing)
  · exact .inr (readType_missing_goesOn missing)
  · exact .inr (readSpecifiers_missing_goesOn missing)
  · obtain ⟨⟩ := readSpecifier_missing_iff.mp missing
    exact .inl .specifier
  · exact .inr (readDeclared_missing_goesOn missing)
  · exact missing.elim

/-- Reading goes on with children. -/
theorem GoesOn.mem {node inner : Node} (step : GoesOn node inner) : inner ∈ node.children := by
  cases step <;> simp

/-- Where the child to look into is missing, the look is made. -/
theorem Hollow.reads {node : Node} (hollow : Hollow node) : ReadsMissing node := by
  cases hollow with
  | statement short => exact readStatement_missing_iff.mpr (.inl ⟨_,rfl,short⟩)
  | specifier => exact rfl

private theorem sizeOf_lt_of_mem_children {inner node : Node} (member : inner ∈ node.children) : sizeOf inner < sizeOf node := by
  cases node with
  | absent => simp at member
  | leaf token name children | branch name children =>
    have := List.sizeOf_lt_of_mem member
    simp only [Node.leaf.sizeOf_spec,Node.branch.sizeOf_spec,Node.children] at *
    omega

/-- The reader of a node looks into a missing node exactly where it comes to one. -/
theorem readsMissing_iff {node : Node} : ReadsMissing node ↔ Stumbles node := by
  constructor
  · intro missing
    -- each node that the reader comes to is a child of the one before it
    induction size : sizeOf node using Nat.strongRecOn generalizing node with
    | ind n later =>
      rcases missing.goesOn with hollow | ⟨inner,step,own⟩
      · exact hollow.stumbles
      · exact step.stumbles (later _ (size ▸ sizeOf_lt_of_mem_children step.mem) own rfl)
  · rintro ⟨hollow,path,own⟩
    induction path using Relation.ReflTransGen.head_induction_on with
    | refl => exact own.reads
    | head step _ later => exact step.reads later

/-- A node is somewhere in a tree. -/
def Within : Node → Node → Prop := Relation.ReflTransGen fun node inner => inner ∈ node.children

private theorem within_absent_iff {node : Node} : Within .absent node ↔ node = .absent := by
  rw [Within,Relation.ReflTransGen.cases_head_iff]
  simp [Node.children,eq_comm]

private theorem within_branch_iff {name : String} {children : List Node} {node : Node} :
    Within (.branch name children) node ↔ node = .branch name children ∨ ∃ child ∈ children, Within child node := by
  rw [Within,Relation.ReflTransGen.cases_head_iff]
  exact or_congr_left eq_comm

/-- The nodes that the reader comes to are in the tree. -/
theorem Stumbles.within {root : Node} (stumbles : Stumbles root) : ∃ node, Within root node ∧ Hollow node := by
  obtain ⟨node,path,hollow⟩ := stumbles
  exact ⟨node,path.lift id fun _ _ step => step.mem,hollow⟩

/-- Reading a tree gives declarations or names a node of another shape, unless the reader comes to a statement or a specifier
    whose first child is missing. -/
theorem read_missing_iff (root : Node) :
    (read root = .error .missing ↔ (∃ children, root = .branch "Start" children) ∧ Stumbles root) ∧
    ((∀ node, Within root node → ¬ Hollow node) →
      (∃ declarations, read root = .ok declarations) ∨ ∃ node want, read root = .error (.shape node want)) := by
  have exact : read root = .error .missing ↔ (∃ children, root = .branch "Start" children) ∧ Stumbles root := by
    constructor
    · intro missing
      obtain ⟨children,rfl⟩ := named_of_missing missing
      exact ⟨⟨children,rfl⟩,readsMissing_iff.mp missing⟩
    · rintro ⟨⟨children,rfl⟩,stumbles⟩
      exact readsMissing_iff.mpr stumbles
  refine ⟨exact,fun filled => ?_⟩
  cases result : read root with
  | ok declarations => exact .inl ⟨declarations,rfl⟩
  | error fault =>
    cases fault with
    | shape node want => exact .inr ⟨node,want,rfl⟩
    | missing =>
      obtain ⟨node,within,hollow⟩ := (exact.mp result).2.within
      exact absurd hollow (filled node within)

theorem read_missing_iff_empty :
    let statements := fun first => Node.branch "Start" [.branch "TopStatements" [first,.branch "TopStatements" []]]
    read (statements (.branch "TopStatement" [.absent])) = .error .missing ∧
    (∀ node, Within (statements .absent) node → ¬ Hollow node) ∧
    ((∃ declarations, read (statements .absent) = .ok declarations) ∨
      ∃ node want, read (statements .absent) = .error (.shape node want)) := by
  intro statements
  have filled : ∀ node, Within (statements .absent) node → ¬ Hollow node := by
    rintro node within ⟨⟩ <;> simp [statements,within_branch_iff,within_absent_iff] at within
  have hollow : Hollow (.branch "TopStatement" [.absent]) := .statement (Nat.zero_le 1)
  refine ⟨(read_missing_iff _).1.mpr ⟨⟨_,rfl⟩,_,?_,hollow⟩,filled,(read_missing_iff _).2 filled⟩
  exact .head .statements (.head .first .refl)

end CFrontend.Declaration

namespace CFrontend

/-! ### What is said of a fault -/

namespace Node

mutual

/-- The leaves of a node from left to right, and the missing nodes among them. -/
def ends : Node → List (Option Token)
  | .absent => [none]
  | .leaf token _ _ => [some token]
  | .branch _ children => endsOf children

/-- The ends of several nodes. -/
def endsOf : List Node → List (Option Token)
  | [] => []
  | node :: rest => node.ends ++ endsOf rest

end

/-- What the first end tells of the place. -/
def placeOf : List (Option Token) → Except MissingNode (Option Position)
  | [] => .ok none
  | none :: _ => .error {}
  | some token :: _ => .ok (some token.pos)

mutual

/-- The place of a node is that of its first end, whatever stands behind. -/
theorem position?_eq : (node : Node) → node.position? = placeOf node.ends
  | .absent => rfl
  | .leaf _ _ _ => rfl
  | .branch _ children => by rw [position?,ends,positions?_eq children]

theorem positions?_eq : (nodes : List Node) → positions? nodes = placeOf (endsOf nodes)
  | [] => rfl
  | node :: rest => by
    rw [positions?,endsOf,position?_eq node,positions?_eq rest]
    cases node.ends with
    | nil => rfl
    | cons first others => cases first <;> rfl

end

end Node

/-- A fault is reported unless it is a look into a missing node, or such a look is made for the place of the node that does
    not fit. -/
theorem Declaration.Fault.report_error_iff {fault : Fault} {absence : MissingNode} : fault.report = .error absence ↔
    fault = .missing ∨ ∃ name children want others,
      fault = .shape (.branch name children) want ∧ (Node.branch name children).ends = none :: others := by
  cases fault with
  | missing => simp [report,throw,throwThe,MonadExceptOf.throw]
  | shape node want =>
    cases node with
    | absent => simp [report,pure,Except.pure]
    | leaf token name children => simp [report,Node.position?,bind,Except.bind,pure,Except.pure]
    | branch name children =>
      simp only [report,Node.position?_eq]
      cases reached : (Node.branch name children).ends with
      | nil => simp [Node.placeOf,bind,Except.bind,pure,Except.pure,reached]
      | cons first others =>
        cases first with
        | none => simp [Node.placeOf,bind,Except.bind,reached]
        | some token => simp [Node.placeOf,bind,Except.bind,pure,Except.pure,reached]

example : (Declaration.Fault.shape (.branch "Block" [.absent]) "Start").report = .error {} := rfl

end CFrontend
