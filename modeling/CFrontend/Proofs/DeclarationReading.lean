import CFrontend.Declaration.Reader
import CFrontend.Grammar.CLanguage
import CFrontend.Proofs.Follow
import CFrontend.Proofs.Soundness

/-!
Reading the declarations of a derivation. What a tree of the grammar of C declares is told by relations between its
nodes and declarations, alternative by alternative, with lists taken from left to right over
all nodes of a name. The reader accepts every derivation and gives what the
derivation declares (`read_derivation`).
-/
namespace CFrontend.Tree

mutual

/-- The nodes with a name, from left to right. -/
def nodes (name : String) : Tree → List Tree
  | .leaf _ => []
  | .branch label children => (if label = name then [.branch label children] else []) ++ nodesAll name children

/-- The nodes of several trees with a name, from left to right. -/
def nodesAll (name : String) : List Tree → List Tree
  | [] => []
  | tree :: rest => tree.nodes name ++ nodesAll name rest

end

mutual

/-- The nodes with a name that are not inside of another one, from left to right. -/
def outermost (name : String) : Tree → List Tree
  | .leaf _ => []
  | .branch label children => if label = name then [.branch label children] else outermostAll name children

/-- The nodes of several trees with a name that are not inside of another one, from left to right. -/
def outermostAll (name : String) : List Tree → List Tree
  | [] => []
  | tree :: rest => tree.outermost name ++ outermostAll name rest

end

end CFrontend.Tree

namespace CFrontend.Declaration

/-! ### What a derivation declares -/

/-- A chain of `Arrays` with a number of links, each of which ends with the rest of the chain. -/
inductive ArrayChain : Tree → Nat → Prop
  | empty : ArrayChain (.branch "Arrays" []) 0
  | link {brackets : List Tree} {rest : Tree} {count : Nat} : ArrayChain rest count →
    ArrayChain (.branch "Arrays" (brackets ++ [rest])) (count + 1)

/-- The tag of a specifier: the identifier behind its keyword. -/
def tag? (specifier : Tree) : Option (List UInt8) :=
  match specifier.tokens with
  | _ :: second :: _ => if second.kind = .identifier then some second.literal else none
  | _ => none

/-- The type has the keywords of the outermost specifiers, the tag of the last one that has a tag, and a pointer for each
    star. -/
inductive DenotesType : Tree → TypeName → Prop
  | type {specifiers pointers : Tree} {type : TypeName} :
    type.specifiers.map some = (specifiers.outermost "Specifier").map (fun specifier => lookahead specifier.tokens) →
    type.tag = ((specifiers.outermost "Specifier").filterMap tag?).getLast?.getD [] →
    type.pointers = pointers.tokens.countP (·.kind = .star) → DenotesType (.branch "Type" [specifiers,pointers]) type

inductive DenotesNamed : Tree → TypeName → List UInt8 → Prop
  | named {tree : Tree} {type : TypeName} {name : Token} : DenotesType tree type → name.kind = .identifier →
    DenotesNamed (.branch "TypeWithIdentifier" [tree,.leaf name]) type name.literal

/-- A parameter has a pointer for each array bracket too. -/
inductive DenotesParameter : Tree → Parameter → Prop
  | unnamed {tree : Tree} {type : TypeName} : DenotesType tree type →
    DenotesParameter (.branch "Parameter" [tree]) ⟨type,[]⟩
  | named {tree arrays : Tree} {type : TypeName} {name : List UInt8} {count : Nat} : DenotesNamed tree type name →
    ArrayChain arrays count →
    DenotesParameter (.branch "Parameter" [tree,arrays]) ⟨{ type with pointers := type.pointers + count },name⟩

/-- There is one parameter, and it is plain `void` without a name. -/
def LoneVoid (parameters : List Parameter) : Prop :=
  ∃ parameter, parameters = [parameter] ∧ parameter.name = [] ∧ parameter.type.specifiers = [.kwVoid] ∧
    parameter.type.pointers = 0

inductive DenotesParameters : Tree → List Parameter → Prop
  | listed {list : Tree} {parameters : List Parameter} :
    List.Forall₂ DenotesParameter (list.outermost "Parameter") parameters → ¬ LoneVoid parameters →
    DenotesParameters list parameters
  | void {list : Tree} {parameters : List Parameter} :
    List.Forall₂ DenotesParameter (list.outermost "Parameter") parameters → LoneVoid parameters →
    DenotesParameters list []

inductive DenotesHeader : Tree → Header → Prop
  | header {tree list : Tree} {left right : Token} {type : TypeName} {name : List UInt8} {parameters : List Parameter} :
    DenotesNamed tree type name → DenotesParameters list parameters →
    DenotesHeader (.branch "FunctionHeader" [tree,.leaf left,list,.leaf right]) ⟨type,name,parameters⟩

/-- What a `TopStatement` declares, by its alternatives. -/
inductive Denotes : Tree → Declaration → Prop
  | object {tree arrays : Tree} {semicolon : Token} {type : TypeName} {name : List UInt8} {count : Nat} :
    DenotesNamed tree type name → ArrayChain arrays count →
    Denotes (.branch "TopStatement" [.branch "Declaration" [tree,arrays,.branch "Init" []],.leaf semicolon])
      (.object type name count none)
  | initialized {tree arrays : Tree} {assign semicolon : Token} {initializer : List Tree} {type : TypeName}
    {name : List UInt8} {count : Nat} : DenotesNamed tree type name → ArrayChain arrays count →
    Denotes (.branch "TopStatement" [.branch "Declaration" [tree,arrays,
        .branch "Init" [.leaf assign,.branch "Initializer" initializer]],.leaf semicolon])
      (.object type name count (some (Tree.branch "Initializer" initializer).toNode))
  | forward {tree : Tree} {semicolon : Token} {header : Header} : DenotesHeader tree header →
    Denotes (.branch "TopStatement" [.branch "ForwardDeclaration" [tree],.leaf semicolon]) (.forward header)
  | function {tree : Tree} {block : List Tree} {header : Header} : DenotesHeader tree header →
    Denotes (.branch "TopStatement" [.branch "FunctionDefinition" [tree,.branch "Block" block]])
      (.function header (Tree.branch "Block" block).toNode)
  | typedef {tree arrays : Tree} {keyword semicolon : Token} {type : TypeName} {name : List UInt8} {count : Nat} :
    DenotesNamed tree type name → ArrayChain arrays count →
    Denotes (.branch "TopStatement" [.branch "Typedef" [.leaf keyword,tree,arrays],.leaf semicolon])
      (.typedef type name count)
  | typeOnly {tree : Tree} {semicolon : Token} {type : TypeName} : DenotesType tree type →
    Denotes (.branch "TopStatement" [.branch "TypeDeclaration" [tree],.leaf semicolon]) (.typeOnly type)
  | empty {semicolon : Token} : Denotes (.branch "TopStatement" [.leaf semicolon]) .empty

end CFrontend.Declaration

namespace CFrontend.CLanguage
open Grammar (derives_nonterminal_iff derives_terminal_iff derives_of_getElem? derivesAll_cons_iff derivesAll_nil_iff)
open Declaration

attribute [local simp] Tree.toNode Tree.toNodes Tree.tokens Tree.forestTokens Tree.outermost Tree.outermostAll Tree.nodes
  Tree.nodesAll Node.child Node.children Node.token? expect expectToken

/-! ### The shapes of nodes -/

/-- The nonterminals of structs, unions and enums. -/
def tagged : List String := ["StructType","UnionType","EnumType"]

/-- The alternatives of the nonterminals that the reader looks into. -/
def alternatives : List (String × List (List Symbol)) := [
  ("Start",[[n "TopStatements"]]),
  ("TopStatements",[[],[n "TopStatement",n "TopStatements"]]),
  ("TopStatement",[[n "Declaration",t .semicolon],[n "ForwardDeclaration",t .semicolon],[n "FunctionDefinition"],
    [n "Typedef",t .semicolon],[n "TypeDeclaration",t .semicolon],[t .semicolon]]),
  ("ForwardDeclaration",[[n "FunctionHeader"]]),
  ("FunctionDefinition",[[n "FunctionHeader",n "Block"]]),
  ("FunctionHeader",[[n "TypeWithIdentifier",t .leftParen,n "ParameterList",t .rightParen]]),
  ("ParameterList",[[],[n "Parameters"]]),
  ("Parameters",[[n "Parameter"],[n "Parameters",t .comma,n "Parameter"]]),
  ("Parameter",[[n "Type"],[n "TypeWithIdentifier",n "Arrays"]]),
  ("Typedef",[[t .kwTypedef,n "TypeWithIdentifier",n "Arrays"]]),
  ("TypeDeclaration",[[n "Type"]]),
  ("Declaration",[[n "TypeWithIdentifier",n "Arrays",n "Init"]]),
  ("Init",[[],[t .assign,n "Initializer"]]),
  ("Arrays",[[],[t .leftBracket,t .rightBracket,n "Arrays"],[t .leftBracket,n "Conditional",t .rightBracket,n "Arrays"]]),
  ("TypeWithIdentifier",[[n "Type",t .identifier]]),
  ("Type",[[n "Specifiers",n "Pointers"]]),
  ("Specifiers",[[n "Specifier"],[n "Specifiers",n "Specifier"]]),
  ("Specifier",[TokenKind.kwVoid,.kwChar,.kwShort,.kwInt,.kwLong,.kwFloat,.kwDouble,.kwSigned,.kwUnsigned,.kwBool,
    .kwComplex,.kwImaginary,.kwConst,.kwVolatile,.kwRestrict,.kwStatic,.kwExtern,.kwAuto,.kwRegister,.kwInline].map
    (fun kind => [t kind]) ++ tagged.map fun name => [n name]),
  ("Pointers",[[],[t .star,n "Pointers"],[t .star,t .kwConst,n "Pointers"],[t .star,t .kwVolatile,n "Pointers"],
    [t .star,t .kwRestrict,n "Pointers"]])]

private theorem alternatives_listed : ∀ entry ∈ alternatives,
    rules.filter (fun rule => rule.lhs = entry.1) = declare entry.1 entry.2 := by
  decide +kernel

/-- A tree of a nonterminal spells one of its alternatives. -/
theorem spells_of_derives (index : Nat) {name : String} {choices : List (List Symbol)} {tree : Tree}
    (entry : alternatives[index]? = some (name,choices)) (derived : grammar.Derives (n name) tree) :
    ∃ rhs ∈ choices, ∃ children, tree = .branch name children ∧ grammar.DerivesAll rhs children := by
  obtain ⟨rule,member,lhs,children,rfl,spelled⟩ := (derives_nonterminal_iff name tree).mp derived
  have kept : rule ∈ declare name choices := by
    rw [← alternatives_listed _ (List.mem_of_getElem? entry)]
    exact List.mem_filter.mpr ⟨member,by simpa using lhs⟩
  obtain ⟨rhs,choice,rfl⟩ := List.mem_map.mp kept
  exact ⟨rhs,choice,children,rfl,spelled⟩

private theorem derivesAll_terminal_iff (kind : TokenKind) (symbols : List Symbol) (trees : List Tree) :
    grammar.DerivesAll (t kind :: symbols) trees ↔
      ∃ token rest, trees = .leaf token :: rest ∧ token.kind = kind ∧ grammar.DerivesAll symbols rest := by
  constructor
  · intro derived
    obtain ⟨_,rest,rfl,own,others⟩ := (derivesAll_cons_iff _ _ _).mp derived
    obtain ⟨token,rfl,same⟩ := (derives_terminal_iff kind _).mp own
    exact ⟨token,rest,rfl,same,others⟩
  · rintro ⟨token,rest,rfl,same,others⟩
    exact ⟨same,others⟩

private theorem derivesAll_nonterminal_iff (name : String) (symbols : List Symbol) (trees : List Tree) :
    grammar.DerivesAll (n name :: symbols) trees ↔ ∃ tree rest, trees = tree :: rest ∧
      grammar.Derives (n name) tree ∧ grammar.DerivesAll symbols rest :=
  derivesAll_cons_iff (n name) symbols trees

@[simp] theorem ok_bind {α β : Type} (value : α) (next : α → Except Fault β) : (Except.ok value >>= next) = next value := rfl

/-! ### Chains -/

private theorem countPointers_toNode (tree : Tree) (derived : grammar.Derives (n "Pointers") tree) :
    countPointers tree.toNode = .ok (tree.tokens.countP (·.kind = .star)) := by
  obtain ⟨rhs,member,children,rfl,spelled⟩ := spells_of_derives 18 rfl derived
  simp only [List.mem_cons,List.not_mem_nil,or_false] at member
  rcases member with rfl | rfl | qualified
  · obtain rfl := (derivesAll_nil_iff children).mp spelled
    rfl
  · simp only [derivesAll_terminal_iff,derivesAll_nonterminal_iff,derivesAll_nil_iff] at spelled
    obtain ⟨star,_,rfl,kind,next,_,rfl,chain,rfl⟩ := spelled
    have rest := countPointers_toNode next chain
    simp [countPointers,rest,kind]
  · obtain ⟨qualifier,other,rfl⟩ : ∃ qualifier, qualifier ≠ .star ∧ rhs = [t .star,t qualifier,n "Pointers"] := by
      rcases qualified with rfl | rfl | rfl
      · exact ⟨.kwConst,by decide,rfl⟩
      · exact ⟨.kwVolatile,by decide,rfl⟩
      · exact ⟨.kwRestrict,by decide,rfl⟩
    simp only [derivesAll_terminal_iff,derivesAll_nonterminal_iff,derivesAll_nil_iff] at spelled
    obtain ⟨star,_,rfl,kind,token,_,rfl,rfl,next,_,rfl,chain,rfl⟩ := spelled
    have rest := countPointers_toNode next chain
    simp [countPointers,rest,kind,other]
termination_by sizeOf tree
decreasing_by all_goals subst_vars; decreasing_tactic

private theorem countArrays_toNode (tree : Tree) (derived : grammar.Derives (n "Arrays") tree) :
    ∃ count, countArrays tree.toNode = .ok count ∧ ArrayChain tree count := by
  obtain ⟨rhs,member,children,rfl,spelled⟩ := spells_of_derives 13 rfl derived
  simp only [List.mem_cons,List.not_mem_nil,or_false] at member
  rcases member with rfl | rfl | rfl
  · obtain rfl := (derivesAll_nil_iff children).mp spelled
    exact ⟨0,rfl,.empty⟩
  · simp only [derivesAll_terminal_iff,derivesAll_nonterminal_iff,derivesAll_nil_iff] at spelled
    obtain ⟨left,_,rfl,-,right,_,rfl,-,next,_,rfl,chain,rfl⟩ := spelled
    obtain ⟨count,rest,linked⟩ := countArrays_toNode next chain
    exact ⟨count + 1,by simp [countArrays,rest],
      @ArrayChain.link [.leaf left,.leaf right] next count linked⟩
  · simp only [derivesAll_terminal_iff,derivesAll_nonterminal_iff,derivesAll_nil_iff] at spelled
    obtain ⟨left,_,rfl,-,size,_,rfl,-,right,_,rfl,-,next,_,rfl,chain,rfl⟩ := spelled
    obtain ⟨count,rest,linked⟩ := countArrays_toNode next chain
    exact ⟨count + 1,by simp [countArrays,rest],
      @ArrayChain.link [.leaf left,size,.leaf right] next count linked⟩
termination_by sizeOf tree
decreasing_by all_goals subst_vars; decreasing_tactic

/-! ### Types -/

/-- Whether the first two symbols are terminals. -/
def startsWithTokens : List Symbol → Bool
  | .terminal _ :: .terminal _ :: _ => true
  | _ => false

private theorem tagged_cases {name : String} {tree : Tree} (member : name ∈ tagged) (derived : grammar.Derives (n name) tree) :
    ∃ keyword second rest, tree = .branch name (.leaf keyword :: .leaf second :: rest) := by
  have starts : ∀ rule ∈ rules, rule.lhs ∈ tagged → startsWithTokens rule.rhs = true := by decide +kernel
  obtain ⟨rule,listed,rfl,children,rfl,spelled⟩ := (derives_nonterminal_iff name tree).mp derived
  have shape := starts rule listed member
  unfold startsWithTokens at shape
  split at shape
  · rename_i keyword second rest rhs
    rw [rhs] at spelled
    obtain ⟨first,_,rfl,-,behind⟩ := (derivesAll_terminal_iff _ _ _).mp spelled
    obtain ⟨next,others,rfl,-⟩ := (derivesAll_terminal_iff _ _ _).mp behind
    exact ⟨first,next,others,rfl⟩
  · exact Bool.noConfusion shape

private theorem specifier_cases {tree : Tree} (derived : grammar.Derives (n "Specifier") tree) :
    (∃ token, tree = .branch "Specifier" [.leaf token]) ∨
    ∃ name keyword second rest, tree = .branch "Specifier" [.branch name (.leaf keyword :: .leaf second :: rest)] := by
  obtain ⟨rhs,member,children,rfl,spelled⟩ := spells_of_derives 17 rfl derived
  rcases List.mem_append.mp member with plain | structured
  · obtain ⟨kind,-,rfl⟩ := List.mem_map.mp plain
    simp only [derivesAll_terminal_iff,derivesAll_nil_iff] at spelled
    obtain ⟨token,_,rfl,-,rfl⟩ := spelled
    exact .inl ⟨token,rfl⟩
  · obtain ⟨name,inside,rfl⟩ := List.mem_map.mp structured
    simp only [derivesAll_nonterminal_iff,derivesAll_nil_iff] at spelled
    obtain ⟨inner,_,rfl,own,rfl⟩ := spelled
    obtain ⟨keyword,second,rest,rfl⟩ := tagged_cases inside own
    exact .inr ⟨name,keyword,second,rest,rfl⟩

private theorem readSpecifier_toNode {tree : Tree} (derived : grammar.Derives (n "Specifier") tree) (type : TypeName) :
    ∃ kind, lookahead tree.tokens = some kind ∧ readSpecifier type tree.toNode =
      .ok { type with specifiers := type.specifiers ++ [kind],tag := (tag? tree).getD type.tag } := by
  rcases specifier_cases derived with ⟨token,rfl⟩ | ⟨name,keyword,second,rest,rfl⟩
  · exact ⟨token.kind,rfl,rfl⟩
  · refine ⟨keyword.kind,rfl,?_⟩
    by_cases tag : second.kind = .identifier
    · simp [readSpecifier,tag?,tag]
    · simp [readSpecifier,tag?,tag]

private theorem outermost_self {name : String} {tree : Tree} (derived : grammar.Derives (n name) tree) :
    tree.outermost name = [tree] := by
  obtain ⟨-,-,-,children,rfl,-⟩ := (derives_nonterminal_iff name tree).mp derived
  simp

private theorem readSpecifiers_toNode (tree : Tree) (derived : grammar.Derives (n "Specifiers") tree) :
    ∃ type, readSpecifiers tree.toNode = .ok type ∧
      type.specifiers.map some = (tree.outermost "Specifier").map (fun specifier => lookahead specifier.tokens) ∧
      type.tag = ((tree.outermost "Specifier").filterMap tag?).getLast?.getD [] := by
  obtain ⟨rhs,member,children,rfl,spelled⟩ := spells_of_derives 16 rfl derived
  simp only [List.mem_cons,List.not_mem_nil,or_false] at member
  rcases member with rfl | rfl
  · simp only [derivesAll_nonterminal_iff,derivesAll_nil_iff] at spelled
    obtain ⟨last,_,rfl,own,rfl⟩ := spelled
    obtain ⟨kind,first,read⟩ := readSpecifier_toNode own {}
    have step : readSpecifiers (Tree.branch "Specifiers" [last]).toNode = readSpecifier {} last.toNode := by
      simp [readSpecifiers]
    refine ⟨_,step.trans read,?_,?_⟩
    · simp [outermost_self own,first]
    · cases tagged : tag? last <;> simp [outermost_self own,tagged]
  · simp only [derivesAll_nonterminal_iff,derivesAll_nil_iff] at spelled
    obtain ⟨init,_,rfl,others,last,_,rfl,own,rfl⟩ := spelled
    obtain ⟨type,front,keywords,tag⟩ := readSpecifiers_toNode init others
    obtain ⟨kind,first,read⟩ := readSpecifier_toNode own type
    have step : readSpecifiers (Tree.branch "Specifiers" [init,last]).toNode = readSpecifier type last.toNode := by
      simp [readSpecifiers,front]
    refine ⟨_,step.trans read,?_,?_⟩
    · simp [outermost_self own,first,keywords]
    · cases tagged : tag? last <;> simp [outermost_self own,tagged,tag]
termination_by sizeOf tree
decreasing_by all_goals subst_vars; decreasing_tactic

private theorem readType_toNode {tree : Tree} (derived : grammar.Derives (n "Type") tree) :
    ∃ type, readType tree.toNode = .ok type ∧ DenotesType tree type := by
  obtain ⟨rhs,member,children,rfl,spelled⟩ := spells_of_derives 15 rfl derived
  obtain rfl := List.mem_singleton.mp member
  simp only [derivesAll_nonterminal_iff,derivesAll_nil_iff] at spelled
  obtain ⟨specifiers,_,rfl,front,pointers,_,rfl,chain,rfl⟩ := spelled
  obtain ⟨type,read,keywords,tag⟩ := readSpecifiers_toNode specifiers front
  have stars := countPointers_toNode pointers chain
  refine ⟨{ type with pointers := pointers.tokens.countP (·.kind = .star) },?_,.type keywords tag rfl⟩
  simp [readType,read,stars]

private theorem readNamed_toNode {tree : Tree} (derived : grammar.Derives (n "TypeWithIdentifier") tree) :
    ∃ type name, readNamed tree.toNode = .ok (type,name) ∧ DenotesNamed tree type name := by
  obtain ⟨rhs,member,children,rfl,spelled⟩ := spells_of_derives 14 rfl derived
  obtain rfl := List.mem_singleton.mp member
  simp only [derivesAll_terminal_iff,derivesAll_nonterminal_iff,derivesAll_nil_iff] at spelled
  obtain ⟨inner,_,rfl,own,name,_,rfl,kind,rfl⟩ := spelled
  obtain ⟨type,read,denotes⟩ := readType_toNode own
  refine ⟨type,name.literal,?_,.named denotes kind⟩
  simp [readNamed,read,kind]

/-! ### Parameters -/

private theorem readParameter_toNode {tree : Tree} (derived : grammar.Derives (n "Parameter") tree) :
    ∃ parameter, readParameter tree.toNode = .ok parameter ∧ DenotesParameter tree parameter := by
  obtain ⟨rhs,member,children,rfl,spelled⟩ := spells_of_derives 8 rfl derived
  simp only [List.mem_cons,List.not_mem_nil,or_false] at member
  rcases member with rfl | rfl
  · simp only [derivesAll_nonterminal_iff,derivesAll_nil_iff] at spelled
    obtain ⟨inner,_,rfl,own,rfl⟩ := spelled
    obtain ⟨type,read,denotes⟩ := readType_toNode own
    refine ⟨⟨type,[]⟩,?_,.unnamed denotes⟩
    simp [readParameter,read]
  · simp only [derivesAll_nonterminal_iff,derivesAll_nil_iff] at spelled
    obtain ⟨inner,_,rfl,own,arrays,_,rfl,chain,rfl⟩ := spelled
    obtain ⟨type,name,read,denotes⟩ := readNamed_toNode own
    obtain ⟨count,counted,links⟩ := countArrays_toNode arrays chain
    refine ⟨⟨{ type with pointers := type.pointers + count },name⟩,?_,.named denotes links⟩
    simp [readParameter,read,counted]

private theorem readParameters_toNode (tree : Tree) (derived : grammar.Derives (n "Parameters") tree) :
    ∃ parameters, readParameters tree.toNode = .ok parameters ∧
      List.Forall₂ DenotesParameter (tree.outermost "Parameter") parameters := by
  obtain ⟨rhs,member,children,rfl,spelled⟩ := spells_of_derives 7 rfl derived
  simp only [List.mem_cons,List.not_mem_nil,or_false] at member
  rcases member with rfl | rfl
  · simp only [derivesAll_nonterminal_iff,derivesAll_nil_iff] at spelled
    obtain ⟨last,_,rfl,own,rfl⟩ := spelled
    obtain ⟨parameter,read,denotes⟩ := readParameter_toNode own
    refine ⟨[parameter],?_,?_⟩
    · simp [readParameters,read]
    · simp [outermost_self own,denotes]
  · simp only [derivesAll_terminal_iff,derivesAll_nonterminal_iff,derivesAll_nil_iff] at spelled
    obtain ⟨init,_,rfl,others,comma,_,rfl,-,last,_,rfl,own,rfl⟩ := spelled
    obtain ⟨parameters,front,all⟩ := readParameters_toNode init others
    obtain ⟨parameter,read,denotes⟩ := readParameter_toNode own
    refine ⟨parameters ++ [parameter],?_,?_⟩
    · simp [readParameters,read,front]
    · simpa [outermost_self own] using
        List.rel_append all (List.Forall₂.cons denotes .nil)
termination_by sizeOf tree
decreasing_by all_goals subst_vars; decreasing_tactic

private theorem loneVoid_singleton_iff (parameter : Parameter) :
    LoneVoid [parameter] ↔ parameter.name = [] ∧ parameter.type.isVoid = true := by
  simp [LoneVoid,TypeName.isVoid]

private theorem readParameterList_toNode {tree : Tree} (derived : grammar.Derives (n "ParameterList") tree) :
    ∃ parameters, readParameterList tree.toNode = .ok parameters ∧ DenotesParameters tree parameters := by
  obtain ⟨rhs,member,children,rfl,spelled⟩ := spells_of_derives 6 rfl derived
  simp only [List.mem_cons,List.not_mem_nil,or_false] at member
  rcases member with rfl | rfl
  · obtain rfl := (derivesAll_nil_iff children).mp spelled
    refine ⟨[],rfl,.listed ?_ (by simp [LoneVoid])⟩
    simp 
  · simp only [derivesAll_nonterminal_iff,derivesAll_nil_iff] at spelled
    obtain ⟨list,_,rfl,own,rfl⟩ := spelled
    obtain ⟨parameters,read,all⟩ := readParameters_toNode list own
    have whole : List.Forall₂ DenotesParameter ((Tree.branch "ParameterList" [list]).outermost "Parameter") parameters := by
      simpa  using all
    rcases parameters with _ | ⟨parameter,_ | ⟨second,others⟩⟩
    · refine ⟨[],?_,.listed whole (by simp [LoneVoid])⟩
      simp [readParameterList,read]
    · by_cases lone : parameter.name = [] ∧ parameter.type.isVoid = true
      · refine ⟨[],?_,.void whole ((loneVoid_singleton_iff parameter).mpr lone)⟩
        simp [readParameterList,read,lone]
      · refine ⟨[parameter],?_,.listed whole (mt (loneVoid_singleton_iff parameter).mp lone)⟩
        simpa [readParameterList,read] using lone
    · refine ⟨parameter :: second :: others,?_,.listed whole (by simp [LoneVoid])⟩
      simp [readParameterList,read]

private theorem readHeader_toNode {tree : Tree} (derived : grammar.Derives (n "FunctionHeader") tree) :
    ∃ header, readHeader tree.toNode = .ok header ∧ DenotesHeader tree header := by
  obtain ⟨rhs,member,children,rfl,spelled⟩ := spells_of_derives 5 rfl derived
  obtain rfl := List.mem_singleton.mp member
  simp only [derivesAll_terminal_iff,derivesAll_nonterminal_iff,derivesAll_nil_iff] at spelled
  obtain ⟨inner,_,rfl,own,left,_,rfl,-,list,_,rfl,within,right,_,rfl,-,rfl⟩ := spelled
  obtain ⟨type,name,read,denotes⟩ := readNamed_toNode own
  obtain ⟨parameters,others,all⟩ := readParameterList_toNode within
  refine ⟨⟨type,name,parameters⟩,?_,.header denotes all⟩
  simp [readHeader,read,others]

/-! ### Statements -/

private theorem readObject_toNode {tree : Tree} (derived : grammar.Derives (n "Declaration") tree) (semicolon : Token) :
    ∃ declaration, readObject tree.toNode = .ok declaration ∧
      Denotes (.branch "TopStatement" [tree,.leaf semicolon]) declaration := by
  obtain ⟨rhs,member,children,rfl,spelled⟩ := spells_of_derives 11 rfl derived
  obtain rfl := List.mem_singleton.mp member
  simp only [derivesAll_nonterminal_iff,derivesAll_nil_iff] at spelled
  obtain ⟨inner,_,rfl,own,arrays,_,rfl,chain,init,_,rfl,last,rfl⟩ := spelled
  obtain ⟨type,name,read,denotes⟩ := readNamed_toNode own
  obtain ⟨count,counted,links⟩ := countArrays_toNode arrays chain
  obtain ⟨rhs,member,children,rfl,spelled⟩ := spells_of_derives 12 rfl last
  simp only [List.mem_cons,List.not_mem_nil,or_false] at member
  rcases member with rfl | rfl
  · obtain rfl := (derivesAll_nil_iff children).mp spelled
    refine ⟨.object type name count none,?_,.object denotes links⟩
    simp [readObject,read,counted]
  · simp only [derivesAll_terminal_iff,derivesAll_nonterminal_iff,derivesAll_nil_iff] at spelled
    obtain ⟨assign,_,rfl,-,initializer,_,rfl,value,rfl⟩ := spelled
    obtain ⟨-,-,-,parts,rfl,-⟩ := (derives_nonterminal_iff _ _).mp value
    refine ⟨.object type name count (some (Tree.branch "Initializer" parts).toNode),?_,.initialized denotes links⟩
    simp [readObject,read,counted]

private theorem readTypedef_toNode {tree : Tree} (derived : grammar.Derives (n "Typedef") tree) (semicolon : Token) :
    ∃ declaration, readTypedef tree.toNode = .ok declaration ∧
      Denotes (.branch "TopStatement" [tree,.leaf semicolon]) declaration := by
  obtain ⟨rhs,member,children,rfl,spelled⟩ := spells_of_derives 9 rfl derived
  obtain rfl := List.mem_singleton.mp member
  simp only [derivesAll_terminal_iff,derivesAll_nonterminal_iff,derivesAll_nil_iff] at spelled
  obtain ⟨keyword,_,rfl,kind,inner,_,rfl,own,arrays,_,rfl,chain,rfl⟩ := spelled
  obtain ⟨type,name,read,denotes⟩ := readNamed_toNode own
  obtain ⟨count,counted,links⟩ := countArrays_toNode arrays chain
  refine ⟨.typedef type name count,?_,.typedef denotes links⟩
  simp [readTypedef,kind,read,counted]

private theorem readForward_toNode {tree : Tree} (derived : grammar.Derives (n "ForwardDeclaration") tree) (semicolon : Token) :
    ∃ declaration, readForward tree.toNode = .ok declaration ∧
      Denotes (.branch "TopStatement" [tree,.leaf semicolon]) declaration := by
  obtain ⟨rhs,member,children,rfl,spelled⟩ := spells_of_derives 3 rfl derived
  obtain rfl := List.mem_singleton.mp member
  simp only [derivesAll_nonterminal_iff,derivesAll_nil_iff] at spelled
  obtain ⟨inner,_,rfl,own,rfl⟩ := spelled
  obtain ⟨header,read,denotes⟩ := readHeader_toNode own
  refine ⟨.forward header,?_,.forward denotes⟩
  simp [readForward,read]

private theorem readFunction_toNode {tree : Tree} (derived : grammar.Derives (n "FunctionDefinition") tree) :
    ∃ declaration, readFunction tree.toNode = .ok declaration ∧ Denotes (.branch "TopStatement" [tree]) declaration := by
  obtain ⟨rhs,member,children,rfl,spelled⟩ := spells_of_derives 4 rfl derived
  obtain rfl := List.mem_singleton.mp member
  simp only [derivesAll_nonterminal_iff,derivesAll_nil_iff] at spelled
  obtain ⟨inner,_,rfl,own,body,_,rfl,block,rfl⟩ := spelled
  obtain ⟨-,-,-,items,rfl,-⟩ := (derives_nonterminal_iff _ _).mp block
  obtain ⟨header,read,denotes⟩ := readHeader_toNode own
  refine ⟨.function header (Tree.branch "Block" items).toNode,?_,.function denotes⟩
  simp [readFunction,read]

private theorem readTypeDeclaration_toNode {tree : Tree} (derived : grammar.Derives (n "TypeDeclaration") tree)
    (semicolon : Token) :
    ∃ declaration, readTypeDeclaration tree.toNode = .ok declaration ∧
      Denotes (.branch "TopStatement" [tree,.leaf semicolon]) declaration := by
  obtain ⟨rhs,member,children,rfl,spelled⟩ := spells_of_derives 10 rfl derived
  obtain rfl := List.mem_singleton.mp member
  simp only [derivesAll_nonterminal_iff,derivesAll_nil_iff] at spelled
  obtain ⟨inner,_,rfl,own,rfl⟩ := spelled
  obtain ⟨type,read,denotes⟩ := readType_toNode own
  refine ⟨.typeOnly type,?_,.typeOnly denotes⟩
  simp [readTypeDeclaration,read]

private theorem readStatement_toNode {tree : Tree} (derived : grammar.Derives (n "TopStatement") tree) :
    ∃ declaration, readStatement tree.toNode = .ok declaration ∧ Denotes tree declaration := by
  obtain ⟨rhs,member,children,rfl,spelled⟩ := spells_of_derives 2 rfl derived
  simp only [List.mem_cons,List.not_mem_nil,or_false] at member
  rcases member with rfl | rfl | rfl | rfl | rfl | rfl
  all_goals simp only [derivesAll_terminal_iff,derivesAll_nonterminal_iff,derivesAll_nil_iff] at spelled
  · obtain ⟨inner,_,rfl,own,semicolon,_,rfl,kind,rfl⟩ := spelled
    obtain ⟨declaration,read,denotes⟩ := readObject_toNode own semicolon
    obtain ⟨-,-,-,parts,rfl,-⟩ := (derives_nonterminal_iff _ _).mp own
    exact ⟨declaration,by simpa [readStatement,kind] using read,denotes⟩
  · obtain ⟨inner,_,rfl,own,semicolon,_,rfl,kind,rfl⟩ := spelled
    obtain ⟨declaration,read,denotes⟩ := readForward_toNode own semicolon
    obtain ⟨-,-,-,parts,rfl,-⟩ := (derives_nonterminal_iff _ _).mp own
    exact ⟨declaration,by simpa [readStatement,kind] using read,denotes⟩
  · obtain ⟨inner,_,rfl,own,rfl⟩ := spelled
    obtain ⟨declaration,read,denotes⟩ := readFunction_toNode own
    obtain ⟨-,-,-,parts,rfl,-⟩ := (derives_nonterminal_iff _ _).mp own
    exact ⟨declaration,by simpa [readStatement] using read,denotes⟩
  · obtain ⟨inner,_,rfl,own,semicolon,_,rfl,kind,rfl⟩ := spelled
    obtain ⟨declaration,read,denotes⟩ := readTypedef_toNode own semicolon
    obtain ⟨-,-,-,parts,rfl,-⟩ := (derives_nonterminal_iff _ _).mp own
    exact ⟨declaration,by simpa [readStatement,kind] using read,denotes⟩
  · obtain ⟨inner,_,rfl,own,semicolon,_,rfl,kind,rfl⟩ := spelled
    obtain ⟨declaration,read,denotes⟩ := readTypeDeclaration_toNode own semicolon
    obtain ⟨-,-,-,parts,rfl,-⟩ := (derives_nonterminal_iff _ _).mp own
    exact ⟨declaration,by simpa [readStatement,kind] using read,denotes⟩
  · obtain ⟨semicolon,_,rfl,kind,rfl⟩ := spelled
    exact ⟨.empty,by simp [readStatement,kind],.empty⟩

/-- Nothing but the chain at the top has a top statement in it. -/
theorem below_top : ∀ rule ∈ rules, rule.lhs ∉ ["Start","TopStatements"] →
    ∀ symbol ∈ rule.rhs, symbol ∉ [n "Start",n "TopStatements",n "TopStatement"] := by
  decide +kernel

mutual

private theorem nodes_eq_nil : (tree : Tree) → ∀ {symbol : Symbol}, grammar.Derives symbol tree →
    symbol ∉ [n "Start",n "TopStatements",n "TopStatement"] → tree.nodes "TopStatement" = []
  | .leaf _, _, _, _ => rfl
  | .branch label children, symbol, derived, other => by
    cases symbol with
    | terminal kind => simp [Grammar.Derives] at derived
    | nonterminal name =>
      obtain ⟨rfl,rule,member,rfl,spelled⟩ := derived
      simp only [n,List.mem_cons,Symbol.nonterminal.injEq,List.not_mem_nil,or_false,not_or] at other
      have below := below_top rule member (by simp [other])
      simp [other,nodesAll_eq_nil children spelled below]

private theorem nodesAll_eq_nil : (trees : List Tree) → ∀ {symbols : List Symbol}, grammar.DerivesAll symbols trees →
    (∀ symbol ∈ symbols, symbol ∉ [n "Start",n "TopStatements",n "TopStatement"]) →
    Tree.nodesAll "TopStatement" trees = []
  | [], _, _, _ => rfl
  | tree :: trees, symbols, derived, others => by
    obtain ⟨symbol,tail,rfl,own,rest⟩ := (Grammar.derivesAll_tree_cons_iff symbols tree trees).mp derived
    obtain ⟨first,later⟩ := List.forall_mem_cons.mp others
    simp [nodes_eq_nil tree own first,nodesAll_eq_nil trees rest later]

end

private theorem nodes_topStatement {tree : Tree} (derived : grammar.Derives (n "TopStatement") tree) :
    tree.nodes "TopStatement" = [tree] := by
  obtain ⟨rule,member,lhs,children,rfl,spelled⟩ := (derives_nonterminal_iff _ _).mp derived
  simp [nodesAll_eq_nil children spelled (below_top rule member (by simp [lhs]))]

private theorem readStatements_toNode (tree : Tree) (derived : grammar.Derives (n "TopStatements") tree) :
    ∃ declarations, readStatements tree.toNode = .ok declarations ∧
      List.Forall₂ Denotes (tree.nodes "TopStatement") declarations := by
  obtain ⟨rhs,member,children,rfl,spelled⟩ := spells_of_derives 1 rfl derived
  simp only [List.mem_cons,List.not_mem_nil,or_false] at member
  rcases member with rfl | rfl
  · obtain rfl := (derivesAll_nil_iff children).mp spelled
    exact ⟨[],rfl,by simp⟩
  · simp only [derivesAll_nonterminal_iff,derivesAll_nil_iff] at spelled
    obtain ⟨first,_,rfl,own,rest,_,rfl,others,rfl⟩ := spelled
    obtain ⟨declaration,read,denotes⟩ := readStatement_toNode own
    obtain ⟨declarations,later,all⟩ := readStatements_toNode rest others
    refine ⟨declaration :: declarations,?_,?_⟩
    · simp [readStatements,read,later]
    · simp [nodes_topStatement own,denotes,all]
termination_by sizeOf tree
decreasing_by all_goals subst_vars; decreasing_tactic

/-- The reader accepts every derivation in the grammar of C, and so every tree that a parse returns. It gives one
    declaration for each top statement, in order, which is what the top statement declares. -/
theorem read_derivation :
    (∀ tokens tree, grammar.DerivationOf tokens tree → ∃ declarations, Declaration.read tree.toNode = .ok declarations ∧
      List.Forall₂ Denotes (tree.nodes "TopStatement") declarations) ∧
    ∀ options stream tree, Parser.parse grammar options stream = .ok tree →
      ∃ declarations, Declaration.read tree.toNode = .ok declarations ∧
        List.Forall₂ Denotes (tree.nodes "TopStatement") declarations := by
  have accepts : ∀ tokens tree, grammar.DerivationOf tokens tree →
      ∃ declarations, Declaration.read tree.toNode = .ok declarations ∧
        List.Forall₂ Denotes (tree.nodes "TopStatement") declarations := by
    intro tokens tree derivation
    obtain ⟨rhs,member,children,rfl,spelled⟩ := spells_of_derives 0 rfl derivation.1
    obtain rfl := List.mem_singleton.mp member
    simp only [derivesAll_nonterminal_iff,derivesAll_nil_iff] at spelled
    obtain ⟨inner,_,rfl,own,rfl⟩ := spelled
    obtain ⟨declarations,read,all⟩ := readStatements_toNode inner own
    exact ⟨declarations,by simp [Declaration.read,read],by simpa using all⟩
  exact ⟨accepts,fun options stream tree parsed => accepts _ tree (Parser.derivation_of_parse parsed)⟩

/-- An identifier of one letter. -/
def letter (byte : UInt8) : Token := { Token.bare .identifier with literal := [byte] }

/-- A type with one specifier. -/
def simpleType (specifier pointers : Tree) : Tree :=
  .branch "Type" [.branch "Specifiers" [.branch "Specifier" [specifier]],pointers]

/-- Two stars. -/
def twoStars : Tree :=
  .branch "Pointers" [.leaf (.bare .star),.branch "Pointers" [.leaf (.bare .star),.branch "Pointers" []]]

/-- A function that takes nothing. -/
def voidHeader : Tree :=
  .branch "FunctionHeader" [
    .branch "TypeWithIdentifier" [simpleType (.leaf (.bare .kwInt)) (.branch "Pointers" []),.leaf (letter 102)],
    .leaf (.bare .leftParen),
    .branch "ParameterList" [.branch "Parameters" [.branch "Parameter" [
      simpleType (.leaf (.bare .kwVoid)) (.branch "Pointers" [])]]],
    .leaf (.bare .rightParen)]

/-- An array of pointers to pointers to a struct. -/
def structArray : Tree :=
  .branch "Declaration" [
    .branch "TypeWithIdentifier" [
      simpleType (.branch "StructType" [.leaf (.bare .kwStruct),.leaf (letter 115)]) twoStars,.leaf (letter 97)],
    .branch "Arrays" [.leaf (.bare .leftBracket),.leaf (.bare .rightBracket),.branch "Arrays" []],.branch "Init" []]

/-- The function and the array, both without a definition. -/
def twoDeclarations : Tree :=
  .branch "Start" [.branch "TopStatements" [
    .branch "TopStatement" [.branch "ForwardDeclaration" [voidHeader],.leaf (.bare .semicolon)],
    .branch "TopStatements" [
      .branch "TopStatement" [structArray,.leaf (.bare .semicolon)],.branch "TopStatements" []]]]

private theorem derives_simpleType (index : Nat) {symbol : Symbol} {specifier pointers : Tree}
    (listed : rules[index]? = some ⟨"Specifier",[symbol]⟩) (own : grammar.Derives symbol specifier)
    (chain : grammar.Derives (n "Pointers") pointers) : grammar.Derives (n "Type") (simpleType specifier pointers) :=
  derives_of_getElem? 33 rfl
    ⟨derives_of_getElem? 34 rfl ⟨derives_of_getElem? index listed ⟨own,trivial⟩,trivial⟩,chain,trivial⟩

private theorem derives_voidHeader : grammar.Derives (n "FunctionHeader") voidHeader := by
  have plain : grammar.Derives (n "Pointers") (.branch "Pointers" []) := derives_of_getElem? 59 rfl trivial
  exact derives_of_getElem? 11 rfl
    ⟨derives_of_getElem? 32 rfl ⟨derives_simpleType 39 rfl rfl plain,rfl,trivial⟩,rfl,
      derives_of_getElem? 13 rfl ⟨derives_of_getElem? 14 rfl ⟨derives_of_getElem? 16 rfl
        ⟨derives_simpleType 36 rfl rfl plain,trivial⟩,trivial⟩,trivial⟩,rfl,trivial⟩

private theorem derives_structArray : grammar.Derives (n "Declaration") structArray := by
  have pointers : grammar.Derives (n "Pointers") twoStars :=
    derives_of_getElem? 60 rfl ⟨rfl,derives_of_getElem? 60 rfl ⟨rfl,derives_of_getElem? 59 rfl trivial,trivial⟩,trivial⟩
  have tagged : grammar.Derives (n "StructType") (.branch "StructType" [.leaf (.bare .kwStruct),.leaf (letter 115)]) :=
    derives_of_getElem? 64 rfl ⟨rfl,rfl,trivial⟩
  exact derives_of_getElem? 20 rfl
    ⟨derives_of_getElem? 32 rfl ⟨derives_simpleType 56 rfl tagged pointers,rfl,trivial⟩,
      derives_of_getElem? 30 rfl ⟨rfl,rfl,derives_of_getElem? 29 rfl trivial,trivial⟩,
      derives_of_getElem? 21 rfl trivial,trivial⟩

/-- The two declarations are read in order, the lone `void` as no parameter. -/
theorem read_derivation_twoDeclarations :
    grammar.DerivationOf twoDeclarations.tokens twoDeclarations ∧
    Declaration.read twoDeclarations.toNode =
      .ok [.forward ⟨⟨[.kwInt],[],0⟩,[102],[]⟩,.object ⟨[.kwStruct],[115],2⟩ [97] 1 none] ∧
    ∃ declarations, Declaration.read twoDeclarations.toNode = .ok declarations ∧
      List.Forall₂ Denotes (twoDeclarations.nodes "TopStatement") declarations := by
  have derivation : grammar.DerivationOf twoDeclarations.tokens twoDeclarations :=
    ⟨derives_of_getElem? 0 rfl ⟨derives_of_getElem? 2 rfl
      ⟨derives_of_getElem? 4 rfl ⟨derives_of_getElem? 9 rfl ⟨derives_voidHeader,trivial⟩,rfl,trivial⟩,
        derives_of_getElem? 2 rfl ⟨derives_of_getElem? 3 rfl ⟨derives_structArray,rfl,trivial⟩,
          derives_of_getElem? 1 rfl trivial,trivial⟩,trivial⟩,trivial⟩,rfl⟩
  exact ⟨derivation,rfl,read_derivation.1 _ _ derivation⟩

end CFrontend.CLanguage
