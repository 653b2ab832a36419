import CFrontend.Proofs.Derivation
import CFrontend.Proofs.RuleOrder
import CFrontend.Proofs.TokenText
import CFrontend.Tree.Rendering

/-!
Trees are read back from what is shown of them. Two trees over the same tokens are read side by side: the leaves are the same token after
token, so that a leaf takes up as much of either text, whatever is in it, and a node starts with a name that shows where it ends. On
one line nothing but a blank or a closing parenthesis follows a tree, so that a leaf `(` is told from a node
(`sexpr_append_injective`). In the outline what follows the lines of a tree is less indented than its children, and the line of a
leaf has a blank in it (`outline_append_injective`).
-/
namespace CFrontend

/-! ### Names -/

/-- A name without the characters that end it in a rendering. -/
def Bounded (name : String) : Prop := ∀ stop ∈ [' ','\n',')'], stop ∉ name.toList

/-- A text that starts with a character that ends a name. -/
def Stops (text : List Char) : Prop := ∃ stop ∈ [' ','\n',')'], text.head? = some stop

private theorem Bounded.append_injective {name label : String} (named : Bounded name) (labelled : Bounded label)
    {left right : List Char}
    (stops : Stops left) (stops' : Stops right) (same : name.toList ++ left = label.toList ++ right) : name = label ∧ left = right := by
  rcases List.append_eq_append_iff.mp same with ⟨more,longer,rest⟩ | ⟨more,longer,rest⟩
  · cases more with
    | nil => exact ⟨String.toList_inj.mp (by simpa using longer.symm),by simpa using rest⟩
    | cons c more =>
      obtain ⟨stop,listed,head⟩ := stops
      obtain rfl : c = stop := by simpa [rest] using head
      exact absurd (by simp [longer]) (labelled c listed)
  · cases more with
    | nil => exact ⟨String.toList_inj.mp (by simpa using longer),by simpa using rest.symm⟩
    | cons c more =>
      obtain ⟨stop,listed,head⟩ := stops'
      obtain rfl : c = stop := by simpa [rest] using head
      exact absurd (by simp [longer]) (named c listed)

/-- Two texts that end differently differ, when neither contains the end of the other. -/
theorem append_cons_ne {α : Type} {first second left right : List α} {stop stop' : α} (other : stop ≠ stop') (without : stop' ∉ first)
    (without' : stop ∉ second) : first ++ stop :: left ≠ second ++ stop' :: right := by
  intro same
  rcases List.append_eq_append_iff.mp same with ⟨more,rfl,rest⟩ | ⟨more,rfl,rest⟩
  · cases more with
    | nil => exact other (List.cons.inj rest).1
    | cons c more => exact without' (by simp [(List.cons.inj rest).1])
  · cases more with
    | nil => exact other (List.cons.inj rest).1.symm
    | cons c more => exact without (by simp [(List.cons.inj rest).1])

namespace Tree

mutual

/-- A tree of legible tokens and names that show where they end. -/
def Readable : Tree → Prop
  | .leaf token => token.Legible
  | .branch name children => name ≠ "" ∧ Bounded name ∧ ForestReadable children

/-- Several such trees. -/
def ForestReadable : List Tree → Prop
  | [] => True
  | tree :: rest => tree.Readable ∧ ForestReadable rest

end

mutual

private theorem readable_of_derives {grammar : Grammar} (names : ∀ rule ∈ grammar.rules, rule.lhs ≠ "" ∧ Bounded rule.lhs)
    {symbol : Symbol} :
    (tree : Tree) → grammar.Derives symbol tree → (∀ token ∈ tree.tokens, token.Legible) → tree.Readable
  | .leaf token, _, legible => legible token (by simp [tokens])
  | .branch name children, derived, legible => by
    cases symbol with
    | terminal kind => simp [Grammar.Derives] at derived
    | nonterminal label =>
      obtain ⟨rfl,rule,member,rfl,inner⟩ := derived
      exact ⟨(names rule member).1,(names rule member).2,forestReadable_of_derivesAll names children inner legible⟩

private theorem forestReadable_of_derivesAll {grammar : Grammar} (names : ∀ rule ∈ grammar.rules, rule.lhs ≠ "" ∧ Bounded rule.lhs)
    {symbols : List Symbol} : (trees : List Tree) → grammar.DerivesAll symbols trees → (∀ token ∈ forestTokens trees, token.Legible) →
      ForestReadable trees
  | [], _, _ => trivial
  | tree :: rest, derived, legible => by
    obtain ⟨symbol,tail,rfl,own,others⟩ := (Grammar.derivesAll_tree_cons_iff symbols tree rest).mp derived
    simp only [forestTokens,List.mem_append] at legible
    exact ⟨readable_of_derives names tree own fun token member => legible token (.inl member),
      forestReadable_of_derivesAll names rest others fun token member => legible token (.inr member)⟩

end

/-! ### One line -/

/-- What can follow a tree on one line. -/
def Closed (text : List Char) : Prop := text = [] ∨ ∃ stop ∈ [' ',')'], text.head? = some stop

private theorem sexpr_branch (name : String) (children : List Tree) :
    (Tree.branch name children).sexpr.toList = '(' :: (name.toList ++ ((sexprs children).toList ++ [')'])) := by
  simp [sexpr]

private theorem sexprs_cons (tree : Tree) (rest : List Tree) :
    (sexprs (tree :: rest)).toList = ' ' :: (tree.sexpr.toList ++ (sexprs rest).toList) := by
  simp [sexprs]

/-- A leaf is told from a node by what follows a parenthesis. -/
theorem leaf_ne_branch {token : Token} (legible : token.Legible) {name : String} (some : name ≠ "") (bounded : Bounded name)
    {left right : List Char} (closed : Closed left) : token.leafText.toList ++ left ≠ '(' :: (name.toList ++ right) := by
  intro same
  -- behind a leaf without a text the parenthesis would follow a tree, and behind the leaf `(` the name would
  cases text : token.leafText.toList with
  | nil =>
    rw [text,List.nil_append] at same
    rcases closed with rfl | ⟨stop,listed,head⟩
    · simp at same
    · rw [same,List.head?_cons,Option.some.injEq] at head
      subst head
      revert listed
      decide
  | cons c rest =>
    obtain rfl : c = '(' := by
      rw [text] at same
      exact (List.cons.inj same).1
    rw [legible.bracket (by rw [text]; rfl)] at same
    have behind : left = name.toList ++ right := (List.cons.inj same).2
    obtain ⟨first,others,characters⟩ := List.exists_cons_of_ne_nil (String.toList_eq_nil_iff.not.mpr some)
    rw [characters] at behind
    rcases closed with rfl | ⟨stop,listed,head⟩
    · simp at behind
    · obtain rfl : first = stop := by simpa [behind] using head
      refine bounded first ?_ (by simp [characters])
      revert listed
      simp
      tauto

private theorem stops_sexprs (children : List Tree) (rest : List Char) : Stops ((sexprs children).toList ++ ')' :: rest) := by
  cases children with
  | nil => exact ⟨')',by simp,rfl⟩
  | cons tree others => exact ⟨' ',by simp,by simp [sexprs_cons]⟩

private theorem closed_sexprs (children : List Tree) (rest : List Char) : Closed ((sexprs children).toList ++ ')' :: rest) := by
  cases children with
  | nil => exact .inr ⟨')',by simp,rfl⟩
  | cons tree others => exact .inr ⟨' ',by simp,by simp [sexprs_cons]⟩

mutual

/-- Trees with the same tokens and the same text on one line are equal, whatever tokens and closed text follow. -/
theorem sexpr_append_injective : (first second : Tree) → first.Readable → second.Readable → ∀ {left right : List Char}
    {before after : List Token}, Closed left → Closed right → first.sexpr.toList ++ left = second.sexpr.toList ++ right →
    first.tokens ++ before = second.tokens ++ after → first = second ∧ left = right ∧ before = after
  | .leaf token, .leaf token', _, _, left, right, before, after, _, _, text, leaves => by
    obtain ⟨rfl,rfl⟩ := List.cons.inj leaves
    exact ⟨rfl,List.append_cancel_left text,rfl⟩
  | .leaf token, .branch name children, legible, readable, left, right, _, _, closed, _, text, _ => by
    rw [sexpr_branch,List.cons_append,List.append_assoc] at text
    exact absurd text (leaf_ne_branch legible readable.1 readable.2.1 closed)
  | .branch name children, .leaf token, readable, legible, left, right, _, _, _, closed, text, _ => by
    rw [sexpr_branch,List.cons_append,List.append_assoc] at text
    exact absurd text.symm (leaf_ne_branch legible readable.1 readable.2.1 closed)
  | .branch name children, .branch name' children', readable, readable', left, right, before, after, _, _, text, leaves => by
    rw [sexpr_branch,sexpr_branch] at text
    simp only [List.cons_append,List.append_assoc,List.nil_append,List.cons.injEq,true_and] at text
    obtain ⟨rfl,inner⟩ := readable.2.1.append_injective readable'.2.1 (stops_sexprs _ _) (stops_sexprs _ _) text
    obtain ⟨rfl,same⟩ := sexprs_append_injective children children' readable.2.2 readable'.2.2 inner leaves
    exact ⟨rfl,same⟩

private theorem sexprs_append_injective :
    (first second : List Tree) → ForestReadable first → ForestReadable second → ∀ {left right : List Char}
    {before after : List Token}, (sexprs first).toList ++ ')' :: left = (sexprs second).toList ++ ')' :: right →
    forestTokens first ++ before = forestTokens second ++ after → first = second ∧ left = right ∧ before = after
  | [], [], _, _, left, right, before, after, text, leaves => ⟨rfl,(List.cons.inj text).2,leaves⟩
  | [], tree :: rest, _, _, left, right, _, _, text, _ => by simp [sexprs] at text
  | tree :: rest, [], _, _, left, right, _, _, text, _ => by simp [sexprs] at text
  | tree :: rest, tree' :: rest', readable, readable', left, right, before, after, text, leaves => by
    simp only [sexprs_cons,List.cons_append,List.append_assoc,List.cons.injEq,true_and] at text
    simp only [forestTokens,List.append_assoc] at leaves
    obtain ⟨rfl,others,later⟩ := sexpr_append_injective tree tree' readable.1 readable'.1 (closed_sexprs _ _) (closed_sexprs _ _) text leaves
    obtain ⟨rfl,same⟩ := sexprs_append_injective rest rest' readable.2 readable'.2 others later
    exact ⟨rfl,same⟩

end

/-! ### The outline -/

/-- The characters of the outline of a tree at a depth. -/
def shown (depth : Nat) (tree : Tree) : List Char := (outlineAt depth tree).flatMap String.toList

/-- The characters of the outlines of several trees at a depth. -/
def forestShown (depth : Nat) (trees : List Tree) : List Char := (outlinesAt depth trees).flatMap String.toList

private theorem outline_toList (tree : Tree) : tree.outline.toList = tree.shown 0 := by
  rw [outline,String.toList_join,shown]

private theorem shown_leaf (depth : Nat) (token : Token) : (Tree.leaf token).shown depth =
    List.replicate (2 * depth) ' ' ++ (token.text.toList ++ ' ' :: ('@' :: (token.pos.text.toList ++ ['\n']))) := by
  simp [shown,outlineAt,indentation]

private theorem shown_branch (depth : Nat) (name : String) (children : List Tree) : (Tree.branch name children).shown depth =
    List.replicate (2 * depth) ' ' ++ (name.toList ++ '\n' :: forestShown (depth + 1) children) := by
  simp [shown,forestShown,outlineAt,indentation]

private theorem forestShown_cons (depth : Nat) (tree : Tree) (rest : List Tree) :
    forestShown depth (tree :: rest) = tree.shown depth ++ forestShown depth rest := by
  simp [shown,forestShown,outlinesAt]

/-- The text does not start with a line of a depth or deeper. -/
def Shallow (depth : Nat) (text : List Char) : Prop := ¬ List.replicate (2 * depth) ' ' <+: text

theorem Shallow.succ {depth : Nat} {text : List Char} (shallow : Shallow depth text) : Shallow (depth + 1) text := by
  intro deeper
  refine shallow (List.IsPrefix.trans ?_ deeper)
  exact ⟨[' ',' '],by rw [Nat.mul_succ,List.replicate_add]; rfl⟩

/-- The first line of a tree is not deeper than the tree. -/
theorem shallow_shown {tree : Tree} (readable : tree.Readable) (depth : Nat) (text : List Char) :
    Shallow (depth + 1) (tree.shown depth ++ text) := by
  have blanks : List.replicate (2 * (depth + 1)) ' ' = List.replicate (2 * depth) ' ' ++ [' ',' '] := by
    rw [Nat.mul_succ,List.replicate_add]
    rfl
  unfold Shallow
  cases tree with
  | leaf token =>
    have start := Token.Legible.line readable |>.2
    rw [blanks,shown_leaf,List.append_assoc,List.prefix_append_right_inj]
    cases text : token.text.toList with
    | nil => simp
    | cons c rest =>
      rw [text] at start
      simp only [List.cons_append,List.cons_prefix_cons]
      rintro ⟨rfl,-⟩
      exact start rfl
  | branch name children =>
    obtain ⟨first,rest,characters⟩ := List.exists_cons_of_ne_nil (String.toList_eq_nil_iff.not.mpr readable.1)
    rw [blanks,shown_branch,List.append_assoc,List.prefix_append_right_inj,characters]
    simp only [List.cons_append,List.cons_prefix_cons]
    rintro ⟨rfl,-⟩
    exact readable.2.1 ' ' (by simp) (by simp [characters])

private theorem shallow_forestShown {trees : List Tree} (readable : ForestReadable trees) {depth : Nat} {text : List Char}
    (shallow : Shallow depth text) : Shallow (depth + 1) (forestShown depth trees ++ text) := by
  cases trees with
  | nil => exact shallow.succ
  | cons tree rest =>
    rw [forestShown_cons,List.append_assoc]
    exact shallow_shown readable.1 depth _

private theorem not_shallow_shown (depth : Nat) (tree : Tree) (text : List Char) : ¬ Shallow depth (tree.shown depth ++ text) := by
  refine not_not_intro ?_
  cases tree with
  | leaf token => exact ⟨_,by rw [shown_leaf,List.append_assoc]⟩
  | branch name children => exact ⟨_,by rw [shown_branch,List.append_assoc]⟩

/-- The line of a leaf has a blank in it, that of a node has not. -/
theorem shown_leaf_ne_branch {token : Token} (legible : token.Legible) {name : String} (bounded : Bounded name) (depth : Nat)
    (children : List Tree) (left right : List Char) :
    (Tree.leaf token).shown depth ++ left ≠ (Tree.branch name children).shown depth ++ right := by
  rw [shown_leaf,shown_branch]
  simp only [List.append_assoc,List.cons_append,ne_eq,List.append_cancel_left_eq]
  exact append_cons_ne (by decide) legible.line.1 (bounded ' ' (by simp))

mutual

/-- Trees with the same tokens and the same outline are equal, whatever tokens and lines that are not deeper follow. -/
theorem outline_append_injective : (first second : Tree) → first.Readable → second.Readable → ∀ {depth : Nat} {left right : List Char}
    {before after : List Token}, Shallow (depth + 1) left → Shallow (depth + 1) right →
    first.shown depth ++ left = second.shown depth ++ right →
    first.tokens ++ before = second.tokens ++ after → first = second ∧ left = right ∧ before = after
  | .leaf token, .leaf token', _, _, depth, left, right, before, after, _, _, text, leaves => by
    obtain ⟨rfl,rfl⟩ := List.cons.inj leaves
    exact ⟨rfl,List.append_cancel_left text,rfl⟩
  | .leaf token, .branch name children, legible, readable, depth, left, right, _, _, _, _, text, _ =>
    absurd text (shown_leaf_ne_branch legible readable.2.1 depth children left right)
  | .branch name children, .leaf token, readable, legible, depth, left, right, _, _, _, _, text, _ =>
    absurd text.symm (shown_leaf_ne_branch legible readable.2.1 depth children right left)
  | .branch name children, .branch name' children', readable, readable', depth, left, right, before, after, shallow, shallow', text,
      leaves => by
    rw [shown_branch,shown_branch] at text
    simp only [List.append_assoc,List.cons_append,List.append_cancel_left_eq] at text
    obtain ⟨rfl,inner⟩ := readable.2.1.append_injective readable'.2.1 ⟨'\n',by simp,rfl⟩ ⟨'\n',by simp,rfl⟩ text
    obtain ⟨rfl,same⟩ := outlines_append_injective children children' readable.2.2 readable'.2.2 shallow shallow'
      (List.cons.inj inner).2 leaves
    exact ⟨rfl,same⟩

private theorem outlines_append_injective :
    (first second : List Tree) → ForestReadable first → ForestReadable second → ∀ {depth : Nat}
    {left right : List Char} {before after : List Token}, Shallow depth left → Shallow depth right →
    forestShown depth first ++ left = forestShown depth second ++ right →
    forestTokens first ++ before = forestTokens second ++ after → first = second ∧ left = right ∧ before = after
  | [], [], _, _, _, left, right, before, after, _, _, text, leaves => ⟨rfl,text,leaves⟩
  | [], tree :: rest, _, _, depth, left, right, _, _, shallow, _, text, _ => by
    have text : left = forestShown depth (tree :: rest) ++ right := text
    rw [text,forestShown_cons,List.append_assoc] at shallow
    exact absurd shallow (not_shallow_shown _ _ _)
  | tree :: rest, [], _, _, depth, left, right, _, _, _, shallow, text, _ => by
    have text : forestShown depth (tree :: rest) ++ left = right := text
    rw [← text,forestShown_cons,List.append_assoc] at shallow
    exact absurd shallow (not_shallow_shown _ _ _)
  | tree :: rest, tree' :: rest', readable, readable', depth, left, right, before, after, shallow, shallow', text, leaves => by
    simp only [forestShown_cons,List.append_assoc] at text
    simp only [forestTokens,List.append_assoc] at leaves
    obtain ⟨rfl,others,later⟩ := outline_append_injective tree tree' readable.1 readable'.1 (shallow_forestShown readable.2 shallow)
      (shallow_forestShown readable'.2 shallow') text leaves
    obtain ⟨rfl,same⟩ := outlines_append_injective rest rest' readable.2 readable'.2 shallow shallow' others later
    exact ⟨rfl,same⟩

end

/-! ### Derivations -/

/-- Derivations of a source agree exactly when one of their renderings is the same. -/
theorem same_iff_shown {grammar : Grammar} (names : ∀ rule ∈ grammar.rules, Bounded rule.lhs) {chars : List Char} {tokens : List Token}
    (accepted : tokenize chars = (tokens,none)) {symbol symbol' : Symbol} {first second : Tree} (derived : grammar.Derives symbol first)
    (derived' : grammar.Derives symbol' second) (leaves : first.tokens = tokens) (leaves' : second.tokens = tokens) :
    (first.sexpr = second.sexpr ↔ first.same second = true) ∧ (first.outline = second.outline ↔ first.same second = true) := by
  have legible : ∀ token ∈ tokens, token.Legible := fun token member => legible_tokenize (by rwa [accepted])
  have named : ∀ rule ∈ grammar.rules, rule.lhs ≠ "" ∧ Bounded rule.lhs := by
    have sound := (Grammar.nameFault?_eq_none_iff _).mp (Grammar.fault?_eq_none_iff _ _ |>.mp grammar.valid).1
    exact fun rule member => ⟨sound rule member,names rule member⟩
  have readable := readable_of_derives named first derived (leaves ▸ legible)
  have readable' := readable_of_derives named second derived' (leaves' ▸ legible)
  have same : first.same second = true ↔ first = second := by
    constructor
    · intro agree
      exact eq_of_same first second agree (leaves.trans leaves'.symm)
    · rintro rfl
      exact same_self first fun token member => (legible token (leaves ▸ member)).number
  have tokens' : first.tokens ++ [] = second.tokens ++ [] := by rw [leaves,leaves']
  rw [same]
  refine ⟨⟨fun text => ?_,congrArg sexpr⟩,⟨fun text => ?_,congrArg outline⟩⟩
  · exact (sexpr_append_injective first second readable readable' (.inl rfl) (.inl rfl) (by rw [text]) tokens').1
  · have none : Shallow 1 [] := by simp [Shallow]
    have text : first.shown 0 = second.shown 0 := by rw [← outline_toList,← outline_toList,text]
    exact (outline_append_injective first second readable readable' none none (by rw [text]) tokens').1

/-- A parenthesis by itself or inside of a node. -/
def brackets : Grammar :=
  ⟨"S",[⟨"S",[.nonterminal "A"]⟩,⟨"A",[.terminal .leftParen]⟩,⟨"A",[.nonterminal "B"]⟩,⟨"B",[.terminal .leftParen]⟩],by decide +kernel⟩

theorem same_iff_shown_brackets :
    let leaf := Tree.leaf (.bare .leftParen)
    let first := Tree.branch "S" [.branch "A" [leaf]]
    let second := Tree.branch "S" [.branch "A" [.branch "B" [leaf]]]
    (∀ rule ∈ brackets.rules, Bounded rule.lhs) ∧ tokenize ['('] = ([.bare .leftParen],none) ∧
    brackets.DerivationOf [.bare .leftParen] first ∧ brackets.DerivationOf [.bare .leftParen] second ∧
    first.sexpr ≠ second.sexpr ∧ first.outline ≠ second.outline := by
  intro leaf first second
  have names : ∀ rule ∈ brackets.rules, Bounded rule.lhs := by simp [brackets,Bounded]
  have accepted : tokenize ['('] = ([.bare .leftParen],none) := by cbv
  have inner : brackets.Derives (.nonterminal "B") (.branch "B" [leaf]) :=
    ⟨rfl,⟨"B",[.terminal .leftParen]⟩,by simp [brackets],rfl,rfl,trivial⟩
  have short : brackets.Derives (.nonterminal "A") (.branch "A" [leaf]) :=
    ⟨rfl,⟨"A",[.terminal .leftParen]⟩,by simp [brackets],rfl,rfl,trivial⟩
  have long : brackets.Derives (.nonterminal "A") (.branch "A" [.branch "B" [leaf]]) :=
    ⟨rfl,⟨"A",[.nonterminal "B"]⟩,by simp [brackets],rfl,inner,trivial⟩
  have derived : brackets.DerivationOf [.bare .leftParen] first :=
    ⟨⟨rfl,⟨"S",[.nonterminal "A"]⟩,by simp [brackets],rfl,short,trivial⟩,rfl⟩
  have derived' : brackets.DerivationOf [.bare .leftParen] second :=
    ⟨⟨rfl,⟨"S",[.nonterminal "A"]⟩,by simp [brackets],rfl,long,trivial⟩,rfl⟩
  have other : first.same second = false := rfl
  have shown := same_iff_shown names accepted derived.1 derived'.1 derived.2 derived'.2
  simp only [other,Bool.false_eq_true,iff_false] at shown
  exact ⟨names,accepted,derived,derived',shown⟩

end Tree
end CFrontend
