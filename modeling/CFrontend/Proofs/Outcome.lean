import CFrontend.Proofs.Expansion

/-!
How a parse ends. The outcome depends on the distinct trees of the last pass: none, one, or several
(`settle_eq`). Over tokens without NaN payloads, trees that agree are equal, so the
distinct trees are exactly the trees of the pass, each once.
-/
namespace CFrontend

/-- No number of the token is a NaN. -/
def Token.NoNaN (token : Token) : Prop := token.number.float.isNaN = false

instance (token : Token) : Decidable token.NoNaN := inferInstanceAs (Decidable (_ = false))

/-- A token of a kind, without a text. -/
def Token.bare (kind : TokenKind) : Token := { kind,pos := .origin }

theorem Token.same_self {token : Token} (number : token.NoNaN) : token.same token = true := by
  unfold Token.NoNaN at number
  simp [Token.same,Number.same,Binary64.same,number]

namespace Tree

mutual

theorem same_self : (tree : Tree) → (∀ token ∈ tree.tokens, token.NoNaN) → tree.same tree = true
  | .leaf token, numbers => Token.same_self (numbers token (by simp [tokens]))
  | .branch name children, numbers => by
    simp only [same,beq_self_eq_true,Bool.true_and]
    exact sameForest_self children numbers

private theorem sameForest_self : (trees : List Tree) → (∀ token ∈ forestTokens trees, token.NoNaN) →
    sameForest trees trees = true
  | [], _ => rfl
  | tree :: rest, numbers => by
    simp only [forestTokens,List.mem_append] at numbers
    simp only [sameForest,Bool.and_eq_true]
    exact ⟨same_self tree (fun token member => numbers token (.inl member)),
      sameForest_self rest (fun token member => numbers token (.inr member))⟩

end

mutual

private theorem length_tokens_of_same : (left right : Tree) → left.same right = true →
    left.tokens.length = right.tokens.length
  | .leaf _, .leaf _, _ => rfl
  | .leaf _, .branch _ _, agree => by simp [same] at agree
  | .branch _ _, .leaf _, agree => by simp [same] at agree
  | .branch _ children, .branch _ children', agree => by
    simp only [same,Bool.and_eq_true] at agree
    exact length_tokens_of_sameForest children children' agree.2

private theorem length_tokens_of_sameForest : (left right : List Tree) → sameForest left right = true →
    (forestTokens left).length = (forestTokens right).length
  | [], [], _ => rfl
  | [], _ :: _, agree => by simp [sameForest] at agree
  | _ :: _, [], agree => by simp [sameForest] at agree
  | tree :: rest, tree' :: rest', agree => by
    simp only [sameForest,Bool.and_eq_true] at agree
    simp only [forestTokens,List.length_append]
    rw [length_tokens_of_same tree tree' agree.1,length_tokens_of_sameForest rest rest' agree.2]

end

mutual

/-- Trees that agree and have the same leaves are equal. -/
theorem eq_of_same : (left right : Tree) → left.same right = true → left.tokens = right.tokens → left = right
  | .leaf _, .leaf _, _, leaves => by simpa [tokens] using leaves
  | .leaf _, .branch _ _, agree, _ => by simp [same] at agree
  | .branch _ _, .leaf _, agree, _ => by simp [same] at agree
  | .branch _ children, .branch _ children', agree, leaves => by
    simp only [same,Bool.and_eq_true,beq_iff_eq] at agree
    rw [agree.1,eq_of_sameForest children children' agree.2 leaves]

private theorem eq_of_sameForest : (left right : List Tree) → sameForest left right = true →
    forestTokens left = forestTokens right → left = right
  | [], [], _, _ => rfl
  | [], _ :: _, agree, _ => by simp [sameForest] at agree
  | _ :: _, [], agree, _ => by simp [sameForest] at agree
  | tree :: rest, tree' :: rest', agree, leaves => by
    simp only [sameForest,Bool.and_eq_true] at agree
    obtain ⟨first,others⟩ := List.append_inj leaves (length_tokens_of_same tree tree' agree.1)
    rw [eq_of_same tree tree' agree.1 first,eq_of_sameForest rest rest' agree.2 others]

end

end Tree

namespace Parser

/-! ### Distinct trees -/

/-- Agreement of trees of the list is equality. -/
def Exact (trees : List Tree) : Prop := ∀ left ∈ trees, ∀ right ∈ trees, left.same right = true ↔ left = right

/-- Trees over the same tokens, none of them a NaN, agree only when they are equal. -/
theorem exact_of_tokens {trees : List Tree} {tokens : List Token} (numbers : ∀ token ∈ tokens, token.NoNaN)
    (leaves : ∀ tree ∈ trees, tree.tokens = tokens) : Exact trees := by
  intro left first right second
  constructor
  · intro agree
    exact Tree.eq_of_same left right agree ((leaves left first).trans (leaves right second).symm)
  · rintro rfl
    exact Tree.same_self left (by rw [leaves left first]; exact numbers)

/-- Adds a tree to those kept, last one first, unless one of them agrees with it. -/
def keep (kept : List Tree) (tree : Tree) : List Tree := if kept.any tree.same then kept else tree :: kept

theorem distinct_eq (trees : List Tree) : distinct trees = (trees.foldl keep []).reverse := rfl

private theorem keep_subset (kept : List Tree) (tree : Tree) : keep kept tree ⊆ tree :: kept := by
  unfold keep
  split
  · exact List.subset_cons_self tree kept
  · exact List.Subset.refl _

private theorem foldl_keep_subset (trees kept : List Tree) : trees.foldl keep kept ⊆ trees ++ kept := by
  induction trees generalizing kept with
  | nil => exact List.Subset.refl kept
  | cons tree rest ih =>
    intro found member
    have later := ih (keep kept tree) member
    rcases List.mem_append.mp later with inside | before
    · simp [inside]
    · have := keep_subset kept tree before
      simp only [List.mem_cons] at this
      simp only [List.cons_append,List.mem_cons,List.mem_append]
      tauto

private theorem subset_foldl_keep (trees kept : List Tree) : kept ⊆ trees.foldl keep kept := by
  induction trees generalizing kept with
  | nil => exact List.Subset.refl kept
  | cons tree rest ih =>
    have first : kept ⊆ keep kept tree := by
      unfold keep
      split
      · exact List.Subset.refl kept
      · exact List.subset_cons_self tree kept
    exact List.Subset.trans first (ih (keep kept tree))

theorem mem_of_mem_distinct {trees : List Tree} {tree : Tree} (member : tree ∈ distinct trees) : tree ∈ trees := by
  rw [distinct_eq,List.mem_reverse] at member
  simpa using foldl_keep_subset trees [] member

theorem distinct_ne_nil {trees : List Tree} (some : trees ≠ []) : distinct trees ≠ [] := by
  obtain ⟨tree,rest,rfl⟩ := List.exists_cons_of_ne_nil some
  rw [distinct_eq]
  have kept : tree ∈ rest.foldl keep (keep [] tree) := subset_foldl_keep rest _ (by simp [keep])
  intro none
  rw [List.foldl_cons,List.reverse_eq_nil_iff] at none
  simp [none] at kept

private theorem any_same_iff {trees kept : List Tree} {tree : Tree} (exact : Exact trees) (inside : kept ⊆ trees)
    (member : tree ∈ trees) : kept.any tree.same = true ↔ tree ∈ kept := by
  rw [List.any_eq_true]
  constructor
  · rintro ⟨other,before,agree⟩
    exact ((exact tree member other (inside before)).mp agree) ▸ before
  · intro before
    exact ⟨tree,before,(exact tree member tree member).mpr rfl⟩

/-- Where agreement is equality, every tree is kept once. -/
theorem foldl_keep_exact {all : List Tree} (exact : Exact all) (trees kept : List Tree) (inside : trees ⊆ all)
    (before : kept ⊆ all) (once : kept.Nodup) :
    (trees.foldl keep kept).Nodup ∧ ∀ tree, tree ∈ trees.foldl keep kept ↔ tree ∈ trees ∨ tree ∈ kept := by
  induction trees generalizing kept with
  | nil => simp [once]
  | cons tree rest ih =>
    obtain ⟨member,others⟩ := List.cons_subset.mp inside
    rw [List.foldl_cons,keep]
    by_cases present : tree ∈ kept
    · rw [if_pos ((any_same_iff exact before member).mpr present)]
      obtain ⟨nodup,members⟩ := ih kept others before once
      refine ⟨nodup,fun other => ?_⟩
      rw [members,List.mem_cons]
      constructor
      · rintro (later | earlier)
        · exact .inl (.inr later)
        · exact .inr earlier
      · rintro ((rfl | later) | earlier)
        · exact .inr present
        · exact .inl later
        · exact .inr earlier
    · rw [if_neg (fun agree => present ((any_same_iff exact before member).mp agree))]
      obtain ⟨nodup,members⟩ := ih (tree :: kept) others (List.cons_subset.mpr ⟨member,before⟩)
        (List.nodup_cons.mpr ⟨present,once⟩)
      refine ⟨nodup,fun other => ?_⟩
      rw [members,List.mem_cons,List.mem_cons]
      tauto

theorem nodup_distinct {trees : List Tree} (exact : Exact trees) : (distinct trees).Nodup := by
  rw [distinct_eq,List.nodup_reverse]
  exact (foldl_keep_exact exact trees [] (List.Subset.refl _) (by simp) (by simp)).1

/-- Of trees that are the same only if they are equal, none is lost. -/
theorem mem_distinct_iff {trees : List Tree} (exact : Exact trees) (tree : Tree) :
    tree ∈ distinct trees ↔ tree ∈ trees := by
  rw [distinct_eq,List.mem_reverse,(foldl_keep_exact exact trees [] (List.Subset.refl _) (by simp) (by simp)).2]
  simp

private theorem foldl_keep_filter {test : Tree → Bool} (respects : ∀ left right, left.same right = true → test left = test right)
    (trees kept : List Tree) :
    (trees.foldl keep kept).filter test = (trees.filter test).foldl keep (kept.filter test) := by
  induction trees generalizing kept with
  | nil => rfl
  | cons tree rest ih =>
    rw [List.foldl_cons,ih]
    by_cases passes : test tree = true
    · have agrees : (kept.filter test).any tree.same = kept.any tree.same := by
        rw [Bool.eq_iff_iff,List.any_eq_true,List.any_eq_true]
        refine exists_congr fun other => and_congr_left fun agree => ?_
        rw [List.mem_filter,← respects tree other agree]
        simp [passes]
      rw [List.filter_cons_of_pos passes,List.foldl_cons,keep,keep,agrees]
      split
      · rfl
      · rw [List.filter_cons_of_pos passes]
    · rw [List.filter_cons_of_neg passes,keep]
      split
      · rfl
      · rw [List.filter_cons_of_neg passes]

/-- A test that does not tell the same trees apart may be made before or after. -/
theorem distinct_filter {test : Tree → Bool} (respects : ∀ left right, left.same right = true → test left = test right)
    (trees : List Tree) : distinct (trees.filter test) = (distinct trees).filter test := by
  rw [distinct_eq,distinct_eq,List.filter_reverse,foldl_keep_filter respects,List.filter_nil]

private theorem foldl_keep_map {image : Tree → Tree} {all : List Tree}
    (reflects : ∀ left ∈ all, ∀ right ∈ all, (image left).same (image right) = left.same right)
    (trees kept : List Tree) (inside : trees ⊆ all) (before : kept ⊆ all) :
    (trees.map image).foldl keep (kept.map image) = (trees.foldl keep kept).map image := by
  induction trees generalizing kept with
  | nil => rfl
  | cons tree rest ih =>
    obtain ⟨member,others⟩ := List.cons_subset.mp inside
    have agrees : (kept.map image).any (image tree).same = kept.any tree.same := by
      rw [List.any_map,Bool.eq_iff_iff,List.any_eq_true,List.any_eq_true]
      refine exists_congr fun other => and_congr_right fun earlier => ?_
      rw [Function.comp_apply,reflects tree member other (before earlier)]
    have next : keep (kept.map image) (image tree) = (keep kept tree).map image := by
      rw [keep,keep,agrees]
      split <;> rfl
    have bounded : keep kept tree ⊆ all :=
      List.Subset.trans (keep_subset kept tree) (List.cons_subset.mpr ⟨member,before⟩)
    rw [List.map_cons,List.foldl_cons,next,ih (keep kept tree) others bounded,List.foldl_cons]

/-- Images that agree where the trees of the list do are kept where the trees are. -/
theorem distinct_map_of_mem {image : Tree → Tree} {trees : List Tree}
    (reflects : ∀ left ∈ trees, ∀ right ∈ trees, (image left).same (image right) = left.same right) :
    distinct (trees.map image) = (distinct trees).map image := by
  rw [distinct_eq,distinct_eq,List.map_reverse,
    ← foldl_keep_map reflects trees [] (List.Subset.refl _) (List.nil_subset _),List.map_nil]

/-- Trees may be changed before or after, as long as it shows whether two were the same. -/
theorem distinct_map {image : Tree → Tree} (reflects : ∀ left right, (image left).same (image right) = left.same right)
    (trees : List Tree) : distinct (trees.map image) = (distinct trees).map image :=
  distinct_map_of_mem fun left _ right _ => reflects left right

/-! ### Settling -/

/-- The outcome of a pass as a matter of its distinct trees. -/
theorem settle_eq (policy : AmbiguityPolicy) (pos : Position) (result : Pass) :
    settle policy pos result = match distinct result.complete with
      | [] => .error (.incomplete pos (sortedKinds (result.pending.map (·.1))))
      | [tree] => .ok tree
      | tree :: others => if policy = .first then .ok tree else .error (.ambiguous (tree :: others)) := by
  unfold settle
  cases found : result.complete with
  | nil => rfl
  | cons tree rest =>
    cases rest with
    | nil => rfl
    | cons second others =>
      simp only [choose]
      have some := distinct_ne_nil (List.cons_ne_nil tree (second :: others))
      cases kept : distinct (tree :: second :: others) with
      | nil => exact absurd kept some
      | cons first more =>
        cases more with
        | nil => rfl
        | cons next more => rfl

/-- A finished run ends with a tree, with several, or with what is expected next. -/
theorem settle_cases (policy : AmbiguityPolicy) (pos : Position) (result : Pass) :
    (∃ tree, settle policy pos result = .ok tree) ∨
    (∃ trees, settle policy pos result = .error (.ambiguous trees)) ∨
    ∃ expected, settle policy pos result = .error (.incomplete pos expected) := by
  rw [settle_eq]
  split
  · exact .inr (.inr ⟨_,rfl⟩)
  · exact .inl ⟨_,rfl⟩
  · split
    · exact .inl ⟨_,rfl⟩
    · exact .inr (.inl ⟨_,rfl⟩)

/-- Where agreement is equality and ambiguity is an error, the outcome tells how many trees there are. -/
theorem settle_error_iff (pos : Position) {result : Pass} (exact : Exact result.complete) :
    (∀ tree, settle .error pos result = .ok tree ↔
      tree ∈ result.complete ∧ ∀ other ∈ result.complete, other = tree) ∧
    ((∃ trees, settle .error pos result = .error (.ambiguous trees)) ↔
      ∃ first ∈ result.complete, ∃ second ∈ result.complete, first ≠ second) ∧
    ((∃ expected, settle .error pos result = .error (.incomplete pos expected)) ↔ result.complete = []) := by
  have members := mem_distinct_iff exact
  have once := nodup_distinct exact
  have empty : result.complete = [] ↔ distinct result.complete = [] := by
    simp [List.eq_nil_iff_forall_not_mem,members]
  simp only [empty,settle_eq,← members]
  match distinct result.complete,once with
  | [],_ => simp
  | [tree],_ => simp [eq_comm]
  | tree :: next :: others,once =>
    have apart : tree ≠ next := by
      rintro rfl
      simp at once
    refine ⟨fun other => ?_,?_,by simp⟩
    · simp only [reduceCtorEq,if_false,false_iff,not_and]
      intro _ alone
      exact apart ((alone tree (by simp)).trans (alone next (by simp)).symm)
    · simp only [reduceCtorEq,if_false]
      exact iff_of_true ⟨_,rfl⟩ ⟨tree,by simp,next,by simp,apart⟩

/-- The tree that is settled on among distinct trees. -/
def chosen (policy : AmbiguityPolicy) : List Tree → Option Tree
  | [] => none
  | [tree] => some tree
  | tree :: _ => if policy = .first then some tree else none

theorem mem_of_chosen {policy : AmbiguityPolicy} {trees : List Tree} {tree : Tree}
    (taken : chosen policy trees = some tree) : tree ∈ trees := by
  rcases trees with _ | ⟨first,_ | ⟨second,others⟩⟩
  · simp [chosen] at taken
  · simp_all [chosen]
  · simp_all [chosen]

/-- A tree is the outcome if the policy chooses it among the distinct ones. -/
theorem settle_ok_iff (policy : AmbiguityPolicy) (pos : Position) (result : Pass) (tree : Tree) :
    settle policy pos result = .ok tree ↔ chosen policy (distinct result.complete) = some tree := by
  rw [settle_eq]
  match distinct result.complete with
  | [] => simp [chosen]
  | [only] => simp [chosen]
  | first :: second :: others => by_cases taken : policy = .first <;> simp [chosen,taken]

/-- Two or more distinct trees are ambiguous, unless the policy takes the first. -/
theorem settle_ambiguous_iff (policy : AmbiguityPolicy) (pos : Position) (result : Pass) (several : List Tree) :
    settle policy pos result = .error (.ambiguous several) ↔
      distinct result.complete = several ∧ 2 ≤ several.length ∧ policy ≠ .first := by
  rw [settle_eq]
  match distinct result.complete with
  | [] => simp; rintro rfl; simp
  | [only] => simp; rintro rfl; simp
  | first :: second :: others =>
    by_cases taken : policy = .first
    · simp [taken]
    · simp [taken]; rintro rfl; simp

/-- Parsing tokens that end without a failure is settled by the last pass. -/
theorem parse_eq_lastPass (grammar : Grammar) (options : Options) (tokens : List Token) (pos : Position) :
    parse grammar options ⟨tokens,.finished pos⟩ =
      (lastPass (Table.of grammar) options.maxStates pos 0 (initial grammar) tokens).bind
        (settle options.ambiguity pos) :=
  run_eq_lastPass (Table.of grammar) options pos 0 (initial grammar) tokens

end Parser

end CFrontend
