import CFrontend.Proofs.Recursion
import Mathlib.Data.List.Lex

/-!
The search of left recursion, step by step and in order. The alternatives of a nonterminal come in the order of their rules and
are taken up in that order, so two cycles part at some production, where the one that was found first has the smaller
index (`pairwise_cyclesThrough`). The search needs no bound of its depth: with none it ends as well, because a path passes
no nonterminal twice, and finds the same (`search_cyclesThrough`).
-/
namespace CFrontend

/-- The lists agree up to a place at which the first one has the smaller number. -/
def PartsBelow (left right : List Nat) : Prop :=
  ∃ common low high, low < high ∧ common ++ [low] <+: left ∧ common ++ [high] <+: right

namespace PartsBelow

variable {left right left' right' : List Nat}

theorem lt (parts : PartsBelow left right) : left < right := by
  obtain ⟨common,low,high,below,⟨rest,rfl⟩,⟨rest',rfl⟩⟩ := parts
  rw [List.append_assoc,List.append_assoc]
  exact List.Lex.append_left _ (.rel below) common

/-- What comes behind does not matter. -/
theorem extend (parts : PartsBelow left right) (first : left <+: left') (second : right <+: right') :
    PartsBelow left' right' := by
  obtain ⟨common,low,high,below,front,front'⟩ := parts
  exact ⟨common,low,high,below,front.trans first,front'.trans second⟩

theorem ne (parts : PartsBelow left right) : left ≠ right := by
  rintro rfl
  exact List.lt_irrefl left parts.lt

end PartsBelow

namespace Grammar

variable {grammar : Grammar}

/-! ### Order -/

private theorem pairwise_productionsFrom (name : String) (rules : List Rule) (index : Nat) :
    (productionsFrom name index rules).Pairwise fun first second => first.index < second.index := by
  induction rules generalizing index with
  | nil => exact List.Pairwise.nil
  | cons rule rest ih =>
    rw [productionsFrom]
    split
    · refine List.pairwise_cons.mpr ⟨fun production later => ?_,ih (index + 1)⟩
      exact ((mem_productionsFrom_iff name production rest (index + 1)).mp later).2.1
    · exact ih (index + 1)

theorem pairwise_alternatives (grammar : Grammar) (name : String) :
    (grammar.alternatives name).Pairwise fun first second => first.index < second.index :=
  pairwise_productionsFrom name grammar.rules 0

theorem nodup_alternatives (grammar : Grammar) (name : String) : (grammar.alternatives name).Nodup := by
  refine (pairwise_alternatives grammar name).imp ?_
  rintro production _ below rfl
  exact Nat.lt_irrefl production.index below

private theorem prefix_of_mem_cyclesThrough {nullable : List String} {root : String} {cycle : Cycle} (depth : Nat)
    (path : List Production) (name : String) (found : cycle ∈ cyclesThrough grammar nullable root depth path name) :
    path.reverse <+: cycle := by
  induction depth generalizing path name with
  | zero => simp [cyclesThrough] at found
  | succ depth ih =>
    obtain ⟨production,-,next,-,⟨-,-,rfl⟩ | ⟨-,-,later⟩⟩ :=
      (mem_cyclesThrough_succ_iff grammar nullable root cycle depth path name).mp found
    · simp
    · exact (List.prefix_append _ [production]).trans (by simpa using ih (production :: path) next later)

/-- The cycles that the search finds through one production behind a path. -/
def cyclesBehind (grammar : Grammar) (nullable : List String) (root : String) (depth : Nat) (path : List Production)
    (production : Production) : List Cycle :=
  match production.rule.rhs with
  | .nonterminal next :: _ =>
    if next = root then if consumes nullable (production :: path) then [(production :: path).reverse] else []
    else if (production :: path).any fun step => step.rule.lhs == next then []
    else cyclesThrough grammar nullable root depth (production :: path) next
  | _ => []

private theorem cyclesThrough_eq_flatMap (grammar : Grammar) (nullable : List String) (root : String) (depth : Nat)
    (path : List Production) (name : String) :
    cyclesThrough grammar nullable root (depth + 1) path name =
      (grammar.alternatives name).flatMap (cyclesBehind grammar nullable root depth path) := rfl

private theorem prefix_of_mem_cyclesBehind {nullable : List String} {root : String} {cycle : Cycle} {depth : Nat}
    {path : List Production} {production : Production}
    (found : cycle ∈ cyclesBehind grammar nullable root depth path production) :
    (production :: path).reverse <+: cycle := by
  unfold cyclesBehind at found
  split at found
  · split at found
    · split at found
      · obtain rfl := List.mem_singleton.mp found
        exact List.prefix_rfl
      · simp at found
    · split at found
      · simp at found
      · exact prefix_of_mem_cyclesThrough depth _ _ found
  · simp at found

/-- The cycle comes before the other one in the order of their productions. -/
def FoundBefore (first second : Cycle) : Prop := PartsBelow (first.map (·.index)) (second.map (·.index))

private theorem foundBefore_of_prefix {path : List Production} {low high : Production} {first second : Cycle}
    (below : low.index < high.index) (front : (low :: path).reverse <+: first)
    (front' : (high :: path).reverse <+: second) : FoundBefore first second := by
  refine ⟨path.reverse.map (·.index),low.index,high.index,below,?_,?_⟩
  · simpa using front.map (·.index)
  · simpa using front'.map (·.index)

/-- The search finds a cycle before those that leave its way later on a higher rule. -/
theorem pairwise_cyclesThrough (grammar : Grammar) (nullable : List String) (root : String) (depth : Nat)
    (path : List Production) (name : String) :
    (cyclesThrough grammar nullable root depth path name).Pairwise FoundBefore := by
  induction depth generalizing path name with
  | zero => exact List.Pairwise.nil
  | succ depth ih =>
    rw [cyclesThrough_eq_flatMap,List.pairwise_flatMap]
    constructor
    · intro production _
      unfold cyclesBehind
      split
      · split
        · split <;> simp
        · split
          · exact List.Pairwise.nil
          · exact ih _ _
      · exact List.Pairwise.nil
    · refine (pairwise_alternatives grammar name).imp fun {low high} below first here second there => ?_
      exact foundBefore_of_prefix below (prefix_of_mem_cyclesBehind here) (prefix_of_mem_cyclesBehind there)

private theorem pairwise_cycles (grammar : Grammar) (name : String) : (grammar.cycles name).Pairwise FoundBefore :=
  pairwise_cyclesThrough grammar grammar.nullable name grammar.rules.length [] name

theorem nodup_cycles (grammar : Grammar) (name : String) : (grammar.cycles name).Nodup := by
  refine (pairwise_cycles grammar name).imp ?_
  rintro cycle _ before rfl
  exact before.ne rfl

/-! ### The search without a bound -/

/-- What the search of the cycles of `root` finds when it takes up alternatives behind a path, last production first. An
    alternative may begin with the root, which closes a cycle; with a nonterminal that is not on the path, whose alternatives
    are then taken up behind it; or with anything else, which is passed over. -/
inductive Search (grammar : Grammar) (nullable : List String) (root : String) :
    (path : List Production) → (alternatives : List Production) → List Cycle → Prop
  | done {path : List Production} : Search grammar nullable root path [] []
  | close {path rest : List Production} {production : Production} {found : List Cycle}
      (first : production.rule.rhs.head? = some (.nonterminal root))
      (others : Search grammar nullable root path rest found) :
      Search grammar nullable root path (production :: rest)
        ((if consumes nullable (production :: path) then [(production :: path).reverse] else []) ++ found)
  | enter {path rest : List Production} {production : Production} {next : String} {inner found : List Cycle}
      (first : production.rule.rhs.head? = some (.nonterminal next)) (differs : next ≠ root)
      (unseen : next ∉ (production :: path).map (·.rule.lhs))
      (below : Search grammar nullable root (production :: path) (grammar.alternatives next) inner)
      (others : Search grammar nullable root path rest found) :
      Search grammar nullable root path (production :: rest) (inner ++ found)
  | pass {path rest : List Production} {production : Production} {found : List Cycle}
      (idle : ∀ next, production.rule.rhs.head? = some (.nonterminal next) →
        next ≠ root ∧ next ∈ (production :: path).map (·.rule.lhs))
      (others : Search grammar nullable root path rest found) :
      Search grammar nullable root path (production :: rest) found

theorem Search.unique {nullable : List String} {root : String} {path alternatives : List Production}
    {first second : List Cycle} (left : Search grammar nullable root path alternatives first)
    (right : Search grammar nullable root path alternatives second) : first = second := by
  induction left generalizing second with
  | done => cases right; rfl
  | close first _ ih =>
    cases right with
    | close _ others => rw [ih others]
    | enter first' differs =>
      rw [first,Option.some.injEq,Symbol.nonterminal.injEq] at first'
      exact absurd first'.symm differs
    | pass idle => exact absurd rfl (idle _ first).1
  | enter first differs unseen _ _ ih ih' =>
    cases right with
    | close first' =>
      rw [first,Option.some.injEq,Symbol.nonterminal.injEq] at first'
      exact absurd first' differs
    | enter first' _ _ below others =>
      rw [first,Option.some.injEq,Symbol.nonterminal.injEq] at first'
      subst first'
      rw [ih below,ih' others]
    | pass idle => exact absurd (idle _ first).2 unseen
  | pass idle _ ih =>
    cases right with
    | close first => exact absurd rfl (idle _ first).1
    | enter first _ unseen => exact absurd (idle _ first).2 unseen
    | pass _ others => exact ih others

theorem Search.cons {nullable : List String} {root : String} {depth : Nat} {path rest : List Production}
    {production : Production} {found : List Cycle}
    (inner : ∀ next, production.rule.rhs.head? = some (.nonterminal next) → next ≠ root →
      next ∉ (production :: path).map (·.rule.lhs) → Search grammar nullable root (production :: path)
        (grammar.alternatives next) (cyclesThrough grammar nullable root depth (production :: path) next))
    (others : Search grammar nullable root path rest found) :
    Search grammar nullable root path (production :: rest)
      (cyclesBehind grammar nullable root depth path production ++ found) := by
  unfold cyclesBehind
  split
  · rename_i next tail rhs
    have first : production.rule.rhs.head? = some (.nonterminal next) := by rw [rhs]; rfl
    split
    · rename_i closes
      exact .close (closes ▸ first) others
    · rename_i differs
      split
      · rename_i seen
        refine .pass (fun other first' => ?_) others
        rw [first,Option.some.injEq,Symbol.nonterminal.injEq] at first'
        subst first'
        obtain ⟨step,inside,same⟩ := List.any_eq_true.mp seen
        exact ⟨differs,List.mem_map.mpr ⟨step,inside,by simpa using same⟩⟩
      · rename_i unseen
        have unseen := (unseen_iff (production :: path) next).mpr (Bool.not_eq_true _ ▸ unseen)
        exact .enter first differs unseen (inner next first differs unseen) others
  · rename_i other
    refine .pass (fun next first => ?_) others
    obtain ⟨tail,rhs⟩ := List.head?_eq_some_iff.mp first
    exact absurd rhs (other next tail)

/-- With enough depth left, it is not the depth that ends the search. -/
theorem search_cyclesThrough (grammar : Grammar) (nullable : List String) (root : String) (depth : Nat)
    (path : List Production) (name : String) (search : SearchPath grammar root path name)
    (enough : grammar.rules.length ≤ depth + path.length) :
    Search grammar nullable root path (grammar.alternatives name) (cyclesThrough grammar nullable root depth path name) := by
  induction depth generalizing path name with
  | zero =>
    have none : grammar.alternatives name = [] := by
      rw [List.eq_nil_iff_forall_not_mem]
      intro production alternative
      have := search.length_lt alternative
      omega
    rw [none]
    exact .done
  | succ depth ih =>
    rw [cyclesThrough_eq_flatMap]
    have below : ∀ production ∈ grammar.alternatives name, ∀ next, next ∉ (production :: path).map (·.rule.lhs) →
        Search grammar nullable root (production :: path) (grammar.alternatives next)
          (cyclesThrough grammar nullable root depth (production :: path) next) := fun production alternative next unseen =>
      ih (production :: path) next (search.extend alternative unseen) (by simp; omega)
    generalize grammar.alternatives name = alternatives at below ⊢
    induction alternatives with
    | nil => exact .done
    | cons production rest later =>
      obtain ⟨own,others⟩ := List.forall_mem_cons.mp below
      exact Search.cons (fun next _ _ unseen => own next unseen) (later others)

/-- The index has for every nonterminal exactly its simple cycles of which some production has more after its first symbol
    than what derives the empty text. They are ordered by the indices of their productions, and so none comes twice. The
    search that finds them ends without a bound of its depth, and with nothing else. -/
theorem recursionIndex_exact (grammar : Grammar) (name : String) :
    (∀ cycle, cycle ∈ grammar.recursionIndex.get name ↔ SimpleCycle grammar name cycle ∧
      ∃ step ∈ cycle, ¬ ∀ symbol ∈ step.rule.rhs.tail, grammar.Nullable symbol) ∧
    ((grammar.recursionIndex.get name).Pairwise fun first second => first.map (·.index) < second.map (·.index)) ∧
    (grammar.recursionIndex.get name).Nodup ∧
    ∀ found, Search grammar grammar.nullable name [] (grammar.alternatives name) found ↔
      found = grammar.recursionIndex.get name := by
  rw [recursionIndex_get]
  have ends : Search grammar grammar.nullable name [] (grammar.alternatives name) (grammar.cycles name) :=
    search_cyclesThrough grammar grammar.nullable name grammar.rules.length [] name ⟨by simp,by simp,by simp⟩ (by simp)
  refine ⟨fun cycle => ?_,(pairwise_cycles grammar name).imp PartsBelow.lt,nodup_cycles grammar name,fun found => ⟨?_,?_⟩⟩
  · rw [mem_cycles_iff,consumes_nullable_iff]
  · exact fun search => search.unique ends
  · rintro rfl
    exact ends

end Grammar

end CFrontend
