import CFrontend.Proofs.Outcome
import CFrontend.Proofs.PartialDerivation
import Mathlib.Data.List.ProdSigma
import Mathlib.Data.Nat.Find

/-!
A pass ends without help of the state limit, for every grammar. Frames that were predicted at
the same token derive different nonterminals, so a state has boundedly many frames. Each step then
lowers the ranks of the frames, outermost first: closing a frame advances its parent, predicting
adds a frame, and growing a cycle puts a frame that cannot finish at this token in place of
one that is finished, because a cycle in the index needs a token.
-/
namespace CFrontend.Parser
open Grammar (Cycle allNullable)

variable {grammar : Grammar}

/-! ### Frames predicted at one token -/

/-- No two frames were predicted at the same token for the same nonterminal. -/
def Distinct (frames : List Frame) : Prop := (frames.map fun frame => (frame.origin,frame.name)).Nodup

theorem PartialDerivation.origin_le {frames : List Frame} {tokens : List Token}
    (derivation : PartialDerivation grammar frames tokens) : ∀ frame ∈ frames, frame.origin ≤ tokens.length := by
  induction derivation with
  | root valid named placed => simp [placed]
  | push below waits valid placed ih =>
    intro frame member
    rw [List.length_append]
    rcases List.mem_cons.mp member with rfl | outside
    · omega
    · have := ih frame outside
      omega

theorem PartialDerivation.ordered {frames : List Frame} {tokens : List Token}
    (derivation : PartialDerivation grammar frames tokens) :
    frames.Pairwise fun inner outer => outer.origin ≤ inner.origin := by
  induction derivation with
  | root => simp
  | push below waits valid placed ih =>
    refine List.pairwise_cons.mpr ⟨?_,ih⟩
    intro outer member
    rw [placed]
    exact below.origin_le outer member

/-- Looking from the inside until the origin changes sees every frame with the latest origin. -/
theorem mem_takeWhile_origin {frames : List Frame} {latest : Nat}
    (ordered : frames.Pairwise fun inner outer => outer.origin ≤ inner.origin)
    (bounded : ∀ frame ∈ frames, frame.origin ≤ latest) {frame : Frame} (member : frame ∈ frames)
    (same : frame.origin = latest) : frame ∈ frames.takeWhile fun other => other.origin == latest := by
  induction frames with
  | nil => simp at member
  | cons first rest ih =>
    obtain ⟨outward,others⟩ := List.pairwise_cons.mp ordered
    have upper := bounded first (by simp)
    have here : first.origin = latest := by
      rcases List.mem_cons.mp member with rfl | later
      · exact same
      · have := outward frame later
        omega
    rw [List.takeWhile_cons_of_pos (by simpa using here)]
    rcases List.mem_cons.mp member with rfl | later
    · simp
    · exact List.mem_cons_of_mem _ (ih others (fun other inside => bounded other (by simp [inside])) later)

/-- A nonterminal that is not looped has no frame that was predicted at the current token. -/
theorem not_looped {state : State} {tokens : List Token} {name : String}
    (derivation : PartialDerivation grammar (state.frame :: state.ancestors) tokens)
    (fresh : state.isLooped name tokens.length = false) :
    ∀ frame ∈ state.frame :: state.ancestors, frame.origin = tokens.length → frame.name ≠ name := by
  intro frame member same named
  have seen := mem_takeWhile_origin derivation.ordered derivation.origin_le member same
  rw [State.isLooped,List.any_eq_false] at fresh
  exact fresh frame seen (by simpa using named)

/-- A cycle that may be grown has no nonterminal in common with the frames predicted at the same token. -/
theorem not_shared {state : State} {tokens : List Token} {cycle : Cycle}
    (derivation : PartialDerivation grammar (state.frame :: state.ancestors) tokens)
    (allowed : state.mayGrow cycle = true) :
    ∀ frame ∈ state.ancestors, frame.origin = state.frame.origin → ∀ step ∈ cycle, step.rule.lhs ≠ frame.name := by
  obtain ⟨outward,ordered⟩ := List.pairwise_cons.mp derivation.ordered
  intro frame member same step inside named
  have seen := mem_takeWhile_origin ordered outward member same
  rw [State.mayGrow,Bool.not_eq_true',List.any_eq_false] at allowed
  exact allowed frame seen (List.any_eq_true.mpr ⟨step,inside,by simpa using named⟩)

theorem Distinct.step {state next : State} {tokens : List Token}
    (derivation : PartialDerivation grammar (state.frame :: state.ancestors) tokens)
    (distinct : Distinct (state.frame :: state.ancestors)) (taken : Step grammar tokens.length state next) :
    Distinct (next.frame :: next.ancestors) := by
  cases taken with
  | @predict name tail production waits fresh alternative =>
    refine List.nodup_cons.mpr ⟨?_,distinct⟩
    intro member
    obtain ⟨frame,inside,same⟩ := List.mem_map.mp member
    simp only [name_predicted alternative,Prod.mk.injEq] at same
    exact not_looped derivation fresh frame inside same.1 same.2
  | close finished below =>
    rw [below] at distinct
    exact (List.nodup_cons.mp distinct).2
  | @grow parent ancestors chain last finished below recorded allowed =>
    obtain ⟨⟨-,-,simple⟩,-⟩ := (Grammar.mem_cycles_iff grammar state.frame.name _).mp recorded
    have apart := not_shared derivation allowed
    have outer : Distinct state.ancestors := (List.nodup_cons.mp distinct).2
    have grown : ((Frame.predicted last state.frame.origin).advance state.frame.tree ::
          (chain.map (Frame.predicted · state.frame.origin)).reverse).map (fun frame => (frame.origin,frame.name)) =
        ((chain ++ [last]).map fun step => (state.frame.origin,step.rule.lhs)).reverse := by
      simp [Frame.predicted,Frame.advance,Frame.name,Function.comp_def]
    rw [Distinct,← List.cons_append,List.map_append,grown,List.nodup_append]
    refine ⟨?_,outer,?_⟩
    · rw [List.nodup_reverse]
      have names : (chain ++ [last]).map (fun step => (state.frame.origin,step.rule.lhs)) =
          ((chain ++ [last]).map (·.rule.lhs)).map fun name => (state.frame.origin,name) := by
        rw [List.map_map]; rfl
      rw [names]
      exact simple.map fun _ _ same => (Prod.mk.inj same).2
    · rintro ⟨origin,name⟩ inner ⟨origin',name'⟩ outside same
      obtain ⟨step,inside,first⟩ := List.mem_map.mp (List.mem_reverse.mp inner)
      obtain ⟨frame,member,second⟩ := List.mem_map.mp outside
      rw [← second,← first,Prod.mk.injEq] at same
      exact apart frame member same.1.symm step inside same.2

theorem Reached.distinct {tokens : List Token} {count : Nat} {state : State}
    (reached : Reached grammar tokens count state) : Distinct (state.frame :: state.ancestors) := by
  induction reached with
  | start => simp [Distinct,State.root]
  | step reached taken ih =>
    obtain ⟨length,derivation⟩ := reached.partialDerivation
    exact ih.step derivation (length.symm ▸ taken)
  | scan _ _ _ ih => exact ih

/-- Where a frame may have been predicted and for which nonterminal. -/
def slots (grammar : Grammar) (count : Nat) : List (Nat × String) :=
  List.range (count + 1) ×ˢ grammar.rules.map (·.lhs)

theorem PartialDerivation.length_le {frames : List Frame} {tokens : List Token}
    (derivation : PartialDerivation grammar frames tokens) (distinct : Distinct frames) :
    frames.length ≤ (slots grammar tokens.length).length := by
  have inside : (frames.map fun frame => (frame.origin,frame.name)) ⊆ slots grammar tokens.length := by
    intro slot member
    obtain ⟨frame,own,rfl⟩ := List.mem_map.mp member
    refine List.pair_mem_product.mpr ⟨?_,?_⟩
    · exact List.mem_range.mpr (Nat.lt_succ_of_le (derivation.origin_le frame own))
    · exact List.mem_map_of_mem (Grammar.rule_of_mem_alternatives (derivation.valid frame own).alternative)
  have bound := (List.subperm_of_subset distinct inside).length_le
  simpa using bound

/-! ### Lowering lists -/

/-- A rank: whether something can still finish, and how much of it is left. -/
abbrev Rank := Nat × Nat

/-- Ranks by their first part, then by their second. -/
def Below : Rank → Rank → Prop := Prod.Lex (· < ·) (· < ·)

private theorem below_wellFounded : WellFounded Below := (Prod.lex Nat.lt_wfRel Nat.lt_wfRel).wf

/-- The lists differ, and where they do so first the rank drops. -/
def Drops (lower upper : List Rank) : Prop :=
  ∃ common low high more others, lower = common ++ low :: more ∧ upper = common ++ high :: others ∧ Below low high

/-- A list gets lower by a drop or by getting longer. -/
def Lower (lower upper : List Rank) : Prop := Drops lower upper ∨ ∃ low more, lower = upper ++ low :: more

private theorem drops_append {lower upper : List Rank} (drops : Drops lower upper) (front back : List Rank) :
    Drops (lower ++ front) (upper ++ back) := by
  obtain ⟨common,low,high,more,others,rfl,rfl,less⟩ := drops
  exact ⟨common,low,high,more ++ front,others ++ back,by simp,by simp,less⟩

private theorem lower_cons {head : Rank} {tail lower : List Rank} (lowered : Lower lower (head :: tail)) :
    ∃ first rest, lower = first :: rest ∧ (Below first head ∨ first = head ∧ Lower rest tail) := by
  rcases lowered with ⟨common,low,high,more,others,rfl,same,less⟩ | ⟨low,more,rfl⟩
  · cases common with
    | nil =>
      obtain ⟨rfl,rfl⟩ := List.cons.inj same
      exact ⟨low,more,rfl,.inl less⟩
    | cons first common =>
      obtain ⟨rfl,rfl⟩ := List.cons.inj same
      exact ⟨head,_,rfl,.inr ⟨rfl,.inl ⟨common,low,high,more,others,rfl,rfl,less⟩⟩⟩
  · exact ⟨head,_,rfl,.inr ⟨rfl,.inr ⟨low,more,rfl⟩⟩⟩

/-- Lists of bounded length cannot get lower for ever. -/
theorem acc_lower (bound : Nat) (list : List Rank) (within : list.length ≤ bound) :
    Acc (fun lower upper => lower.length ≤ bound ∧ Lower lower upper) list := by
  induction bound generalizing list with
  | zero =>
    obtain rfl := List.length_eq_zero_iff.mp (Nat.le_zero.mp within)
    refine ⟨_,fun lower ⟨short,lowered⟩ => ?_⟩
    obtain rfl := List.length_eq_zero_iff.mp (Nat.le_zero.mp short)
    rcases lowered with ⟨common,low,high,more,others,impossible,-⟩ | ⟨low,more,impossible⟩
    · simp at impossible
    · simp at impossible
  | succ bound ih =>
    -- The first rank decreases at most finitely often, and while it stays the tail is a shorter list.
    have started : ∀ head tail, tail.length ≤ bound →
        Acc (fun lower upper => lower.length ≤ bound + 1 ∧ Lower lower upper) (head :: tail) := by
      intro head
      induction head using below_wellFounded.induction with
      | _ head smaller =>
        intro tail short
        have inner := ih tail short
        induction inner with
        | intro tail _ later =>
          refine ⟨_,fun lower ⟨long,lowered⟩ => ?_⟩
          obtain ⟨first,rest,rfl,less | ⟨rfl,fallen⟩⟩ := lower_cons lowered
          · exact smaller first less rest (by simpa using long)
          · have shorter : rest.length ≤ bound := by simpa using long
            exact later rest ⟨shorter,fallen⟩ shorter
    cases list with
    | nil =>
      refine ⟨_,fun lower ⟨long,lowered⟩ => ?_⟩
      cases lower with
      | nil =>
        rcases lowered with ⟨common,low,high,more,others,impossible,-⟩ | ⟨low,more,impossible⟩
        · simp at impossible
        · simp at impossible
      | cons first rest => exact started first rest (by simpa using long)
    | cons head tail => exact started head tail (by simpa using within)

/-! ### Ranks of frames -/

/-- The ranks of waiting frames, innermost first. A frame can finish at this token when what is inside
    it can and the symbols after the one under way are nullable. -/
def ranks (grammar : Grammar) : (inside : Bool) → List Frame → List Rank
  | _, [] => []
  | inside, frame :: rest =>
    let finishes := inside && allNullable grammar.nullable frame.rest.tail
    (finishes.toNat,frame.rest.length) :: ranks grammar finishes rest

/-- Whether the frames can finish at this token, given what is inside them can. -/
def finish (grammar : Grammar) (inside : Bool) (frames : List Frame) : Bool :=
  inside && frames.all fun frame => allNullable grammar.nullable frame.rest.tail

/-- The ranks of all frames of a state, outermost first. -/
def State.ranks (grammar : Grammar) (state : State) : List Rank :=
  let finishes := allNullable grammar.nullable state.frame.rest
  (Parser.ranks grammar finishes state.ancestors).reverse ++ [(finishes.toNat,state.frame.rest.length)]

@[simp] theorem length_ranks (grammar : Grammar) (inside : Bool) (frames : List Frame) :
    (ranks grammar inside frames).length = frames.length := by
  induction frames generalizing inside with
  | nil => rfl
  | cons frame rest ih => simp [ranks,ih]

private theorem ranks_append (grammar : Grammar) (inside : Bool) (front back : List Frame) :
    ranks grammar inside (front ++ back) =
      ranks grammar inside front ++ ranks grammar (finish grammar inside front) back := by
  induction front generalizing inside with
  | nil => simp [ranks,finish]
  | cons frame rest ih => simp [ranks,finish,ih,Bool.and_assoc]

/-- When what is inside can no longer finish, ranks stay or drop. -/
theorem ranks_stuck (grammar : Grammar) (inside : Bool) (frames : List Frame) :
    (ranks grammar false frames).reverse = (ranks grammar inside frames).reverse ∨
      Drops (ranks grammar false frames).reverse (ranks grammar inside frames).reverse := by
  induction frames generalizing inside with
  | nil => exact .inl rfl
  | cons frame rest ih =>
    simp only [ranks,Bool.false_and,List.reverse_cons]
    cases finishes : inside && allNullable grammar.nullable frame.rest.tail with
    | false => exact .inl rfl
    | true =>
      right
      rcases ih true with same | drops
      · rw [same]
        exact ⟨_,_,_,[],[],rfl,rfl,Prod.Lex.left _ _ (by decide)⟩
      · exact drops_append drops _ _

private theorem ranks_mono (grammar : Grammar) {inside outside : Bool} (frames : List Frame)
    (weaker : inside = true → outside = true) :
    (ranks grammar inside frames).reverse = (ranks grammar outside frames).reverse ∨
      Drops (ranks grammar inside frames).reverse (ranks grammar outside frames).reverse := by
  cases inside with
  | false => exact ranks_stuck grammar outside frames
  | true => exact .inl (by rw [weaker rfl])

private theorem ranks_of_next (grammar : Grammar) {state : State} {symbol : Symbol} {tail : List Symbol}
    (next : state.frame.rest = symbol :: tail) :
    state.ranks grammar =
      (ranks grammar (allNullable grammar.nullable [symbol]) (state.frame :: state.ancestors)).reverse := by
  have parts : allNullable grammar.nullable (symbol :: tail) =
      (allNullable grammar.nullable [symbol] && allNullable grammar.nullable tail) := by
    simp [allNullable]
  simp [State.ranks,ranks,next,parts]

private theorem ranks_of_finished (grammar : Grammar) {state : State} (finished : state.frame.rest = []) :
    state.ranks grammar = (ranks grammar true state.ancestors).reverse ++ [(1,0)] := by
  simp [State.ranks,finished,allNullable]

/-- The outermost of some frames can finish when all of them can. -/
theorem ranks_outermost (grammar : Grammar) (inside : Bool) (left : Nat) (frames : List Frame) :
    ∃ size more, (ranks grammar inside frames).reverse ++ [(inside.toNat,left)] =
      ((finish grammar inside frames).toNat,size) :: more := by
  rcases List.eq_nil_or_concat frames with rfl | ⟨front,last,rfl⟩
  · exact ⟨left,[],by simp [ranks,finish]⟩
  · rw [List.concat_eq_append,ranks_append]
    refine ⟨last.rest.length,(ranks grammar inside front).reverse ++ [(inside.toNat,left)],?_⟩
    simp [ranks,finish,Bool.and_assoc]

/-- A cycle that needs a token has a frame that cannot finish at this one. -/
theorem finish_grown (grammar : Grammar) {chain : List Production} {last : Production} (origin : Nat)
    (consuming : Grammar.consumes grammar.nullable (chain ++ [last]) = true) :
    finish grammar (allNullable grammar.nullable last.rule.rhs.tail)
      (chain.map (Frame.predicted · origin)).reverse = false := by
  simp only [Grammar.consumes,List.any_append,List.any_cons,List.any_nil,Bool.or_false,Bool.or_eq_true,
    Bool.not_eq_true',List.any_eq_true] at consuming
  simp only [finish,Bool.and_eq_false_iff]
  rcases consuming with ⟨production,member,stuck⟩ | stuck
  · right
    rw [List.all_eq_false]
    exact ⟨.predicted production origin,by simpa using ⟨production,member,rfl⟩,by simpa [Frame.predicted] using stuck⟩
  · exact .inl stuck

/-- Every step lowers the ranks. -/
theorem lower_step {state next : State} {tokens : List Token}
    (derivation : PartialDerivation grammar (state.frame :: state.ancestors) tokens)
    (taken : Step grammar tokens.length state next) : Lower (next.ranks grammar) (state.ranks grammar) := by
  cases taken with
  | @predict name tail production waits fresh alternative =>
    have closed : allNullable grammar.nullable production.rule.rhs = true →
        allNullable grammar.nullable [.nonterminal name] = true := by
      intro nullable
      have member := Grammar.closedUnder_nullable grammar production.rule
        (Grammar.rule_of_mem_alternatives alternative) nullable
      rw [Grammar.lhs_of_mem_alternatives alternative] at member
      simpa [allNullable] using member
    rw [ranks_of_next grammar waits]
    rcases ranks_mono grammar (state.frame :: state.ancestors) closed with same | drops
    · exact .inr ⟨_,[],by rw [← same]; rfl⟩
    · exact .inl (by simpa [State.ranks,Frame.predicted] using drops_append drops _ [])
  | @close parent ancestors finished below =>
    rw [below] at derivation
    cases derivation with
    | push under waits valid placed =>
      rw [ranks_of_finished grammar finished,below]
      have shorter : Below ((allNullable grammar.nullable parent.rest.tail).toNat,parent.rest.tail.length)
          ((allNullable grammar.nullable parent.rest.tail).toNat,parent.rest.length) :=
        Prod.Lex.right _ (by simp [waits])
      refine .inl ⟨(ranks grammar (allNullable grammar.nullable parent.rest.tail) ancestors).reverse,_,_,
        [],[(1,0)],rfl,?_,shorter⟩
      simp [ranks]
  | @grow parent ancestors chain last finished below recorded allowed =>
    obtain ⟨-,consuming⟩ := (Grammar.mem_cycles_iff grammar state.frame.name _).mp recorded
    have stuck := finish_grown grammar state.frame.origin consuming
    obtain ⟨size,more,outermost⟩ := ranks_outermost grammar (allNullable grammar.nullable last.rule.rhs.tail)
      last.rule.rhs.tail.length (chain.map (Frame.predicted · state.frame.origin)).reverse
    rw [stuck] at outermost
    rw [ranks_of_finished grammar finished,State.ranks]
    simp only [Frame.advance,Frame.predicted] at outermost ⊢
    rw [ranks_append,List.reverse_append,List.append_assoc,outermost]
    left
    simp only [Frame.predicted] at stuck
    rw [stuck]
    rcases ranks_stuck grammar true state.ancestors with same | drops
    · rw [same]
      exact ⟨_,_,_,more,[],rfl,rfl,Prod.Lex.left _ _ (by decide)⟩
    · exact drops_append drops _ _

/-- From a state of distinct frames only finitely many steps can be taken. -/
theorem acc_step {state : State} {tokens : List Token}
    (derivation : PartialDerivation grammar (state.frame :: state.ancestors) tokens)
    (distinct : Distinct (state.frame :: state.ancestors)) :
    Acc (fun next state => Step grammar tokens.length state next) state := by
  have length : ∀ state : State, (state.ranks grammar).length = (state.frame :: state.ancestors).length := by
    intro state
    simp [State.ranks]
  have within := derivation.length_le distinct
  rw [← length] at within
  generalize lowest : state.ranks grammar = list at within
  have falls := acc_lower _ list within
  induction falls generalizing state with
  | intro list _ ih =>
    subst lowest
    refine ⟨_,fun next taken => ?_⟩
    have kept := derivation.step taken
    have apart := distinct.step derivation taken
    have bound := kept.length_le apart
    rw [← length] at bound
    exact ih _ ⟨bound,lower_step derivation taken⟩ kept apart rfl bound

/-! ### The limit -/

private theorem within_mono {limit higher created waiting : Nat} (above : limit ≤ higher)
    (within : ¬ (decide (limit < created) || decide (limit < waiting)) = true) :
    ¬ (decide (higher < created) || decide (higher < waiting)) = true := by
  simp at within ⊢
  omega

private theorem expandAll_mono {table : Table} {limit higher current created waiting : Nat}
    {pending : List (TokenKind × State)} {complete : List Tree} {stack : List State} {result : Pass}
    (above : limit ≤ higher)
    (expanded : expandAll table limit current created waiting pending complete stack = some result) :
    expandAll table higher current created waiting pending complete stack = some result := by
  fun_induction expandAll table limit current created waiting pending complete stack with
  | case1 => rw [expandAll]; exact expanded
  | case2 => simp at expanded
  | case3 created waiting pending complete state stack within kind waits ih =>
    rw [expandAll,if_neg (within_mono above within),waits]
    exact ih expanded
  | case4 created waiting pending complete state stack within tree done ih =>
    rw [expandAll,if_neg (within_mono above within),done]
    exact ih expanded
  | case5 created waiting pending complete state stack within states replaced ih =>
    rw [expandAll,if_neg (within_mono above within),replaced]
    simpa using ih expanded
  | case6 created waiting pending complete state stack within states count replaced some ih =>
    rw [expandAll,if_neg (within_mono above within),replaced]
    simp only [some,if_false]
    exact ih expanded

/-- The stack is expanded to the end under every limit from some number on. -/
def Settles (grammar : Grammar) (current : Nat) (stack : List State) : Prop :=
  ∀ created waiting pending complete, ∃ enough, ∀ limit, enough ≤ limit →
    ∃ result, expandAll (Table.of grammar) limit current created waiting pending complete stack = some result

private theorem settles_nil (grammar : Grammar) (current : Nat) : Settles grammar current [] :=
  fun _ _ _ _ => ⟨0,fun _ _ => ⟨_,by rw [expandAll]⟩⟩

/-- A state from which finitely many steps can be taken may be put on a stack that is expanded to the end. -/
theorem settles_cons {current : Nat} {state : State}
    (ends : Acc (fun next state => Step grammar current state next) state) :
    ∀ stack, Settles grammar current stack → Settles grammar current (state :: stack) := by
  induction ends with
  | intro state _ ih =>
    intro stack rest created waiting pending complete
    have front : ∀ states, (∀ next ∈ states, Step grammar current state next) →
        Settles grammar current (states ++ stack) := by
      intro states steps
      induction states with
      | nil => exact rest
      | cons next others later =>
        exact ih next (steps next (by simp)) _ (later fun other member => steps other (by simp [member]))
    -- Whatever the expansion needs, the limit must also admit the counts at this point.
    suffices ∃ enough, ∀ limit, enough ≤ limit → created ≤ limit → waiting ≤ limit → ∃ result,
        expandAll (Table.of grammar) limit current created waiting pending complete (state :: stack) =
          some result by
      obtain ⟨enough,expands⟩ := this
      refine ⟨max enough (max created waiting),fun limit above => ?_⟩
      exact expands limit (by omega) (by omega) (by omega)
    cases expanded : expand (Table.of grammar) current state with
    | waiting kind =>
      obtain ⟨enough,expands⟩ := rest created (waiting + 1) ((kind,state) :: pending) complete
      refine ⟨enough,fun limit above first second => ?_⟩
      rw [expandAll,if_neg (by simp; omega),expanded]
      exact expands limit above
    | complete tree =>
      obtain ⟨enough,expands⟩ := rest created waiting pending (tree :: complete)
      refine ⟨enough,fun limit above first second => ?_⟩
      rw [expandAll,if_neg (by simp; omega),expanded]
      exact expands limit above
    | into states count =>
      obtain ⟨enough,expands⟩ := rest created waiting pending complete
      obtain ⟨enough',expands'⟩ := front states (fun next => (mem_expand_iff expanded next).mp)
        (created + count) waiting pending complete
      refine ⟨max enough enough',fun limit above first second => ?_⟩
      rw [expandAll,if_neg (by simp; omega),expanded]
      by_cases none : count = 0
      · simp only [none,if_true]
        exact expands limit (by omega)
      · simp only [none,if_false]
        exact expands' limit (by omega)

private theorem settles_reached {tokens : List Token} {count : Nat} (stack : List State)
    (reached : ∀ state ∈ stack, Reached grammar tokens count state) : Settles grammar count stack := by
  induction stack with
  | nil => exact settles_nil grammar count
  | cons state rest ih =>
    have here := reached state (by simp)
    obtain ⟨length,derivation⟩ := here.partialDerivation
    have ends := acc_step derivation here.distinct
    rw [length] at ends
    exact settles_cons ends rest (ih fun other member => reached other (by simp [member]))

private theorem pass_total {tokens : List Token} {count : Nat} {live : List State}
    (sources : Sources grammar tokens count live) :
    ∃ enough, ∀ limit, enough ≤ limit → ∃ result, pass (Table.of grammar) limit count live = some result := by
  have settles : Settles grammar count live :=
    settles_reached live fun state member => (sources state).mpr ⟨state,member,.refl⟩
  exact settles 0 0 [] []

/-- The error says that a pass would exceed its limit. -/
def LimitExceeded {α : Type} (limit : Nat) (outcome : Except ParseError α) : Prop :=
  ∃ place, outcome = .error (.stateLimit limit place)

private theorem lastPass_mono {table : Table} {limit higher : Nat} (above : limit ≤ higher) (pos : Position)
    (rest : List Token) (current : Nat) (live : List State)
    (within : ¬ LimitExceeded limit (lastPass table limit pos current live rest)) :
    lastPass table higher pos current live rest = lastPass table limit pos current live rest := by
  induction rest generalizing current live with
  | nil =>
    cases passed : pass table limit current live with
    | none => exact absurd ⟨pos,by simp [lastPass,passed]⟩ within
    | some result => simp only [lastPass,passed,show pass table higher current live = some result from
        expandAll_mono above passed]
  | cons token rest ih =>
    cases passed : pass table limit current live with
    | none => exact absurd ⟨token.pos,by simp [lastPass,passed]⟩ within
    | some result =>
      simp only [lastPass,passed] at within
      simp only [lastPass,passed,show pass table higher current live = some result from
        expandAll_mono above passed]
      cases scanned : scan token result.pending with
      | nil => rfl
      | cons survivor others =>
        simp only [scanned] at within
        exact ih (current + 1) (survivor :: others) within

private theorem lastPass_total {tokens : List Token} (pos : Position) (rest : List Token) (count : Nat) (live : List State)
    (sources : Sources grammar tokens count live) (remaining : tokens.drop count = rest) :
    ∃ enough, ∀ limit, enough ≤ limit →
      ¬ LimitExceeded limit (lastPass (Table.of grammar) limit pos count live rest) := by
  induction rest generalizing count live with
  | nil =>
    obtain ⟨enough,passes⟩ := pass_total sources
    refine ⟨enough,fun limit above => ?_⟩
    obtain ⟨result,passed⟩ := passes limit above
    simp [LimitExceeded,lastPass,passed]
  | cons token rest ih =>
    obtain ⟨here,after,-⟩ := next_token remaining
    obtain ⟨enough,passes⟩ := pass_total sources
    obtain ⟨result,passed⟩ := passes enough (Nat.le_refl _)
    obtain ⟨more,ends⟩ := ih (count + 1) _ (sources_scan sources passed here) after
    refine ⟨max enough more,fun limit above => ?_⟩
    have same : pass (Table.of grammar) limit count live = some result := expandAll_mono (by omega) passed
    have later := ends limit (by omega)
    simp only [lastPass,same]
    cases survivors : scan token result.pending with
    | nil => simp [LimitExceeded]
    | cons survivor others => rwa [survivors] at later

private theorem settle_within (policy : AmbiguityPolicy) (pos : Position) (result : Pass) (limit : Nat) (place : Position) :
    settle policy pos result ≠ .error (.stateLimit limit place) := by
  rcases settle_cases policy pos result with ⟨_,settled⟩ | ⟨_,settled⟩ | ⟨_,settled⟩ <;> simp [settled]

private theorem parse_exceeds_iff (grammar : Grammar) (options : Options) (tokens : List Token) (pos : Position) (limit : Nat) :
    LimitExceeded limit (parse grammar options ⟨tokens,.finished pos⟩) ↔
      LimitExceeded limit (lastPass (Table.of grammar) options.maxStates pos 0 (initial grammar) tokens) := by
  rw [parse_eq_lastPass]
  cases lastPass (Table.of grammar) options.maxStates pos 0 (initial grammar) tokens with
  | error error => simp [LimitExceeded,Except.bind]
  | ok result => simp [LimitExceeded,Except.bind,settle_within]

private theorem parse_mono {grammar : Grammar} {limit higher : Nat} (above : limit ≤ higher) (policy : AmbiguityPolicy)
    (tokens : List Token) (pos : Position)
    (within : ¬ LimitExceeded limit (parse grammar ⟨limit,policy⟩ ⟨tokens,.finished pos⟩)) :
    parse grammar ⟨higher,policy⟩ ⟨tokens,.finished pos⟩ = parse grammar ⟨limit,policy⟩ ⟨tokens,.finished pos⟩ := by
  rw [parse_exceeds_iff] at within
  rw [parse_eq_lastPass,parse_eq_lastPass,lastPass_mono above pos tokens 0 (initial grammar) within]

private theorem lastPass_limit {table : Table} {limit other : Nat} {pos place : Position} (rest : List Token) (current : Nat)
    (live : List State) (stopped : lastPass table limit pos current live rest = .error (.stateLimit other place)) :
    other = limit := by
  induction rest generalizing current live with
  | nil =>
    simp only [lastPass] at stopped
    split at stopped <;> simp_all
  | cons token rest ih =>
    simp only [lastPass] at stopped
    split at stopped
    · simp_all
    · split at stopped
      · simp at stopped
      · exact ih _ _ stopped

private theorem withMaxStates_pos (options : Options) {count : Nat} (positive : 1 ≤ count) :
    options.withMaxStates count = ⟨count,options.ambiguity⟩ := by
  have above : (0 : Int) < count := by omega
  rw [Options.withMaxStates,if_pos above]
  rfl

/-- For every grammar and every sequence of tokens there is a number of states below which each limit
    is exceeded, and from which on every limit gives one and the same outcome, which is then that of an
    unlimited parse: the passes themselves end. -/
theorem parse_threshold (grammar : Grammar) (options : Options) (tokens : List Token) (pos : Position) :
    (∃ threshold outcome, 1 ≤ threshold ∧ (∀ limit place, outcome ≠ .error (.stateLimit limit place)) ∧
      (∀ count : Nat, 1 ≤ count → count < threshold → ∃ place,
        parse grammar (options.withMaxStates count) ⟨tokens,.finished pos⟩ = .error (.stateLimit count place)) ∧
      ∀ count : Nat, threshold ≤ count →
        parse grammar (options.withMaxStates count) ⟨tokens,.finished pos⟩ = outcome) ∧
    ∀ count live, Sources grammar tokens count live → ∃ enough, ∀ limit, enough ≤ limit →
      ∃ result, pass (Table.of grammar) limit count live = some result := by
  refine ⟨?_,fun count live sources => pass_total sources⟩
  let answer (count : Nat) := parse grammar ⟨count,options.ambiguity⟩ ⟨tokens,.finished pos⟩
  have ends : ∃ count, 1 ≤ count ∧ ¬ LimitExceeded count (answer count) := by
    obtain ⟨enough,within⟩ := lastPass_total pos tokens 0 (initial grammar) (sources_initial grammar tokens) rfl
    refine ⟨max enough 1,by omega,?_⟩
    rw [parse_exceeds_iff]
    exact within _ (by omega)
  classical
  obtain ⟨first,within⟩ := Nat.find_spec ends
  refine ⟨Nat.find ends,answer (Nat.find ends),first,?_,?_,?_⟩
  · intro limit place stopped
    have exceeded : LimitExceeded limit (answer (Nat.find ends)) := ⟨place,stopped⟩
    rw [parse_exceeds_iff] at exceeded
    obtain ⟨place',same⟩ := exceeded
    obtain rfl := lastPass_limit tokens 0 (initial grammar) same
    exact within ⟨place,stopped⟩
  · intro count positive below
    rw [withMaxStates_pos options positive]
    by_contra other
    exact Nat.find_min ends below ⟨positive,other⟩
  · intro count above
    rw [withMaxStates_pos options (by omega)]
    exact parse_mono above options.ambiguity tokens pos within

end CFrontend.Parser
