import CFrontend.Proofs.ErrorReport
import CFrontend.Proofs.Progress

/-!
The order of rules decides the order of trees and nothing else. Rules in another order are a grammar as well, with the same
derivations, the same nullable symbols and, up to the numbers of productions, the same cycles. The parsers of two such
grammars reach states that differ in the numbers of their productions only (`Reached.renumbered`), so their passes wait for
the same kinds and complete the same trees, whatever of the recursion they follow.
-/
namespace CFrontend
namespace Grammar

/-! ### The rules of a grammar in another order -/

theorem nameFault?_eq_none_iff (rules : List Rule) : nameFault? rules = none ↔ ∀ rule ∈ rules, rule.lhs ≠ "" := by
  simp only [nameFault?,List.findSome?_eq_none_iff,ite_eq_right_iff,reduceCtorEq,imp_false,Prod.forall]
  constructor
  · intro named rule member
    obtain ⟨index,place⟩ := List.getElem?_of_mem member
    exact named rule index (List.mk_mem_zipIdx_iff_getElem?.mpr place)
  · intro named rule index member
    exact named rule (List.mem_of_getElem? (List.mk_mem_zipIdx_iff_getElem?.mp member))

theorem symbolFault?_eq_none_iff (rules : List Rule) (index : Nat) (rule : Rule) (symbol : Symbol) :
    symbolFault? rules index rule symbol = none ↔ match symbol with
      | .terminal kind => kind ≠ .invalid
      | .nonterminal name => ∃ other ∈ rules, other.lhs = name := by
  cases symbol with
  | terminal kind => simp [symbolFault?]
  | nonterminal name => simp [symbolFault?,defines]

theorem rightFault?_eq_none_iff (rules : List Rule) : rightFault? rules = none ↔
    ∀ rule ∈ rules, ∀ symbol ∈ rule.rhs, symbolFault? rules 0 rule symbol = none := by
  simp only [rightFault?,List.findSome?_eq_none_iff,Prod.forall,symbolFault?_eq_none_iff]
  constructor
  · intro right rule member
    obtain ⟨index,place⟩ := List.getElem?_of_mem member
    exact right rule index (List.mk_mem_zipIdx_iff_getElem?.mpr place)
  · intro right rule index member
    exact right rule (List.mem_of_getElem? (List.mk_mem_zipIdx_iff_getElem?.mp member))

theorem fault?_eq_none_iff (start : String) (rules : List Rule) : fault? start rules = none ↔
    nameFault? rules = none ∧ startFault? start rules = none ∧ rightFault? rules = none := by
  unfold fault?
  cases nameFault? rules with
  | some fault => simp
  | none => cases startFault? start rules <;> simp

/-- Rules in another order are faultless when they are so in one order. -/
theorem fault?_of_perm {start : String} {rules others : List Rule} (order : others.Perm rules)
    (sound : fault? start rules = none) : fault? start others = none := by
  rw [fault?_eq_none_iff] at sound ⊢
  obtain ⟨named,started,right⟩ := sound
  refine ⟨?_,?_,?_⟩
  · rw [nameFault?_eq_none_iff] at named ⊢
    exact fun rule member => named rule (order.mem_iff.mp member)
  · rw [startFault?,order.countP_eq]
    exact started
  · rw [rightFault?_eq_none_iff] at right ⊢
    intro rule member symbol inside
    have here := right rule (order.mem_iff.mp member) symbol inside
    rw [symbolFault?_eq_none_iff] at here ⊢
    cases symbol with
    | terminal kind => exact here
    | nonterminal name =>
      obtain ⟨other,defined,lhs⟩ := here
      exact ⟨other,order.mem_iff.mpr defined,lhs⟩

private theorem ofRules_eq_ok {start : String} {rules : List Rule} (sound : fault? start rules = none) :
    ofRules start rules = .ok ⟨start,rules,sound⟩ := by
  unfold ofRules
  split
  · rename_i fault found
    rw [sound] at found
    simp at found
  · rfl

variable {first second : Grammar}

/-- The grammars have the same start symbol and the same rules, perhaps in different orders. -/
structure SameRules (first second : Grammar) : Prop where
  start : first.start = second.start
  rules : ∀ rule, rule ∈ first.rules ↔ rule ∈ second.rules

theorem SameRules.symm (same : SameRules first second) : SameRules second first :=
  ⟨same.start.symm,fun rule => (same.rules rule).symm⟩

/-! ### Derivations and cycles -/

mutual

theorem Derives.mono (inside : first.rules ⊆ second.rules) : (symbol : Symbol) → (tree : Tree) →
    first.Derives symbol tree → second.Derives symbol tree
  | .terminal _, .leaf _, derived => by simpa [Derives] using derived
  | .terminal _, .branch _ _, derived => by simp [Derives] at derived
  | .nonterminal _, .leaf _, derived => by simp [Derives] at derived
  | .nonterminal _, .branch _ children, derived => by
    obtain ⟨label,rule,member,lhs,below⟩ := derived
    exact ⟨label,rule,inside member,lhs,DerivesAll.mono inside rule.rhs children below⟩

theorem DerivesAll.mono (inside : first.rules ⊆ second.rules) : (symbols : List Symbol) → (trees : List Tree) →
    first.DerivesAll symbols trees → second.DerivesAll symbols trees
  | [], [], _ => trivial
  | [], _ :: _, derived => by simp [DerivesAll] at derived
  | _ :: _, [], derived => by simp [DerivesAll] at derived
  | symbol :: symbols, tree :: trees, derived =>
    ⟨Derives.mono inside symbol tree derived.1,DerivesAll.mono inside symbols trees derived.2⟩

end

private theorem SameRules.nullable_iff (same : SameRules first second) (symbol : Symbol) :
    first.Nullable symbol ↔ second.Nullable symbol := by
  constructor
  · rintro ⟨tree,derived,empty⟩
    exact ⟨tree,Derives.mono (fun rule => (same.rules rule).mp) symbol tree derived,empty⟩
  · rintro ⟨tree,derived,empty⟩
    exact ⟨tree,Derives.mono (fun rule => (same.rules rule).mpr) symbol tree derived,empty⟩

theorem SameRules.alternative (same : SameRules first second) {name : String} {production : Production}
    (alternative : production ∈ first.alternatives name) :
    ∃ other ∈ second.alternatives name, other.rule = production.rule := by
  obtain ⟨other,member,rule⟩ := exists_alternative ((same.rules _).mp (rule_of_mem_alternatives alternative))
  rw [lhs_of_mem_alternatives alternative] at member
  exact ⟨other,member,rule⟩

private theorem SameRules.leftChain (same : SameRules first second) {source target : String} {chain : List Production}
    (linked : LeftChain first source chain target) :
    ∃ other, LeftChain second source other target ∧ other.map (·.rule) = chain.map (·.rule) := by
  induction linked with
  | nil name => exact ⟨[],.nil name,rfl⟩
  | cons alternative leads _ ih =>
    obtain ⟨production,member,rule⟩ := same.alternative alternative
    obtain ⟨others,linked,rules⟩ := ih
    exact ⟨production :: others,.cons member (rule ▸ leads) linked,by rw [List.map_cons,rule,rules,List.map_cons]⟩

/-- Each cycle of the first grammar is one of the second, up to the numbers of its productions. -/
theorem SameRules.cycle (same : SameRules first second) {name : String} {cycle : Cycle}
    (recorded : cycle ∈ first.cycles name) : ∃ other ∈ second.cycles name, other.map (·.rule) = cycle.map (·.rule) := by
  obtain ⟨⟨nonempty,linked,simple⟩,consuming⟩ := (mem_cycles_iff first name cycle).mp recorded
  obtain ⟨other,linked',rules⟩ := same.leftChain linked
  refine ⟨other,(mem_cycles_iff second name other).mpr ⟨⟨?_,linked',?_⟩,?_⟩,rules⟩
  · rintro rfl
    exact nonempty (List.map_eq_nil_iff.mp rules.symm)
  · have names := congrArg (List.map Rule.lhs) rules
    rw [List.map_map,List.map_map] at names
    exact names ▸ simple
  · rw [consumes_nullable_iff] at consuming ⊢
    obtain ⟨production,member,solid⟩ := consuming
    have ruled : production.rule ∈ other.map (·.rule) := rules ▸ List.mem_map_of_mem member
    obtain ⟨step,inside,rule⟩ := List.mem_map.mp ruled
    refine ⟨step,inside,fun empty => solid fun symbol own => ?_⟩
    exact (same.nullable_iff symbol).mpr (empty symbol (rule ▸ own))

end Grammar

namespace Parser
open Grammar (Cycle SameRules)

variable {first second : Grammar} {tokens : List Token} {count : Nat}

/-! ### States up to the numbers of productions -/

/-- The frame without the number of its production. -/
def Frame.unnumbered (frame : Frame) : Frame := { frame with production := ⟨0,frame.production.rule⟩ }

private theorem keys_unnumbered (frames : List Frame) : (frames.map Frame.unnumbered).map (fun frame => (frame.origin,frame.name)) =
    frames.map fun frame => (frame.origin,frame.name) := by
  rw [List.map_map]
  rfl

private theorem map_unnumbered_predicted (productions : List Production) (origin : Nat) :
    (productions.map (Frame.predicted · origin)).map Frame.unnumbered =
      (productions.map (·.rule)).map fun rule => ⟨⟨0,rule⟩,[],rule.rhs,origin⟩ := by
  rw [List.map_map,List.map_map]
  rfl

/-- States that differ in the numbers of their productions only. -/
structure Renumbered (state other : State) : Prop where
  frame : other.frame.unnumbered = state.frame.unnumbered
  ancestors : other.ancestors.map Frame.unnumbered = state.ancestors.map Frame.unnumbered

namespace Renumbered

variable {state other : State}

theorem frames (alike : Renumbered state other) :
    (other.frame :: other.ancestors).map Frame.unnumbered = (state.frame :: state.ancestors).map Frame.unnumbered := by
  rw [List.map_cons,List.map_cons,alike.frame,alike.ancestors]

theorem rest (alike : Renumbered state other) : other.frame.rest = state.frame.rest := by
  have same := congrArg Frame.rest alike.frame
  exact same

theorem tree (alike : Renumbered state other) : other.frame.tree = state.frame.tree := by
  have same := congrArg Frame.tree alike.frame
  exact same

theorem origin (alike : Renumbered state other) : other.frame.origin = state.frame.origin := by
  have same := congrArg Frame.origin alike.frame
  exact same

theorem name (alike : Renumbered state other) : other.frame.name = state.frame.name := by
  have same := congrArg Frame.name alike.frame
  exact same

theorem isLooped (alike : Renumbered state other) (name : String) (current : Nat) :
    other.isLooped name current = state.isLooped name current := by
  apply isLooped_congr
  rw [← keys_unnumbered,alike.frames,keys_unnumbered]

theorem mayGrow (alike : Renumbered state other) {cycle cycle' : Cycle} (rules : cycle'.map (·.rule) = cycle.map (·.rule)) :
    other.mayGrow cycle' = state.mayGrow cycle := by
  apply mayGrow_congr alike.origin _ rules
  rw [← keys_unnumbered,alike.ancestors,keys_unnumbered]

theorem advance (alike : Renumbered state other) (tree : Tree) : Renumbered (state.advance tree) (other.advance tree) :=
  ⟨congrArg (Frame.advance · tree) alike.frame,alike.ancestors⟩

private theorem waits_iff (alike : Renumbered state other) (kind : TokenKind) : Waits other kind ↔ Waits state kind := by
  rw [Waits,Waits,alike.rest]

private theorem completes_iff (alike : Renumbered state other) (tree : Tree) : Completes other tree ↔ Completes state tree := by
  rw [Completes,Completes,alike.rest,alike.tree]
  have root : other.ancestors = [] ↔ state.ancestors = [] := by
    rw [← List.map_eq_nil_iff,alike.ancestors,List.map_eq_nil_iff]
  rw [root]

end Renumbered

/-- What the first parser does with a state, the second one does with the state renumbered. -/
theorem Step.renumbered (same : SameRules first second) {state next other : State} (taken : Step first count state next)
    (alike : Renumbered state other) : ∃ next', Step second count other next' ∧ Renumbered next next' := by
  cases taken with
  | @predict name tail production waits fresh alternative =>
    obtain ⟨production',alternative',rule⟩ := same.alternative alternative
    refine ⟨_,.predict (alike.rest.trans waits) ((alike.isLooped name count).trans fresh) alternative',?_,alike.frames⟩
    simp [Frame.unnumbered,Frame.predicted,rule]
  | @close parent ancestors finished below =>
    have above := alike.ancestors
    rw [below,List.map_cons] at above
    obtain ⟨parent',ancestors',below',own,rest⟩ := List.map_eq_cons_iff.mp above
    refine ⟨_,.close (alike.rest.trans finished) below',?_,rest⟩
    rw [alike.tree]
    exact congrArg (Frame.advance · state.frame.tree) own
  | @grow parent ancestors chain last finished below recorded allowed =>
    obtain ⟨cycle,recorded',rules⟩ := same.cycle recorded
    rw [List.map_append,List.map_singleton] at rules
    obtain ⟨chain',final,rfl,chained,ended⟩ := List.map_eq_append_iff.mp rules
    obtain ⟨last',rfl,rule⟩ := List.map_eq_singleton_iff.mp ended
    have above := alike.ancestors
    rw [below,List.map_cons] at above
    obtain ⟨parent',ancestors',below',-,-⟩ := List.map_eq_cons_iff.mp above
    rw [← alike.name] at recorded'
    refine ⟨_,.grow (alike.rest.trans finished) below' recorded' ((alike.mayGrow ?_).trans allowed),?_,?_⟩
    · rw [List.map_append,chained,List.map_singleton,rule,List.map_append,List.map_singleton]
    · rw [alike.tree,alike.origin]
      simp [Frame.unnumbered,Frame.predicted,Frame.advance,rule]
    · rw [List.map_append,List.map_append,List.map_reverse,List.map_reverse,map_unnumbered_predicted,
        map_unnumbered_predicted,alike.ancestors,alike.origin,chained]

/-- What tokens lead to by the rules in one order, they lead to by the rules in the other, up to the numbers of productions. -/
theorem Reached.renumbered (same : SameRules first second) {state : State} (reached : Reached first tokens count state) :
    ∃ other, Reached second tokens count other ∧ Renumbered state other := by
  induction reached with
  | @start production alternative =>
    obtain ⟨production',alternative',rule⟩ := same.alternative alternative
    rw [same.start] at alternative'
    refine ⟨_,.start alternative',?_,rfl⟩
    simp [State.root,Frame.unnumbered,Frame.predicted,rule]
  | step _ taken ih =>
    obtain ⟨other,reached',alike⟩ := ih
    obtain ⟨next,taken',alike'⟩ := taken.renumbered same alike
    exact ⟨next,reached'.step taken',alike'⟩
  | scan _ waits here ih =>
    obtain ⟨other,reached',alike⟩ := ih
    exact ⟨_,reached'.scan ((alike.waits_iff _).mpr waits) here,alike.advance _⟩

private theorem exists_reached_iff (same : SameRules first second) {property : State → Prop}
    (respects : ∀ state other, Renumbered state other → (property other ↔ property state)) :
    (∃ state, property state ∧ Reached first tokens count state) ↔ ∃ state, property state ∧ Reached second tokens count state := by
  constructor
  · rintro ⟨state,holds,reached⟩
    obtain ⟨other,reached',alike⟩ := reached.renumbered same
    exact ⟨other,(respects state other alike).mpr holds,reached'⟩
  · rintro ⟨state,holds,reached⟩
    obtain ⟨other,reached',alike⟩ := reached.renumbered same.symm
    exact ⟨other,(respects state other alike).mpr holds,reached'⟩

/-! ### Passes -/

/-- The passes wait for the same kinds and complete the same trees. -/
structure PassesAlike (result result' : Pass) : Prop where
  kinds : ∀ kind, kind ∈ result.pending.map (·.1) ↔ kind ∈ result'.pending.map (·.1)
  trees : ∀ tree, tree ∈ result.complete ↔ tree ∈ result'.complete

private theorem passesAlike_of_sources (same : SameRules first second) {limit limit' : Nat} {live live' : List State}
    {result result' : Pass} (sources : Sources first tokens count live) (sources' : Sources second tokens count live')
    (passed : pass (Table.of first) limit count live = some result)
    (passed' : pass (Table.of second) limit' count live' = some result') : PassesAlike result result' := by
  constructor
  · intro kind
    simp only [List.mem_map,Prod.exists,exists_and_right,exists_eq_right,mem_pending_iff passed,mem_pending_iff passed',
      ← sources _,← sources' _]
    exact exists_reached_iff same fun _ _ alike => alike.waits_iff kind
  · intro tree
    simp only [mem_complete_iff passed,mem_complete_iff passed',← sources _,← sources' _]
    exact exists_reached_iff same fun _ _ alike => alike.completes_iff tree

private theorem sortedKinds_congr {kinds kinds' : List TokenKind} (members : ∀ kind, kind ∈ kinds ↔ kind ∈ kinds') :
    sortedKinds kinds = sortedKinds kinds' := by
  obtain ⟨ascending,own⟩ := sortedKinds_spec kinds
  obtain ⟨ascending',own'⟩ := sortedKinds_spec kinds'
  have once : ∀ {list : List TokenKind}, list.Pairwise (fun left right => left.code < right.code) → list.Nodup :=
    fun sorted => sorted.imp fun below => by rintro rfl; exact absurd below (lt_irrefl _)
  have perm : (sortedKinds kinds).Perm (sortedKinds kinds') :=
    (List.perm_ext_iff_of_nodup (once ascending) (once ascending')).mpr fun kind => by rw [own,own',members]
  exact perm.eq_of_pairwise (fun _ _ _ _ below above => absurd (lt_trans below above) (lt_irrefl _)) ascending ascending'

theorem PassesAlike.sortedKinds {result result' : Pass} (alike : PassesAlike result result') :
    sortedKinds (result.pending.map (·.1)) = Parser.sortedKinds (result'.pending.map (·.1)) :=
  sortedKinds_congr alike.kinds

theorem PassesAlike.isEmpty {result result' : Pass} (alike : PassesAlike result result') :
    result.complete.isEmpty = result'.complete.isEmpty := by
  rw [Bool.eq_iff_iff,List.isEmpty_iff,List.isEmpty_iff,List.eq_nil_iff_forall_not_mem,List.eq_nil_iff_forall_not_mem]
  simp only [alike.trees]

private theorem scan_eq_nil_iff (token : Token) (pending : List (TokenKind × State)) :
    scan token pending = [] ↔ token.kind ∉ pending.map (·.1) := by
  constructor
  · intro none member
    obtain ⟨⟨kind,state⟩,inside,named⟩ := List.mem_map.mp member
    have survivor := (mem_scan_iff token pending _).mpr ⟨state,named ▸ inside,rfl⟩
    simp [none] at survivor
  · intro absent
    rw [List.eq_nil_iff_forall_not_mem]
    intro state member
    obtain ⟨waiting,inside,-⟩ := (mem_scan_iff token pending state).mp member
    exact absent (List.mem_map.mpr ⟨_,inside,rfl⟩)

/-- Within their limits, the passes by the rules in either order accept as many tokens and end alike. -/
theorem lastPass_reordered (same : SameRules first second) {limit limit' : Nat} (pos : Position) (rest : List Token) (count : Nat)
    (live live' : List State) (sources : Sources first tokens count live) (sources' : Sources second tokens count live')
    (remaining : tokens.drop count = rest)
    (within : ∀ bound place, lastPass (Table.of first) limit pos count live rest ≠ .error (.stateLimit bound place))
    (within' : ∀ bound place, lastPass (Table.of second) limit' pos count live' rest ≠ .error (.stateLimit bound place)) :
    acceptedFrom (Table.of first) limit count live rest = acceptedFrom (Table.of second) limit' count live' rest ∧
    ((∃ result result', lastPass (Table.of first) limit pos count live rest = .ok result ∧
        lastPass (Table.of second) limit' pos count live' rest = .ok result' ∧ PassesAlike result result') ∨
      ∃ token expected canEnd,
        lastPass (Table.of first) limit pos count live rest = .error (.unexpected token expected canEnd) ∧
        lastPass (Table.of second) limit' pos count live' rest = .error (.unexpected token expected canEnd)) := by
  induction rest generalizing count live live' with
  | nil =>
    cases passed : pass (Table.of first) limit count live with
    | none => exact absurd (by rw [lastPass,passed]) (within limit pos)
    | some result =>
      cases passed' : pass (Table.of second) limit' count live' with
      | none => exact absurd (by rw [lastPass,passed']) (within' limit' pos)
      | some result' =>
        refine ⟨rfl,.inl ⟨result,result',?_,?_,passesAlike_of_sources same sources sources' passed passed'⟩⟩
        · rw [lastPass,passed]
        · rw [lastPass,passed']
  | cons token rest ih =>
    obtain ⟨here,after,-⟩ := next_token remaining
    cases passed : pass (Table.of first) limit count live with
    | none => exact absurd (by rw [lastPass,passed]) (within limit token.pos)
    | some result =>
      cases passed' : pass (Table.of second) limit' count live' with
      | none => exact absurd (by rw [lastPass,passed']) (within' limit' token.pos)
      | some result' =>
        have alike := passesAlike_of_sources same sources sources' passed passed'
        have stopped : scan token result.pending = [] ↔ scan token result'.pending = [] := by
          rw [scan_eq_nil_iff,scan_eq_nil_iff,alike.kinds]
        have later := sources_scan sources passed here
        have later' := sources_scan sources' passed' here
        simp only [lastPass,acceptedFrom,passed,passed'] at within within' ⊢
        cases scanned : scan token result.pending with
        | nil =>
          rw [stopped.mp scanned]
          exact ⟨rfl,.inr ⟨token,_,_,rfl,by rw [alike.sortedKinds,alike.isEmpty]⟩⟩
        | cons survivor others =>
          cases scanned' : scan token result'.pending with
          | nil => simp [stopped.mpr scanned'] at scanned
          | cons survivor' others' =>
            simp only [scanned,scanned'] at within within' later later' ⊢
            obtain ⟨counts,ends⟩ := ih (count + 1) _ _ later later' after within within'
            exact ⟨congrArg (· + 1) counts,ends⟩

/-! ### Outcomes -/

/-- Two parses of the tokens that accept as many of them end in the same way, apart from the order of ambiguous trees. -/
def SameOutcome (tokens : List Token) (index : Nat) : Except ParseError Tree → Except ParseError Tree → Prop
  | .ok tree, .ok tree' => tree = tree' ∧ tree.same tree' = true
  | .error (.ambiguous trees), .error (.ambiguous trees') => trees.Perm trees'
  | .error (.unexpected token expected canEnd), .error (.unexpected token' expected' canEnd') =>
    tokens[index]? = some token ∧ token = token' ∧ expected = expected' ∧ canEnd = canEnd'
  | .error (.incomplete pos expected), .error (.incomplete pos' expected') => pos = pos' ∧ expected = expected'
  | _, _ => False

private theorem PassesAlike.perm {result result' : Pass} (alike : PassesAlike result result') (exact : Exact result.complete)
    (exact' : Exact result'.complete) : (distinct result.complete).Perm (distinct result'.complete) := by
  refine (List.perm_ext_iff_of_nodup (nodup_distinct exact) (nodup_distinct exact')).mpr fun tree => ?_
  rw [mem_distinct_iff exact,mem_distinct_iff exact',alike.trees]

private theorem settle_reordered {result result' : Pass} (alike : PassesAlike result result') (exact : Exact result.complete)
    (exact' : Exact result'.complete) (tokens : List Token) (pos : Position) (index : Nat) :
    SameOutcome tokens index (settle .error pos result) (settle .error pos result') := by
  have perm := alike.perm exact exact'
  have members := mem_distinct_iff exact
  rw [settle_eq,settle_eq,alike.sortedKinds]
  match kept : distinct result.complete,kept' : distinct result'.complete with
  | [],[] => exact ⟨rfl,rfl⟩
  | [tree],[tree'] =>
    rw [kept,kept'] at perm
    obtain rfl : tree = tree' := by simpa using perm
    have own := (members tree).mp (by simp [kept])
    exact ⟨rfl,(exact tree own tree own).mpr rfl⟩
  | tree :: next :: others,tree' :: next' :: others' =>
    rw [kept,kept'] at perm
    simpa [SameOutcome] using perm
  | [],_ :: _ | _ :: _,[] | [_],_ :: _ :: _ | _ :: _ :: _,[_] =>
    have lengths := perm.length_eq
    simp [kept,kept'] at lengths

/-- The rules of a grammar in any other order are a grammar. Within their limits, its parser and that of the first grammar
    accept as many tokens and end alike: with equal trees, with the same ambiguous trees, or with the same report. -/
theorem parse_reordered (grammar : Grammar) (rules : List Rule) (order : rules.Perm grammar.rules) :
    ∃ other, Grammar.ofRules grammar.start rules = .ok other ∧
      ∀ (limit limit' : Nat) (tokens : List Token) (pos : Position), (∀ token ∈ tokens, token.NoNaN) →
        (∀ bound place, parse grammar ⟨limit,.error⟩ ⟨tokens,.finished pos⟩ ≠ .error (.stateLimit bound place)) →
        (∀ bound place, parse other ⟨limit',.error⟩ ⟨tokens,.finished pos⟩ ≠ .error (.stateLimit bound place)) →
        accepted grammar ⟨limit,.error⟩ tokens = accepted other ⟨limit',.error⟩ tokens ∧
          SameOutcome tokens (accepted grammar ⟨limit,.error⟩ tokens)
            (parse grammar ⟨limit,.error⟩ ⟨tokens,.finished pos⟩) (parse other ⟨limit',.error⟩ ⟨tokens,.finished pos⟩) := by
  have sound := Grammar.fault?_of_perm order grammar.valid
  have same : SameRules grammar ⟨grammar.start,rules,sound⟩ := ⟨rfl,fun rule => order.mem_iff.symm⟩
  refine ⟨_,Grammar.ofRules_eq_ok sound,fun limit limit' tokens pos numbers within within' => ?_⟩
  generalize (⟨grammar.start,rules,sound⟩ : Grammar) = other at same within' ⊢
  have exact_of_found : ∀ {grammar : Grammar} {result : Pass}, (∀ tree, tree ∈ result.complete ↔ Found grammar tokens tree) →
      Exact result.complete := fun found => exact_of_tokens numbers fun tree member =>
    (found_derivation ((found tree).mp member)).2
  rw [parse_eq_lastPass] at within within' ⊢
  rw [parse_eq_lastPass]
  have stops := lastPass_stops (Table.of grammar) limit pos tokens 0 (initial grammar)
  have found := lastPass_spec grammar limit pos tokens
  have found' := lastPass_spec other limit' pos tokens
  obtain ⟨counts,⟨result,result',last,last',alike⟩ | ⟨token,expected,canEnd,last,last'⟩⟩ := lastPass_reordered same pos tokens 0
    (initial grammar) (initial other) (sources_initial grammar tokens) (sources_initial other tokens) rfl
    (fun bound place stopped => within bound place (by rw [stopped]; rfl))
    (fun bound place stopped => within' bound place (by rw [stopped]; rfl))
  · rw [last] at found ⊢
    rw [last'] at found' ⊢
    exact ⟨counts,settle_reordered alike (exact_of_found found) (exact_of_found found') tokens pos _⟩
  · rw [last] at stops ⊢
    rw [last']
    exact ⟨counts,stops,rfl,rfl,rfl⟩

/-- The marked identifiers with their rules in reverse order. -/
def markedBackwards : Grammar := ⟨"S",marked.rules.reverse,by decide +kernel⟩

/-- A plus sign by the direct recursion. -/
def direct : Tree := .branch "S" [.branch "E" [plain,.leaf (.bare .plus)]]

/-- A plus sign by the recursion through `F`. -/
def indirect : Tree := .branch "S" [.branch "E" [.branch "F" [plain,.leaf (.bare .plus)]]]

/-- Both orders of the rules give the two readings of a marked identifier, each with another one first. -/
theorem parse_reordered_marked :
    parse marked {} ⟨[.bare .identifier,.bare .plus],.finished .origin⟩ = .error (.ambiguous [direct,indirect]) ∧
    parse markedBackwards {} ⟨[.bare .identifier,.bare .plus],.finished .origin⟩ =
      .error (.ambiguous [indirect,direct]) ∧
    [direct,indirect].Perm [indirect,direct] := by
  have one : parse marked {} ⟨[.bare .identifier,.bare .plus],.finished .origin⟩ =
      .error (.ambiguous [direct,indirect]) := by cbv
  have two : parse markedBackwards {} ⟨[.bare .identifier,.bare .plus],.finished .origin⟩ =
      .error (.ambiguous [indirect,direct]) := by cbv
  obtain ⟨other,made,alike⟩ := parse_reordered marked marked.rules.reverse (List.reverse_perm _)
  rw [show Grammar.ofRules marked.start marked.rules.reverse = .ok markedBackwards from Grammar.ofRules_eq_ok _] at made
  obtain rfl := Except.ok.inj made
  have ends := (alike 1000000 1000000 [.bare .identifier,.bare .plus] .origin (by decide) (by rw [one]; simp)
    (by rw [two]; simp)).2
  rw [one,two] at ends
  exact ⟨one,two,ends⟩

end Parser

end CFrontend
