import CFrontend.Proofs.CycleSearch
import CFrontend.Proofs.Termination

/-!
No tree is derived twice. When the rules of a grammar are distinct, a reached state has at most one
predecessor among the reached states before the same token (`Step.predecessor`): the tree that its
frame matched last tells which frame was finished, and growing a cycle around a finished frame and
closing that frame inside the cycle would take two frames of one nonterminal predicted at
one token. States of which none leads to another therefore stay so in a pass, and each complete state is
found once.
-/
namespace CFrontend
open Relation (ReflTransGen TransGen)

namespace Tree

/-- The only symbol that the tree can derive. -/
def symbol : Tree → Symbol
  | .leaf token => .terminal token.kind
  | .branch name _ => .nonterminal name

end Tree

namespace Grammar

variable {grammar : Grammar}

theorem symbol_of_derives {symbol : Symbol} {tree : Tree} (derived : grammar.Derives symbol tree) :
    tree.symbol = symbol := by
  cases symbol with
  | terminal kind =>
    obtain ⟨token,rfl,rfl⟩ := (derives_terminal_iff kind tree).mp derived
    rfl
  | nonterminal name =>
    obtain ⟨rule,-,-,children,rfl,-⟩ := (derives_nonterminal_iff name tree).mp derived
    rfl

theorem symbols_of_derivesAll {symbols : List Symbol} {trees : List Tree}
    (derived : grammar.DerivesAll symbols trees) : trees.map Tree.symbol = symbols := by
  induction symbols generalizing trees with
  | nil => rw [(derivesAll_nil_iff trees).mp derived]; rfl
  | cons symbol symbols ih =>
    obtain ⟨tree,rest,rfl,first,others⟩ := (derivesAll_cons_iff symbol symbols trees).mp derived
    rw [List.map_cons,symbol_of_derives first,ih others]

/-- With distinct rules, a production is known by its rule. -/
theorem production_of_rule (once : grammar.rules.Nodup) {name name' : String} {first second : Production}
    (member : first ∈ grammar.alternatives name) (member' : second ∈ grammar.alternatives name')
    (same : first.rule = second.rule) : first = second := by
  have here := ((mem_alternatives_iff grammar name first).mp member).2
  have there := ((mem_alternatives_iff grammar name' second).mp member').2
  have inside := (List.getElem?_eq_some_iff.mp here).1
  have index : first.index = second.index := (List.getElem?_inj inside once).mp (by rw [here,there,same])
  cases first
  cases second
  simp_all

end Grammar

namespace Parser
open Grammar (Cycle)

variable {grammar : Grammar} {tokens : List Token} {count : Nat}

/-! ### What a finished frame is made of -/

theorem PartialDerivation.placed {frame : Frame} {rest : List Frame} {read : List Token}
    (derivation : PartialDerivation grammar (frame :: rest) read) :
    frame.origin + frame.tokens.length = read.length := by
  cases derivation with
  | root valid named placed => simp [placed]
  | push below waits valid placed => simp [placed]

theorem Reached.placed {state : State} (reached : Reached grammar tokens count state) :
    state.frame.origin + state.frame.tokens.length = count := by
  obtain ⟨length,derivation⟩ := reached.partialDerivation
  exact derivation.placed.trans length

theorem Reached.valid {state : State} (reached : Reached grammar tokens count state) : state.frame.Valid grammar :=
  reached.partialDerivation.2.valid _ (by simp)

theorem Reached.awaited {state : State} {parent : Frame} {ancestors : List Frame}
    (reached : Reached grammar tokens count state) (below : state.ancestors = parent :: ancestors) :
    ∃ tail, parent.rest = .nonterminal state.frame.name :: tail := by
  obtain ⟨-,derivation⟩ := reached.partialDerivation
  generalize tokens.take count = read at derivation
  rw [below] at derivation
  cases derivation with
  | push outer waits valid placed => exact ⟨_,waits⟩

theorem Frame.Valid.symbols {frame : Frame} (valid : frame.Valid grammar) (finished : frame.rest = []) :
    frame.production.rule.rhs = (frame.matched.map Tree.symbol).reverse := by
  obtain ⟨done,rhs,matched⟩ := valid.split
  rw [rhs,finished,List.append_nil,← Grammar.symbols_of_derivesAll matched,List.map_reverse]

/-- A finished frame is known by its tree and its place. -/
theorem Frame.Valid.eq_of_tree (once : grammar.rules.Nodup) {left right : Frame} (first : left.Valid grammar)
    (second : right.Valid grammar) (finished : left.rest = []) (finished' : right.rest = [])
    (same : left.tree = right.tree) (placed : left.origin = right.origin) : left = right := by
  simp only [Frame.tree,Tree.branch.injEq,List.reverse_inj] at same
  have rule : left.production.rule = right.production.rule := by
    have lhs : left.production.rule.lhs = right.production.rule.lhs := same.1
    have rhs : left.production.rule.rhs = right.production.rule.rhs := by
      rw [first.symbols finished,second.symbols finished',same.2]
    cases h : left.production.rule
    cases h' : right.production.rule
    simp_all
  have production := Grammar.production_of_rule once first.alternative second.alternative rule
  cases left
  cases right
  simp_all

/-- Finished reached states on the same frames are equal when their trees are. -/
theorem eq_of_finished (once : grammar.rules.Nodup) {left right : State} (first : Reached grammar tokens count left)
    (second : Reached grammar tokens count right) (finished : left.frame.rest = []) (finished' : right.frame.rest = [])
    (same : left.frame.tree = right.frame.tree) (below : left.ancestors = right.ancestors) : left = right := by
  have matched : left.frame.tokens = right.frame.tokens := by
    have children := same
    simp only [Frame.tree,Tree.branch.injEq] at children
    rw [Frame.tokens,Frame.tokens,children.2]
  have placed : left.frame.origin = right.frame.origin := by
    have here := first.placed
    have there := second.placed
    rw [matched] at here
    omega
  have frame := Frame.Valid.eq_of_tree once first.valid second.valid finished finished' same placed
  cases left
  cases right
  simp_all

/-! ### Predecessors -/

/-- The keys of frames of which no two are alike in a reached state. -/
def keys (frames : List Frame) : List (Nat × String) := frames.map fun frame => (frame.origin,frame.name)

/-- Behind the turn through a cycle stands the key of the finished frame that was grown. -/
theorem key_grown {name : String} {chain : List Production} {last : Production}
    (recorded : chain ++ [last] ∈ grammar.cycles name) (origin : Nat) (tree : Tree) (outer : List Frame) :
    (keys ((Frame.predicted last origin).advance tree ::
      ((chain.map (Frame.predicted · origin)).reverse ++ outer)))[chain.length]? = some (origin,name) := by
  obtain ⟨⟨-,linked,-⟩,-⟩ := (Grammar.mem_cycles_iff grammar name _).mp recorded
  cases chain with
  | nil =>
    have first : last.rule.lhs = name := linked.head_lhs
    simp [keys,Frame.advance,Frame.predicted,Frame.name,first]
  | cons first rest =>
    have head : first.rule.lhs = name := linked.head_lhs
    simp [keys,Frame.predicted,Frame.name,head]

theorem advance_inj {parent parent' : Frame} {tree tree' : Tree}
    (same : parent.advance tree = parent'.advance tree') :
    tree = tree' ∧ parent.matched = parent'.matched ∧ parent.production = parent'.production ∧
      parent.origin = parent'.origin ∧ parent.rest.tail = parent'.rest.tail := by
  simp only [Frame.advance,Frame.mk.injEq,List.cons.injEq] at same
  tauto

private theorem name_eq_of_tree {frame frame' : Frame} (same : frame.tree = frame'.tree) : frame.name = frame'.name := by
  simp only [Frame.tree,Tree.branch.injEq] at same
  exact same.1

/-- What a state shows of the step that leads to it: a prediction has matched nothing, a parent has
    matched the tree of the frame that was closed, and so has the last production of a cycle. -/
theorem Step.arrival {state next : State} (taken : Step grammar count state next) :
    (next.frame.matched = [] ∧ next.ancestors = state.frame :: state.ancestors) ∨
    state.frame.rest = [] ∧
      ((∃ parent, state.ancestors = parent :: next.ancestors ∧ next.frame = parent.advance state.frame.tree) ∨
      ∃ chain last, chain ++ [last] ∈ grammar.cycles state.frame.name ∧
        next.frame = (Frame.predicted last state.frame.origin).advance state.frame.tree ∧
        next.ancestors = (chain.map (Frame.predicted · state.frame.origin)).reverse ++ state.ancestors) := by
  cases taken with
  | predict waits fresh alternative => exact .inl ⟨rfl,rfl⟩
  | close finished below => exact .inr ⟨finished,.inl ⟨_,below,rfl⟩⟩
  | grow finished below recorded allowed => exact .inr ⟨finished,.inr ⟨_,_,recorded,rfl,rfl⟩⟩

/-- A reached state with a parent that has matched nothing has no second frame of its nonterminal that
    was predicted with the parent. -/
theorem Reached.not_outside {state : State} {parent : Frame} {ancestors : List Frame}
    (reached : Reached grammar tokens count state) (below : state.ancestors = parent :: ancestors)
    (unmatched : parent.matched = []) : (parent.origin,state.frame.name) ∉ keys (parent :: ancestors) := by
  obtain ⟨-,derivation⟩ := reached.partialDerivation
  have distinct := reached.distinct
  generalize tokens.take count = read at derivation
  rw [below] at derivation distinct
  cases derivation with
  | push outer waits valid placed =>
    have same := outer.placed
    rw [Frame.tokens,unmatched] at same
    simp only [List.reverse_nil,Tree.forestTokens,List.length_nil,Nat.add_zero] at same
    rw [same,← placed]
    exact (List.nodup_cons.mp distinct).1

/-- Two reached states whose parents go on alike with their trees are the same. -/
theorem eq_of_closed (once : grammar.rules.Nodup) {first second : State} {parent parent' : Frame}
    {ancestors : List Frame} (reached : Reached grammar tokens count first)
    (reached' : Reached grammar tokens count second) (finished : first.frame.rest = [])
    (finished' : second.frame.rest = []) (below : first.ancestors = parent :: ancestors)
    (below' : second.ancestors = parent' :: ancestors)
    (same : parent.advance first.frame.tree = parent'.advance second.frame.tree) : first = second := by
  obtain ⟨trees,matched,production,origin,rest⟩ := advance_inj same
  refine eq_of_finished once reached reached' finished finished' trees ?_
  obtain ⟨tail,waits⟩ := reached.awaited below
  obtain ⟨tail',waits'⟩ := reached'.awaited below'
  rw [waits,waits',List.tail_cons,List.tail_cons] at rest
  rw [below,below']
  cases parent
  cases parent'
  simp_all [name_eq_of_tree trees]

/-- A frame that is closed inside the first production of a cycle cannot have been grown by the cycle. -/
theorem not_closed_and_grown {first second : State} {parent : Frame} {ancestors : List Frame}
    {chain : List Production} {last : Production} (reached : Reached grammar tokens count first)
    (below : first.ancestors = parent :: ancestors)
    (recorded : chain ++ [last] ∈ grammar.cycles second.frame.name)
    (frame : parent.advance first.frame.tree = (Frame.predicted last second.frame.origin).advance second.frame.tree)
    (outer : ancestors = (chain.map (Frame.predicted · second.frame.origin)).reverse ++ second.ancestors) : False := by
  obtain ⟨trees,unmatched,-,origin,-⟩ := advance_inj frame
  have key := key_grown recorded second.frame.origin second.frame.tree second.ancestors
  rw [← frame,← outer,← name_eq_of_tree trees,← show parent.origin = second.frame.origin from origin] at key
  exact reached.not_outside below unmatched (List.mem_of_getElem? key)

/-- Two reached states that grow into the same state are the same: both cycles begin at its one frame
    with the nonterminal and the place of the finished frame, so they are equally long. -/
theorem eq_of_grown (once : grammar.rules.Nodup) {first second next : State} {chain chain' : List Production}
    {last last' : Production} (reached : Reached grammar tokens count first)
    (reached' : Reached grammar tokens count second) (distinct : Distinct (next.frame :: next.ancestors))
    (finished : first.frame.rest = []) (finished' : second.frame.rest = [])
    (recorded : chain ++ [last] ∈ grammar.cycles first.frame.name)
    (recorded' : chain' ++ [last'] ∈ grammar.cycles second.frame.name)
    (frame : next.frame = (Frame.predicted last first.frame.origin).advance first.frame.tree)
    (frame' : next.frame = (Frame.predicted last' second.frame.origin).advance second.frame.tree)
    (outer : next.ancestors = (chain.map (Frame.predicted · first.frame.origin)).reverse ++ first.ancestors)
    (outer' : next.ancestors = (chain'.map (Frame.predicted · second.frame.origin)).reverse ++ second.ancestors) :
    first = second := by
  obtain ⟨trees,-,-,origin,-⟩ := advance_inj (frame.symm.trans frame')
  have key := key_grown recorded first.frame.origin first.frame.tree first.ancestors
  have key' := key_grown recorded' second.frame.origin second.frame.tree second.ancestors
  rw [← frame,← outer,name_eq_of_tree trees,show first.frame.origin = second.frame.origin from origin] at key
  rw [← frame',← outer'] at key'
  have inside := (List.getElem?_eq_some_iff.mp key).1
  have lengths : chain.length = chain'.length := (List.getElem?_inj inside distinct).mp (key.trans key'.symm)
  refine eq_of_finished once reached reached' finished finished' trees ?_
  exact (List.append_inj (outer.symm.trans outer') (by simpa using lengths)).2

/-- With distinct rules, at most one reached state leads to a given one before the same token. -/
theorem Step.predecessor (once : grammar.rules.Nodup) {first second next : State}
    (reached : Reached grammar tokens count first) (reached' : Reached grammar tokens count second)
    (taken : Step grammar count first next) (taken' : Step grammar count second next) : first = second := by
  rcases taken.arrival with ⟨fresh,outer⟩ | ⟨finished,⟨parent,below,frame⟩ | ⟨chain,last,recorded,frame,outer⟩⟩
  · rcases taken'.arrival with ⟨-,outer'⟩ | ⟨-,⟨_,-,frame'⟩ | ⟨_,_,-,frame',-⟩⟩
    · rw [outer,List.cons.injEq] at outer'
      cases first
      cases second
      simp_all
    · simp [frame',Frame.advance] at fresh
    · simp [frame',Frame.advance] at fresh
  · rcases taken'.arrival with ⟨fresh,-⟩ | ⟨finished',⟨parent',below',frame'⟩ | ⟨chain,last,recorded,frame',outer'⟩⟩
    · simp [frame,Frame.advance] at fresh
    · exact eq_of_closed once reached reached' finished finished' below below' (frame.symm.trans frame')
    · exact (not_closed_and_grown reached below recorded (frame.symm.trans frame') outer').elim
  · rcases taken'.arrival with ⟨fresh,-⟩ | ⟨finished',⟨parent,below',frame'⟩ | ⟨chain',last',recorded',frame',outer'⟩⟩
    · simp [frame,Frame.advance] at fresh
    · exact (not_closed_and_grown reached' below' recorded (frame'.symm.trans frame) outer).elim
    · exact eq_of_grown once reached reached' (reached.step taken).distinct finished finished' recorded recorded'
        frame frame' outer outer'

end Parser

end CFrontend
