import CFrontend.Proofs.LeftCorner
import CFrontend.Proofs.Soundness
import Mathlib

/-!
The parser is complete for followable grammars: it finds every derivation tree. Consider the nodes of a
tree that begin at one token, each the first child of the one before. Where a nonterminal occurs
among them again, the parser has cut the prediction, and the state that stands for the path has
the loop removed: `unwound` keeps of a path the part before the nonterminal occurs. When
the node is finished, the loop is put back by growing the cycle that was removed, so each
node of the path in turn is finished on the frames of its own path (`spine_reached`).
-/
namespace CFrontend.Parser
open Grammar (Cycle LeftChain LeftCorner Followable SimpleCycle)
open Relation (ReflTransGen TransGen)

variable {grammar : Grammar} {tokens : List Token}

/-! ### Predictions and growth without loops -/

private theorem not_isLooped {state : State} {name : String} {current : Nat}
    (apart : ∀ frame ∈ state.frame :: state.ancestors, frame.origin = current → frame.name ≠ name) :
    state.isLooped name current = false := by
  rw [State.isLooped,List.any_eq_false]
  intro frame seen named
  have recent : frame.origin = current := by simpa using List.mem_takeWhile_imp seen
  exact apart frame ((List.takeWhile_sublist _).mem seen) recent (by simpa using named)

private theorem mayGrow_of_apart {state : State} {cycle : Cycle}
    (apart : ∀ frame ∈ state.ancestors, frame.origin = state.frame.origin → ∀ step ∈ cycle,
      step.rule.lhs ≠ frame.name) : state.mayGrow cycle = true := by
  rw [State.mayGrow,Bool.not_eq_true',List.any_eq_false]
  intro frame seen shared
  have recent : frame.origin = state.frame.origin := by simpa using List.mem_takeWhile_imp seen
  obtain ⟨step,inside,same⟩ := List.any_eq_true.mp shared
  exact apart frame ((List.takeWhile_sublist _).mem seen) recent step inside (by simpa using same)

/-! ### Paths of first children -/

/-- A reached state that waits for a nonterminal at a token, with none of its frames from that token
    among the left corners of the nonterminal. -/
structure Ready (grammar : Grammar) (tokens : List Token) (count : Nat) (state : State) (name : String) : Prop where
  reached : Reached grammar tokens count state
  waits : ∃ tail, state.frame.rest = .nonterminal name :: tail
  earlier : ∀ frame ∈ state.frame :: state.ancestors, frame.origin ≤ count
  above : ∀ frame ∈ state.frame :: state.ancestors, frame.origin = count →
    ReflTransGen grammar.LeftCorner frame.name name
  apart : ∀ frame ∈ state.frame :: state.ancestors, frame.origin = count →
    ¬ ReflTransGen grammar.LeftCorner name frame.name

/-- The frames of a path of productions, outermost first, on top of the frames of a state. -/
def stacked (count : Nat) (path : List Production) (state : State) : List Frame :=
  (path.map (Frame.predicted · count)).reverse ++ state.frame :: state.ancestors

private theorem stacked_append (count : Nat) (front back : List Production) (state : State) :
    stacked count (front ++ back) state =
      (back.map (Frame.predicted · count)).reverse ++ stacked count front state := by
  simp [stacked]

private theorem mem_stacked_iff (count : Nat) (path : List Production) (state : State) (frame : Frame) :
    frame ∈ stacked count path state ↔
      (∃ production ∈ path, frame = .predicted production count) ∨ frame ∈ state.frame :: state.ancestors := by
  simp [stacked,eq_comm]

/-- A path from the awaited nonterminal whose nonterminals are distinct. -/
structure Path (grammar : Grammar) (source : String) (path : List Production) (target : String) : Prop where
  linked : LeftChain grammar source path target
  distinct : (path.map (·.rule.lhs)).Nodup

/-- The part of a path before a nonterminal occurs on it. -/
def unwound (name : String) (path : List Production) : List Production :=
  path.takeWhile fun production => production.rule.lhs != name

private theorem unwound_split (name : String) (path : List Production) :
    (name ∉ path.map (·.rule.lhs) ∧ unwound name path = path) ∨
      ∃ first rest, path = unwound name path ++ first :: rest ∧ first.rule.lhs = name := by
  induction path with
  | nil => exact .inl ⟨by simp,rfl⟩
  | cons production rest ih =>
    by_cases same : production.rule.lhs = name
    · exact .inr ⟨production,rest,by simp [unwound,same],same⟩
    · have kept : unwound name (production :: rest) = production :: unwound name rest := by
        simp [unwound,same]
      rw [kept]
      rcases ih with ⟨absent,whole⟩ | ⟨first,more,split,named⟩
      · refine .inl ⟨?_,by rw [whole]⟩
        rw [List.map_cons,List.mem_cons,not_or]
        exact ⟨Ne.symm same,absent⟩
      · exact .inr ⟨first,more,by rw [List.cons_append,← split],named⟩

private theorem not_mem_unwound (name : String) (path : List Production) :
    name ∉ (unwound name path).map (·.rule.lhs) := by
  intro again
  obtain ⟨production,member,same⟩ := List.mem_map.mp again
  have other := List.mem_takeWhile_imp member
  simp [same] at other

/-- What is kept of a path still leads to the nonterminal. -/
theorem Path.unwind {source target : String} {path : List Production} (own : Path grammar source path target) :
    Path grammar source (unwound target path) target := by
  refine ⟨?_,own.distinct.sublist ((List.takeWhile_sublist _).map _)⟩
  rcases unwound_split target path with ⟨-,whole⟩ | ⟨first,rest,split,named⟩
  · rw [whole]; exact own.linked
  · have linked := own.linked
    rw [split] at linked
    obtain ⟨middle,before,after⟩ := (Grammar.leftChain_append_iff _ _ _ _).mp linked
    obtain rfl : target = middle := named.symm.trans after.head_lhs
    exact before

theorem Path.extend {source name next : String} {path : List Production} {production : Production}
    (own : Path grammar source path name) (alternative : production ∈ grammar.alternatives name)
    (first : production.rule.rhs.head? = some (.nonterminal next)) :
    Path grammar source (unwound name path ++ [production]) next := by
  refine ⟨(Grammar.leftChain_append_iff _ _ _ _).mpr ⟨name,own.unwind.linked,.single alternative first⟩,?_⟩
  rw [List.map_append,List.nodup_append]
  refine ⟨own.unwind.distinct,by simp,?_⟩
  intro kept inside other last same
  rw [List.map_singleton,List.mem_singleton,Grammar.lhs_of_mem_alternatives alternative] at last
  rw [same,last] at inside
  exact not_mem_unwound name path inside

/-- A path without its nonterminal again can be predicted, production by production. -/
theorem Ready.predicted {count : Nat} {state : State} {source : String} (ready : Ready grammar tokens count state source)
    (path : List Production) {target : String} {production : Production} (own : Path grammar source path target)
    (alternative : production ∈ grammar.alternatives target) (fresh : target ∉ path.map (·.rule.lhs)) :
    Reached grammar tokens count ⟨.predicted production count,stacked count path state⟩ := by
  induction path using List.reverseRecOn generalizing target production with
  | nil =>
    have here := own.linked
    cases here
    obtain ⟨tail,waits⟩ := ready.waits
    refine ready.reached.step (.predict waits (not_isLooped fun frame member recent named => ?_) alternative)
    exact ready.apart frame member recent (named ▸ .refl)
  | append_singleton front last ih =>
    have distinct := own.distinct
    rw [List.map_append,List.nodup_append] at distinct
    obtain ⟨middle,before,after⟩ := (Grammar.leftChain_append_iff _ _ _ _).mp own.linked
    cases after with
    | cons lastAlternative first none =>
      cases none
      have inner : last.rule.lhs = middle := Grammar.lhs_of_mem_alternatives lastAlternative
      have below := ih ⟨before,distinct.1⟩ lastAlternative fun member => by
        refine distinct.2.2 middle member middle ?_ rfl
        simp [inner]
      obtain ⟨tail,rhs⟩ := List.head?_eq_some_iff.mp first
      have looped : State.isLooped ⟨.predicted last count,stacked count front state⟩ target count = false := by
        apply not_isLooped
        intro frame member recent named
        have inside : frame ∈ stacked count (front ++ [last]) state := by
          rw [stacked_append]; exact member
        rcases (mem_stacked_iff count _ state frame).mp inside with ⟨step,onPath,rfl⟩ | outside
        · exact fresh (List.mem_map.mpr ⟨step,onPath,named⟩)
        · exact ready.apart frame outside recent (named ▸ own.linked.corners)
      have next := below.step (.predict rhs looped alternative)
      rw [stacked_append]
      exact next

/-- When a node is finished, the production before it on its path goes on with it: either that
    production waits for it, or the part of the path that was unwound is grown back. -/
theorem Ready.resume {count finish : Nat} {state : State} {source next : String} {front : List Production}
    {production : Production} {frame : Frame} (followable : Followable grammar)
    (ready : Ready grammar tokens count state source) (own : Path grammar source (front ++ [production]) next)
    (done : frame.rest = []) (named : frame.name = next) (placed : frame.origin = count)
    (reached : Reached grammar tokens finish ⟨frame,stacked count (unwound next (front ++ [production])) state⟩) :
    Reached grammar tokens finish
      ⟨(Frame.predicted production count).advance frame.tree,stacked count front state⟩ := by
  rcases unwound_split next (front ++ [production]) with ⟨-,whole⟩ | ⟨first,rest,split,again⟩
  · rw [whole,stacked_append] at reached
    exact reached.step (.close done rfl)
  · generalize unwound next (front ++ [production]) = kept at split reached
    obtain ⟨chain,last,cycle⟩ := (List.eq_nil_or_concat (first :: rest)).resolve_left (by simp)
    rw [List.concat_eq_append] at cycle
    rw [split] at own
    obtain ⟨rfl,ends⟩ := List.append_inj' ((split.trans (by rw [cycle])).trans (List.append_assoc kept chain [last]).symm) rfl
    obtain rfl : production = last := by simpa using ends
    obtain ⟨middle,before,after⟩ := (Grammar.leftChain_append_iff _ _ _ _).mp own.linked
    obtain rfl : next = middle := again.symm.trans after.head_lhs
    have names := own.distinct
    rw [List.map_append,List.nodup_append] at names
    rw [cycle] at after names
    have recorded : chain ++ [production] ∈ grammar.cycles frame.name :=
      named ▸ followable.mem_cycles ⟨by simp,after,names.2.1⟩
    have allowed : State.mayGrow ⟨frame,stacked count kept state⟩ (chain ++ [production]) = true := by
      apply mayGrow_of_apart
      intro outer member recent step inside same
      rcases (mem_stacked_iff count kept state outer).mp member with ⟨earlier,onPath,rfl⟩ | outside
      · exact names.2.2 _ (List.mem_map_of_mem onPath) _ (List.mem_map_of_mem inside) same.symm
      · refine ready.apart outer outside (recent.trans placed) ?_
        rw [← same]
        exact before.corners.trans (after.corners_through inside).1
    obtain ⟨parent,ancestors,below⟩ := List.exists_cons_of_ne_nil
      (show stacked count kept state ≠ [] by simp [stacked])
    have grown := reached.step (.grow done below recorded allowed)
    rw [stacked_append,← placed]
    rw [← placed] at grown
    exact grown

/-! ### Later children -/

/-- A state whose innermost frame has matched some symbols, or is not its own left corner. Its frames
    from the current token, if any, have the innermost one as a left corner. -/
structure Underway (grammar : Grammar) (count : Nat) (state : State) : Prop where
  rule : state.frame.production.rule ∈ grammar.rules
  started : ∃ done, state.frame.production.rule.rhs = done ++ state.frame.rest ∧
    (done ≠ [] ∨ ¬ TransGen grammar.LeftCorner state.frame.name state.frame.name) ∧
    (state.frame.origin = count → ∀ symbol ∈ done, grammar.Nullable symbol)
  latest : state.frame.origin ≤ count
  inner : ∀ frame ∈ state.ancestors, frame.origin ≤ state.frame.origin
  above : ∀ frame ∈ state.ancestors, frame.origin = count →
    ReflTransGen grammar.LeftCorner frame.name state.frame.name

/-- The next nonterminal of a state under way has no left corner among the frames from the current
    token: that would be recursion behind a nullable prefix. -/
theorem Underway.ready {count : Nat} {state : State} {name : String} {tail : List Symbol}
    (followable : Followable grammar) (underway : Underway grammar count state)
    (reached : Reached grammar tokens count state) (waits : state.frame.rest = .nonterminal name :: tail) :
    Ready grammar tokens count state name := by
  obtain ⟨done,rhs,started,nullable⟩ := underway.started
  rw [waits] at rhs
  have corner : state.frame.origin = count → grammar.LeftCorner state.frame.name name := fun here =>
    ⟨state.frame.production.rule,underway.rule,rfl,done,tail,rhs,nullable here⟩
  have onward : ∀ frame ∈ state.frame :: state.ancestors, frame.origin = count →
      state.frame.origin = count ∧ ReflTransGen grammar.LeftCorner frame.name state.frame.name := by
    intro frame member recent
    rcases List.mem_cons.mp member with rfl | outside
    · exact ⟨recent,.refl⟩
    · have := underway.inner frame outside
      have := underway.latest
      exact ⟨by omega,underway.above frame outside recent⟩
  refine ⟨reached,⟨tail,waits⟩,?_,?_,?_⟩
  · intro frame member
    have := underway.latest
    rcases List.mem_cons.mp member with rfl | outside
    · exact this
    · have := underway.inner frame outside
      omega
  · intro frame member recent
    obtain ⟨here,corners⟩ := onward frame member recent
    exact corners.tail (corner here)
  · intro frame member recent back
    obtain ⟨here,corners⟩ := onward frame member recent
    rcases started with some | nonrecursive
    · exact followable.unhidden _ underway.rule done name tail rhs some (nullable here) (back.trans corners)
    · exact nonrecursive (TransGen.head' (corner here) (back.trans corners))

theorem Underway.advance {count : Nat} {state : State} {symbol : Symbol} {tail : List Symbol} {tree : Tree}
    (underway : Underway grammar count state) (next : state.frame.rest = symbol :: tail)
    (derived : grammar.Derives symbol tree) :
    Underway grammar (count + tree.tokens.length) (state.advance tree) := by
  obtain ⟨done,rhs,started,nullable⟩ := underway.started
  have latest : state.frame.origin ≤ count := underway.latest
  refine ⟨underway.rule,⟨done ++ [symbol],?_,.inl (by simp),?_⟩,?_,underway.inner,?_⟩
  · simp [State.advance,Frame.advance,next,rhs]
  · intro recent other member
    have recent : state.frame.origin = count + tree.tokens.length := recent
    have empty : tree.tokens = [] := List.length_eq_zero_iff.mp (by omega)
    rcases List.mem_append.mp member with before | last
    · exact nullable (by omega) other before
    · exact List.mem_singleton.mp last ▸ ⟨tree,derived,empty⟩
  · exact Nat.le_trans latest (Nat.le_add_right _ _)
  · intro frame member recent
    have := underway.inner frame member
    exact underway.above frame member (by omega)

/-- The first child of a predicted production puts it under way. -/
theorem Ready.started {count : Nat} {state : State} {source name : String} {path : List Production}
    {production : Production} {symbol : Symbol} {tail : List Symbol} {tree : Tree}
    (ready : Ready grammar tokens count state source) (own : Path grammar source path name)
    (alternative : production ∈ grammar.alternatives name) (rhs : production.rule.rhs = symbol :: tail)
    (derived : grammar.Derives symbol tree) :
    Underway grammar (count + tree.tokens.length)
      ⟨(Frame.predicted production count).advance tree,stacked count path state⟩ := by
  refine ⟨Grammar.rule_of_mem_alternatives alternative,⟨[symbol],?_,.inl (by simp),?_⟩,?_,?_,?_⟩
  · simp [Frame.advance,Frame.predicted,rhs]
  · intro recent other member
    have recent : count = count + tree.tokens.length := recent
    exact List.mem_singleton.mp member ▸ ⟨tree,derived,List.length_eq_zero_iff.mp (by omega)⟩
  · exact Nat.le_add_right _ _
  · intro frame member
    rcases (mem_stacked_iff count path state frame).mp member with ⟨step,-,rfl⟩ | outside
    · exact Nat.le_refl _
    · exact ready.earlier frame outside
  · intro frame member recent
    have named : (Frame.predicted production count).name = name := name_predicted alternative count
    rw [name_advance,named]
    rcases (mem_stacked_iff count path state frame).mp member with ⟨step,onPath,rfl⟩ | outside
    · exact (own.linked.corners_through onPath).2
    · have := ready.earlier frame outside
      exact (ready.above frame outside (by omega)).trans own.linked.corners

/-! ### Trees -/

private theorem foldl_advance (trees : List Tree) (frame : Frame) :
    trees.foldl Frame.advance frame =
      { frame with matched := trees.reverse ++ frame.matched,rest := frame.rest.drop trees.length } := by
  induction trees generalizing frame with
  | nil => simp
  | cons tree rest ih => rw [List.foldl_cons,ih]; simp [Frame.advance]

private theorem begins_append {first second : List Token} {count : Nat} (here : first ++ second <+: tokens.drop count) :
    first <+: tokens.drop count ∧ second <+: tokens.drop (count + first.length) := by
  obtain ⟨after,split⟩ := here
  rw [← List.drop_drop,← split]
  exact ⟨⟨second ++ after,by simp⟩,⟨after,by simp⟩⟩

private theorem token_of_begins {token : Token} {count : Nat} (here : [token] <+: tokens.drop count) :
    tokens[count]? = some token := by
  obtain ⟨after,split⟩ := here
  rw [← List.head?_drop,← split]
  rfl

mutual

/-- A tree of the nonterminal at the end of a path is finished on the frames of the unwound path. -/
theorem spine_reached (followable : Followable grammar) : (tree : Tree) →
    ∀ {count : Nat} {state : State} {source name : String} {path : List Production},
      Ready grammar tokens count state source → Path grammar source path name →
      grammar.Derives (.nonterminal name) tree → tree.tokens <+: tokens.drop count →
      ∃ frame, frame.rest = [] ∧ frame.tree = tree ∧ frame.name = name ∧ frame.origin = count ∧
        Reached grammar tokens (count + tree.tokens.length) ⟨frame,stacked count (unwound name path) state⟩
  | .leaf _, _, _, _, _, _, _, _, derived, _ => by simp [Grammar.Derives] at derived
  | .branch label [], count, state, source, name, path, ready, own, derived, _ => by
    obtain ⟨rfl,rule,member,lhs,below⟩ := derived
    obtain ⟨production,alternative,rfl⟩ := Grammar.exists_alternative member
    rw [lhs] at alternative
    have predicted := ready.predicted _ own.unwind alternative (not_mem_unwound label path)
    have empty : production.rule.rhs = [] := by
      cases rhs : production.rule.rhs with
      | nil => rfl
      | cons symbol rest => simp [rhs,Grammar.DerivesAll] at below
    refine ⟨.predicted production count,empty,?_,name_predicted alternative count,rfl,predicted⟩
    rw [Frame.tree,name_predicted alternative]
    rfl
  | .branch label (first :: rest), count, state, source, name, path, ready, own, derived, here => by
    obtain ⟨rfl,rule,member,lhs,below⟩ := derived
    obtain ⟨production,alternative,rfl⟩ := Grammar.exists_alternative member
    rw [lhs] at alternative
    obtain ⟨symbol,tail,rhs,onFirst,others⟩ := (Grammar.derivesAll_tree_cons_iff _ first rest).mp below
    obtain ⟨now,later⟩ := begins_append here
    -- The first child is reached on the frames of the extended path, or scanned.
    have started : Reached grammar tokens (count + first.tokens.length)
        ⟨(Frame.predicted production count).advance first,stacked count (unwound label path) state⟩ := by
      cases symbol with
      | nonterminal next =>
        have extended := own.extend alternative (by rw [rhs]; rfl : production.rule.rhs.head? = some (.nonterminal next))
        obtain ⟨frame,done,rfl,named,placed,reached⟩ := spine_reached followable first ready extended onFirst now
        exact ready.resume followable extended done named placed reached
      | terminal kind =>
        obtain ⟨token,rfl,rfl⟩ := (Grammar.derives_terminal_iff kind first).mp onFirst
        have predicted := ready.predicted _ own.unwind alternative (not_mem_unwound label path)
        exact predicted.scan ⟨tail,rhs⟩ (token_of_begins now)
    have underway := ready.started own.unwind alternative rhs onFirst
    have finished := forest_reached followable rest underway started
      (by simpa [Frame.advance,Frame.predicted,rhs] using others) later
    have lengths : tail.length = rest.length := ((Grammar.derivesAll_iff_forall _ _).mp others).length_eq
    refine ⟨_,?_,?_,?_,?_,by simpa [Tree.tokens,Tree.forestTokens,Nat.add_assoc] using finished⟩
    · simp [foldl_advance,Frame.advance,Frame.predicted,rhs,lengths]
    · simp [foldl_advance,Frame.tree,Frame.advance,Frame.predicted,Frame.name,Grammar.lhs_of_mem_alternatives alternative]
    · rw [foldl_advance]; exact name_predicted alternative count
    · rw [foldl_advance]; rfl

/-- The children after the first are matched one after another. -/
theorem forest_reached (followable : Followable grammar) : (trees : List Tree) →
    ∀ {count : Nat} {state : State}, Underway grammar count state → Reached grammar tokens count state →
      grammar.DerivesAll state.frame.rest trees → Tree.forestTokens trees <+: tokens.drop count →
      Reached grammar tokens (count + (Tree.forestTokens trees).length)
        ⟨trees.foldl Frame.advance state.frame,state.ancestors⟩
  | [], count, state, _, reached, _, _ => reached
  | tree :: rest, count, state, underway, reached, derived, here => by
    obtain ⟨symbol,tail,next,own,others⟩ := (Grammar.derivesAll_tree_cons_iff _ tree rest).mp derived
    obtain ⟨now,later⟩ := begins_append here
    have advanced : Reached grammar tokens (count + tree.tokens.length) (state.advance tree) := by
      cases symbol with
      | nonterminal name =>
        have ready := underway.ready followable reached next
        obtain ⟨frame,done,rfl,-,-,finished⟩ :=
          spine_reached followable tree ready ⟨.nil name,List.nodup_nil⟩ own now
        exact finished.step (.close done rfl)
      | terminal kind =>
        obtain ⟨token,rfl,rfl⟩ := (Grammar.derives_terminal_iff kind tree).mp own
        exact reached.scan ⟨tail,next⟩ (token_of_begins now)
    have finished := forest_reached followable rest (underway.advance next own) advanced
      (by simpa [State.advance,Frame.advance,next] using others) later
    simpa [Tree.forestTokens,Nat.add_assoc,State.advance] using finished

end

/-- Every derivation of the tokens from the start symbol is found. -/
theorem derivation_found (followable : Followable grammar) {tree : Tree}
    (derivation : grammar.DerivationOf tokens tree) : Found grammar tokens tree := by
  obtain ⟨derived,leaves⟩ := derivation
  obtain ⟨rule,member,lhs,children,rfl,below⟩ := (Grammar.derives_nonterminal_iff grammar.start tree).mp derived
  obtain ⟨production,alternative,rfl⟩ := Grammar.exists_alternative member
  rw [lhs] at alternative
  have underway : Underway grammar 0 (.root production) :=
    ⟨member,⟨[],rfl,.inr (by rw [State.root,name_predicted alternative]; exact followable.startFree),by simp⟩,
      Nat.le_refl 0,by simp [State.root],by simp [State.root]⟩
  have whole : Tree.forestTokens children <+: tokens.drop 0 := by
    rw [List.drop_zero,← leaves]; exact List.prefix_rfl
  have finished := forest_reached followable children underway (.start alternative) below whole
  have lengths : production.rule.rhs.length = children.length :=
    ((Grammar.derivesAll_iff_forall _ _).mp below).length_eq
  rw [Nat.zero_add,show Tree.forestTokens children = tokens from leaves] at finished
  refine ⟨_,finished,?_,rfl,?_⟩
  · simp [foldl_advance,State.root,Frame.predicted,lengths]
  · simp [foldl_advance,State.root,Frame.predicted,Frame.tree,Frame.name,lhs]

/-! ### Outcomes -/

/-- The trees of the last pass are the derivations of the tokens; a token is rejected only when there are none. -/
theorem parse_derivations (followable : Followable grammar) {options : Options} {pos : Position}
    (within : ∀ limit place, parse grammar options ⟨tokens,.finished pos⟩ ≠ .error (.stateLimit limit place)) :
    (∃ result, lastPass (Table.of grammar) options.maxStates pos 0 (initial grammar) tokens = .ok result ∧
      parse grammar options ⟨tokens,.finished pos⟩ = settle options.ambiguity pos result ∧
      ∀ tree, tree ∈ result.complete ↔ grammar.DerivationOf tokens tree) ∨
    ∃ token expected canEnd, parse grammar options ⟨tokens,.finished pos⟩ =
      .error (.unexpected token expected canEnd) ∧ ∀ tree, ¬ grammar.DerivationOf tokens tree := by
  have found_iff : ∀ tree, Found grammar tokens tree ↔ grammar.DerivationOf tokens tree := fun tree =>
    ⟨found_derivation,derivation_found followable⟩
  simp only [← found_iff]
  rcases parse_cases grammar options tokens pos with passed | rejected | ⟨limit,place,limited⟩
  · exact .inl passed
  · exact .inr rejected
  · exact absurd limited (within limit place)

/-- For a followable grammar, every derivation of the tokens is among the trees of the last pass. When
    ambiguity is an error, the outcome is a tree, an ambiguity, or a missing or unexpected token,
    according to whether there is one derivation, several, or none. The grammar of C is followable. -/
theorem parse_complete :
    (∀ (grammar : Grammar) (options : Options) (tokens : List Token) (pos : Position), Followable grammar →
      (∀ token ∈ tokens, token.NoNaN) →
      (∀ limit place, parse grammar options ⟨tokens,.finished pos⟩ ≠ .error (.stateLimit limit place)) →
      (∀ tree, grammar.DerivationOf tokens tree →
        ∃ result, lastPass (Table.of grammar) options.maxStates pos 0 (initial grammar) tokens = .ok result ∧
          parse grammar options ⟨tokens,.finished pos⟩ = settle options.ambiguity pos result ∧
          tree ∈ result.complete) ∧
      (options.ambiguity = .error →
        (∀ tree, parse grammar options ⟨tokens,.finished pos⟩ = .ok tree ↔
          grammar.DerivationOf tokens tree ∧ ∀ other, grammar.DerivationOf tokens other → other = tree) ∧
        ((∃ trees, parse grammar options ⟨tokens,.finished pos⟩ = .error (.ambiguous trees)) ↔
          ∃ first second, grammar.DerivationOf tokens first ∧ grammar.DerivationOf tokens second ∧ first ≠ second) ∧
        ((∃ token expected canEnd, parse grammar options ⟨tokens,.finished pos⟩ =
            .error (.unexpected token expected canEnd)) ∨
          (∃ expected, parse grammar options ⟨tokens,.finished pos⟩ = .error (.incomplete pos expected)) ↔
          ∀ tree, ¬ grammar.DerivationOf tokens tree))) ∧
    Followable CLanguage.grammar := by
  refine ⟨fun grammar options tokens pos followable numbers within => ?_,CLanguage.followable⟩
  rcases parse_derivations followable within with ⟨result,passed,settled,members⟩ | ⟨token,expected,canEnd,rejected,none⟩
  · have exact : Exact result.complete := exact_of_tokens numbers fun tree member => ((members tree).mp member).2
    refine ⟨fun tree derivation => ⟨result,passed,settled,(members tree).mpr derivation⟩,fun policy => ?_⟩
    obtain ⟨one,several,missing⟩ := settle_error_iff pos exact
    rw [settled,policy]
    refine ⟨fun tree => ?_,?_,?_⟩
    · simp only [one,members]
    · simp only [several,members,exists_and_left]
    · have accepted : ¬ ∃ token expected canEnd, settle .error pos result = .error (.unexpected token expected canEnd) := by
        rcases settle_cases .error pos result with ⟨_,kind⟩ | ⟨_,kind⟩ | ⟨_,kind⟩ <;> simp [kind]
      simp only [accepted,false_or,missing,List.eq_nil_iff_forall_not_mem,members]
  · refine ⟨fun tree derivation => absurd derivation (none tree),fun _ => ?_⟩
    rw [rejected]
    refine ⟨fun tree => ?_,?_,?_⟩
    · simp [none]
    · simp [none]
    · simp [none]

/-- Signs behind an identifier; the left recursion of `A`, `B` and `C` interlocks. -/
def interlocked : Grammar :=
  ⟨"S",[⟨"S",[.nonterminal "A"]⟩,⟨"A",[.nonterminal "B",.terminal .plus]⟩,⟨"A",[.terminal .identifier]⟩,
    ⟨"B",[.nonterminal "A",.terminal .minus]⟩,⟨"B",[.nonterminal "C"]⟩,⟨"C",[.nonterminal "B",.terminal .star]⟩,
    ⟨"C",[.nonterminal "A",.terminal .slash]⟩],by decide +kernel⟩

theorem followable_interlocked : Followable interlocked :=
  Grammar.followable_of_checks (fun name => if name = "S" ∨ name = "B" then 1 else 0)
    (by decide +kernel) (by decide +kernel) (by decide +kernel)

/-- The derivation of a minus sign, a star and a plus sign behind an identifier. -/
def signed : Tree :=
  .branch "S" [.branch "A" [.branch "B" [.branch "C" [.branch "B" [.branch "A" [.leaf (.bare .identifier)],
    .leaf (.bare .minus)],.leaf (.bare .star)]],.leaf (.bare .plus)]]

/-- The signs have no other derivation, and a star alone has none. -/
theorem parse_complete_interlocked :
    (interlocked.DerivationOf ([.identifier,.minus,.star,.plus].map Token.bare) signed ∧
      ∀ tree, interlocked.DerivationOf ([.identifier,.minus,.star,.plus].map Token.bare) tree → tree = signed) ∧
    ∀ tree, ¬ interlocked.DerivationOf ([.identifier,.star].map Token.bare) tree := by
  have one : parse interlocked {} ⟨[.identifier,.minus,.star,.plus].map Token.bare,.finished .origin⟩ = .ok signed := by
    cbv
  have none : parse interlocked {} ⟨[.identifier,.star].map Token.bare,.finished .origin⟩ =
      .error (.unexpected (.bare .star) [.minus,.slash] true) := by
    cbv
  have first := parse_complete.1 interlocked {} ([.identifier,.minus,.star,.plus].map Token.bare) .origin
    followable_interlocked (by decide) (by rw [one]; simp)
  have second := parse_complete.1 interlocked {} ([.identifier,.star].map Token.bare) .origin
    followable_interlocked (by decide) (by rw [none]; simp)
  exact ⟨((first.2 rfl).1 signed).mp one,(second.2 rfl).2.2.mp (.inl ⟨_,_,_,none⟩)⟩

end CFrontend.Parser
