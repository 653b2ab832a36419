import CFrontend.Proofs.ArenaHistory
import CFrontend.Proofs.StoredParse
import CFrontend.Proofs.Termination

/-!
What an arena stores while it grows. Every stored state is, with the states above it, a partial derivation of some of
the tokens read so far, in which no nonterminal is predicted twice at one token (`Grounded`), and every node unfolds to
a tree. This holds after each single entry that an operation stores (`Builds`): also in the middle of a
grown cycle, whose states are those above the state that the cycle ends with.
-/
namespace CFrontend.Parser
open Grammar (Cycle)

variable {grammar : Grammar}

/-! ### Frames -/

/-- The frames are a partial derivation of at most so many tokens, and no two were predicted at one token for one
    nonterminal. -/
structure Grounded (grammar : Grammar) (count : Nat) (frames : List Frame) : Prop where
  derivation : ∃ read, PartialDerivation grammar frames read ∧ read.length ≤ count
  distinct : Distinct frames

/-- The frames outside some of a partial derivation are one as well. -/
theorem PartialDerivation.outer {inner frames : List Frame} {read : List Token} (some : frames ≠ [])
    (derivation : PartialDerivation grammar (inner ++ frames) read) :
    ∃ before, PartialDerivation grammar frames before ∧ before.length ≤ read.length := by
  induction inner generalizing read with
  | nil => exact ⟨read,derivation,Nat.le_refl _⟩
  | cons frame inner ih =>
    rw [List.cons_append] at derivation
    generalize whole : inner ++ frames = outer at derivation
    cases derivation with
    | root => simp_all
    | push below =>
      obtain ⟨before,outside,less⟩ := ih (whole ▸ below)
      exact ⟨before,outside,by rw [List.length_append]; omega⟩

theorem Grounded.outer {count : Nat} {inner frames : List Frame} (some : frames ≠ [])
    (grounded : Grounded grammar count (inner ++ frames)) : Grounded grammar count frames := by
  obtain ⟨⟨read,derivation,within⟩,distinct⟩ := grounded
  obtain ⟨before,outside,less⟩ := derivation.outer some
  refine ⟨⟨before,outside,Nat.le_trans less within⟩,?_⟩
  rw [Distinct,List.map_append] at distinct
  exact distinct.of_append_right

theorem Grounded.mono {count more : Nat} {frames : List Frame} (grounded : Grounded grammar count frames)
    (less : count ≤ more) : Grounded grammar more frames := by
  obtain ⟨⟨read,derivation,within⟩,distinct⟩ := grounded
  exact ⟨⟨read,derivation,Nat.le_trans within less⟩,distinct⟩

theorem Reached.grounded {tokens : List Token} {count : Nat} {state : State} (reached : Reached grammar tokens count state) :
    Grounded grammar count (state.frame :: state.ancestors) := by
  obtain ⟨length,derivation⟩ := reached.partialDerivation
  exact ⟨⟨_,derivation,Nat.le_of_eq length⟩,reached.distinct⟩

/-- Every production of a chain has a first symbol. -/
theorem rhs_length_of_leftChain {source target : String} {chain : List Production}
    (linked : Grammar.LeftChain grammar source chain target) : ∀ step ∈ chain, 1 ≤ step.rule.rhs.length := by
  induction linked with
  | nil => simp
  | cons _ first _ ih =>
    refine List.forall_mem_cons.mpr ⟨?_,ih⟩
    obtain ⟨tail,rhs⟩ := List.head?_eq_some_iff.mp first
    rw [rhs]
    exact Nat.le_add_left _ _

/-- The state at the end of a grown cycle hangs below the frames that the cycle was hung below. -/
theorem State.growInto_ancestors {tree : Tree} {origin : Nat} {cycle : Cycle} {frames : List Frame} {state : State}
    (grown : State.growInto tree origin cycle frames = some state) : ∃ inner, state.ancestors = inner ++ frames := by
  rcases List.eq_nil_or_concat cycle with rfl | ⟨chain,last,rfl⟩
  · simp [State.growInto] at grown
  · rw [List.concat_eq_append,growInto_append] at grown
    obtain rfl := Option.some.inj grown
    exact ⟨_,rfl⟩

/-- The states that take the place of an expanded one. -/
def StoredExpansion.followers : StoredExpansion → List Nat
  | .waiting => []
  | .complete => []
  | .into ids => ids

namespace Arena

variable {arena before after : Arena} {tokens : Array Token}

/-! ### Storing -/

/-- The stored state has matched at most the symbols of its production, and it is a partial derivation with the states
    above it. -/
structure Stands (grammar : Grammar) (tokens : Array Token) (arena : Arena) (id : Nat) (stored : StoredState) : Prop where
  matched : stored.matched ≤ stored.production.rule.rhs.length
  frames : ∃ frames, Leads arena tokens (some id) frames ∧ Grounded grammar tokens.size frames

/-- Every node unfolds to a tree and every state stands for a partial derivation. -/
structure Meaningful (grammar : Grammar) (tokens : Array Token) (arena : Arena) : Prop where
  sound : arena.Sound
  nodes : ∀ id < arena.nodes.size, ∃ tree, arena.tree? tokens id = some tree
  states : ∀ {id stored}, arena.states[id]? = some stored → Stands grammar tokens arena id stored

/-- The arenas follow one another entry by entry, and all are meaningful. -/
abbrev Builds (grammar : Grammar) (tokens : Array Token) : Arena → List Arena → Arena → Prop :=
  Passes Stores (Meaningful grammar tokens)

/-- An arena that stores more stays meaningful when the new nodes and states are. -/
theorem Meaningful.extend (meaningful : before.Meaningful grammar tokens) (growth : Extends before after)
    (nodes : ∀ id, before.nodes.size ≤ id → id < after.nodes.size → ∃ tree, after.tree? tokens id = some tree)
    (states : ∀ {id stored}, before.states.size ≤ id → after.states[id]? = some stored → Stands grammar tokens after id stored) :
    after.Meaningful grammar tokens := by
  refine ⟨growth.sound meaningful.sound,fun id inside => ?_,fun {id stored} found => ?_⟩
  · by_cases old : id < before.nodes.size
    · obtain ⟨tree,unfolds⟩ := meaningful.nodes id old
      exact ⟨tree,growth.tree? unfolds⟩
    · exact nodes id (Nat.not_lt.mp old) inside
  · by_cases old : id < before.states.size
    · have here : before.states[id]? = some before.states[id] := Array.getElem?_eq_getElem old
      obtain rfl := Option.some.inj (found.symm.trans (growth.states here))
      obtain ⟨matched,frames,leads,grounded⟩ := meaningful.states here
      exact ⟨matched,frames,growth.leads leads,grounded⟩
    · exact states (Nat.not_lt.mp old) found

theorem Meaningful.addState {stored : StoredState} {frame : Frame} {frames : List Frame}
    (meaningful : arena.Meaningful grammar tokens) (holds : Holds arena tokens stored frame)
    (above : Leads arena tokens stored.parent frames) (matched : stored.matched ≤ stored.production.rule.rhs.length)
    (grounded : Grounded grammar tokens.size (frame :: frames)) : (arena.addState stored).1.Meaningful grammar tokens := by
  refine meaningful.extend (extends_addState arena stored) (fun id old inside => absurd inside (Nat.not_lt.mpr old)) ?_
  intro id other old found
  have inside := (Array.getElem?_eq_some_iff.mp found).1
  rw [size_addState] at inside
  obtain rfl : id = arena.states.size := by omega
  obtain rfl : stored = other := by simpa [Arena.addState] using found
  exact ⟨matched,_,leads_addState holds above,grounded⟩

theorem Meaningful.addNode {node : StoredNode} {tree : Tree} (meaningful : arena.Meaningful grammar tokens)
    (unfolds : (arena.addNode node).1.tree? tokens (arena.addNode node).2 = some tree) :
    (arena.addNode node).1.Meaningful grammar tokens := by
  refine meaningful.extend (extends_addNode arena node) (fun id old inside => ⟨tree,?_⟩)
    fun old found => absurd (Array.getElem?_eq_some_iff.mp found).1 (Nat.not_lt.mpr old)
  obtain rfl : id = arena.nodes.size := by
    simp only [Arena.addNode,Array.size_push] at inside
    omega
  exact unfolds

theorem Meaningful.emptyNode {name : String} (meaningful : arena.Meaningful grammar tokens)
    (new : arena.childless.lookup name = none) : (arena.emptyNode name).1.Meaningful grammar tokens := by
  obtain ⟨growth,unfolds⟩ := emptyNode_spec arena tokens name meaningful.sound
  refine meaningful.extend growth (fun id old inside => ⟨.branch name [],?_⟩) fun old found => ?_
  · obtain rfl : id = (arena.emptyNode name).2 := by
      simp only [Arena.emptyNode,new,Arena.addNode,Array.size_push] at inside ⊢
      omega
    exact unfolds
  · rw [states_emptyNode] at found
    exact absurd (Array.getElem?_eq_some_iff.mp found).1 (Nat.not_lt.mpr old)

/-- Reading a token changes nothing for what is stored. -/
theorem Meaningful.push (meaningful : arena.Meaningful grammar tokens) (token : Token) :
    arena.Meaningful grammar (tokens.push token) := by
  have moves := (Extends.refl arena).moves
  have continues : Continues tokens (tokens.push token) := continues_push tokens token
  refine ⟨meaningful.sound,fun id inside => ?_,fun found => ?_⟩
  · obtain ⟨tree,unfolds⟩ := meaningful.nodes id inside
    exact ⟨tree,moves.tree? continues trivial unfolds⟩
  · obtain ⟨matched,frames,leads,grounded⟩ := meaningful.states found
    have later := moves.leads continues leads fun _ _ => trivial
    refine ⟨matched,frames,by simpa [Placement.stay] using later,grounded.mono ?_⟩
    rw [Array.size_push]
    exact Nat.le_succ _

/-! ### Operations -/

private theorem builds_emptyNode (meaningful : arena.Meaningful grammar tokens) (name : String) :
    Builds grammar tokens arena (arena.emptyNodeHistory name) (arena.emptyNode name).1 := by
  unfold emptyNodeHistory
  split
  · rename_i id shared
    rw [emptyNode,shared]
    exact .nil arena
  · rename_i new
    exact .single (.childless new) (meaningful.emptyNode new)

theorem builds_addPredicted {production : Production} {name : String} (named : production.rule.lhs = name) {origin : Nat}
    {link : Option Nat} {frames : List Frame} (meaningful : arena.Meaningful grammar tokens) (above : Leads arena tokens link frames)
    (grounded : Grounded grammar tokens.size (.predicted production origin :: frames)) :
    Builds grammar tokens arena (arena.addPredictedHistory name production link origin)
      (arena.addPredicted name production link origin).1 := by
  obtain ⟨growth,empty⟩ := emptyNode_spec arena tokens name meaningful.sound
  have stored := builds_emptyNode meaningful name
  refine stored.append (.single (.state _) ?_)
  refine (stored.holds_last meaningful).addState ⟨rfl,rfl,rfl,?_⟩ (growth.leads above) (Nat.zero_le _) grounded
  exact empty.trans (by rw [← named]; rfl)

private theorem builds_predict {current id : Nat} {name : String} {frames : List Frame} (productions : List Production)
    (named : ∀ production ∈ productions, production.rule.lhs = name) (meaningful : arena.Meaningful grammar tokens)
    (above : Leads arena tokens (some id) frames)
    (grounded : ∀ production ∈ productions, Grounded grammar tokens.size (.predicted production current :: frames)) :
    Builds grammar tokens arena (predictHistory current id name arena productions)
      (predict current id name arena productions).1 := by
  induction productions generalizing arena with
  | nil => exact .nil arena
  | cons production rest ih =>
    obtain ⟨here,others⟩ := List.forall_mem_cons.mp named
    obtain ⟨first,later⟩ := List.forall_mem_cons.mp grounded
    obtain ⟨growth,-⟩ := addPredicted_spec here current meaningful.sound above
    have stored := builds_addPredicted here meaningful above first
    exact stored.append (ih others (stored.holds_last meaningful) (growth.leads above) later)

/-- While a cycle is grown, each state on the way is one above the state that it ends with. -/
theorem builds_growInto {node origin parent : Nat} {tree : Tree} {frames : List Frame} {state : State} (cycle : Cycle)
    (left : ∀ step ∈ cycle, 1 ≤ step.rule.rhs.length) (grows : State.growInto tree origin cycle frames = some state)
    (grounded : Grounded grammar tokens.size (state.frame :: state.ancestors)) (meaningful : arena.Meaningful grammar tokens)
    (finished : arena.tree? tokens node = some tree) (above : Leads arena tokens (some parent) frames) :
    Builds grammar tokens arena (growIntoHistory node origin arena parent cycle) (growInto node origin arena parent cycle).1 := by
  induction cycle generalizing arena parent frames with
  | nil => simp [State.growInto] at grows
  | cons step cycle ih =>
    cases cycle with
    | nil =>
      obtain rfl := Option.some.inj grows
      have unfolds : (arena.addNode (.branch step.rule.lhs [node])).1.tree? tokens arena.nodes.size =
        some (.branch step.rule.lhs [tree]) := tree?_addNode (.cons finished .nil)
      have grown := meaningful.addNode unfolds
      have first := extends_addNode arena (.branch step.rule.lhs [node])
      refine .cons (.node _) grown (.single (.state _) ?_)
      have holds : Holds (arena.addNode (.branch step.rule.lhs [node])).1 tokens ⟨step,1,some parent,arena.nodes.size,origin⟩
          ((Frame.predicted step origin).advance tree) := ⟨rfl,List.drop_one,rfl,unfolds⟩
      exact grown.addState holds (first.leads above) (left step (by simp)) grounded
    | cons second others =>
      have grows : State.growInto tree origin (second :: others) (.predicted step origin :: frames) = some state := grows
      -- The new state is one of those above the last one, whose frames are a partial derivation.
      obtain ⟨inner,outside⟩ := State.growInto_ancestors grows
      have outer : Grounded grammar tokens.size (.predicted step origin :: frames) := by
        rw [outside,← List.cons_append] at grounded
        exact grounded.outer (by simp)
      obtain ⟨growth,added⟩ := addPredicted_spec (rfl : step.rule.lhs = _) origin meaningful.sound above
      have stored := builds_addPredicted (rfl : step.rule.lhs = _) meaningful above outer
      exact stored.append (ih (fun later member => left later (by simp [member])) grows (stored.holds_last meaningful)
        (growth.tree? finished) added)

private theorem builds_growAll {stored : StoredState} {parent : Nat} {state : State} (cycles : List Cycle)
    (left : ∀ cycle ∈ cycles, cycle ≠ [] ∧ ∀ step ∈ cycle, 1 ≤ step.rule.rhs.length)
    (grounded : ∀ next ∈ (cycles.filter state.mayGrow).filterMap state.grow,
      Grounded grammar tokens.size (next.frame :: next.ancestors))
    (meaningful : arena.Meaningful grammar tokens) (holds : Holds arena tokens stored state.frame)
    (above : Leads arena tokens (some parent) state.ancestors) {grown : Arena} {ids : List Nat}
    (found : growAll stored parent arena cycles = some (grown,ids)) :
    Builds grammar tokens arena (growAllHistory stored parent arena cycles) grown := by
  induction cycles generalizing arena ids with
  | nil =>
    obtain ⟨rfl,-⟩ := Prod.mk.inj (Option.some.inj found)
    exact .nil arena
  | cons cycle rest ih =>
    obtain ⟨⟨nonempty,steps⟩,others⟩ := List.forall_mem_cons.mp left
    have allowed := mayGrow_spec holds above cycle
    rw [growAll,allowed] at found
    rw [growAllHistory,allowed]
    cases may : state.mayGrow cycle with
    | false =>
      rw [List.filter_cons_of_neg (by simp [may])] at grounded
      simp only [may] at found
      exact ih others grounded meaningful holds above found
    | true =>
      simp only [may,Option.map_eq_some_iff] at found
      obtain ⟨⟨last,later⟩,more,same⟩ := found
      obtain ⟨rfl,-⟩ := Prod.mk.inj same
      obtain ⟨next,grows,growth,-⟩ := growInto_spec stored.origin cycle nonempty meaningful.sound holds.tree above
      have next_grown : state.grow cycle = some next := by rw [State.grow,← holds.origin]; exact grows
      rw [List.filter_cons_of_pos may,List.filterMap_cons_some next_grown] at grounded
      obtain ⟨first,second⟩ := List.forall_mem_cons.mp grounded
      have built := builds_growInto cycle steps grows first meaningful holds.tree above
      exact built.append (ih others second (built.holds_last meaningful) (growth.holds holds) (growth.leads above) more)

theorem Meaningful.withChild {id child copy : Nat} {grown : Arena} {tree : Tree} (meaningful : arena.Meaningful grammar tokens)
    (copied : arena.withChild id child = some (grown,copy)) (unfolds : grown.tree? tokens copy = some tree) :
    Stores arena grown ∧ grown.Meaningful grammar tokens := by
  unfold Arena.withChild at copied
  split at copied
  · obtain ⟨rfl,rfl⟩ := Prod.mk.inj (Option.some.inj copied)
    exact ⟨.node _,meaningful.addNode unfolds⟩
  · simp at copied

private theorem builds_advance {stored : StoredState} {frame : Frame} {frames : List Frame} {symbol : Symbol} {child : Nat}
    {tree : Tree}
    (next : stored.next? = some symbol) (grounded : Grounded grammar tokens.size (frame.advance tree :: frames))
    (meaningful : arena.Meaningful grammar tokens) (holds : Holds arena tokens stored frame)
    (above : Leads arena tokens stored.parent frames) (last : arena.tree? tokens child = some tree) {grown : Arena} {id : Nat}
    (advanced : arena.advance stored child = some (grown,id)) :
    Builds grammar tokens arena (arena.advanceHistory stored child) grown := by
  obtain ⟨middle,node,copied,growth,unfolds⟩ := withChild_spec holds.tree last
  obtain ⟨stores,kept⟩ := meaningful.withChild copied unfolds
  rw [advance,copied,Option.map_some] at advanced
  obtain ⟨rfl,-⟩ := Prod.mk.inj (Option.some.inj advanced)
  rw [advanceHistory,copied]
  refine .cons stores kept (.single (.state _) ?_)
  exact kept.addState (holds.advance unfolds) (growth.leads above) (List.getElem?_eq_some_iff.mp next).1 grounded

private theorem builds_close {all : List Token} {stored : StoredState} {parent : Nat} {state : State} {frame : Frame}
    {ancestors : List Frame} (reached : Reached grammar all tokens.size state) (finished : state.frame.rest = [])
    (below : state.ancestors = frame :: ancestors) (meaningful : arena.Meaningful grammar tokens)
    (holds : Holds arena tokens stored state.frame) (above : Leads arena tokens (some parent) state.ancestors) {grown : Arena}
    {ids : List Nat} (closed : arena.close stored parent (grammar.cycles state.frame.name) = some (grown,ids)) :
    Builds grammar tokens arena (arena.closeHistory stored parent (grammar.cycles state.frame.name)) grown := by
  have left : ∀ cycle ∈ grammar.cycles state.frame.name, cycle ≠ [] ∧ ∀ step ∈ cycle, 1 ≤ step.rule.rhs.length := by
    intro cycle member
    obtain ⟨⟨nonempty,linked,-⟩,-⟩ := (Grammar.mem_cycles_iff grammar state.frame.name cycle).mp member
    exact ⟨nonempty,rhs_length_of_leftChain linked⟩
  have grounded : ∀ next ∈ state.grown grammar, Grounded grammar tokens.size (next.frame :: next.ancestors) := by
    intro next member
    have taken : Step grammar tokens.size state next := (mem_close_iff finished below next).mp (List.mem_cons_of_mem _ member)
    exact (reached.step taken).grounded
  have outer := (reached.step (.close finished below)).grounded
  obtain ⟨-,derivation⟩ := reached.partialDerivation
  generalize all.take tokens.size = read at derivation
  rw [below] at derivation
  have chain := above
  rw [below] at chain
  cases derivation with
  | push _ waits =>
    cases chain with
    | @cons _ waiting _ _ found own ascends outermost =>
      have next : waiting.next? = some (.nonterminal state.frame.name) := by rw [own.next?,waits]; rfl
      obtain ⟨middle,id,advanced,growth,-⟩ := advance_spec own outermost holds.tree
      have built := builds_advance next outer meaningful own outermost holds.tree advanced
      simp only [close,found,advanced,Option.map_eq_some_iff] at closed
      obtain ⟨⟨last,later⟩,grows,same⟩ := closed
      obtain ⟨rfl,-⟩ := Prod.mk.inj same
      simp only [closeHistory,found,advanced]
      exact built.append (builds_growAll _ left grounded (built.holds_last meaningful) (growth.holds holds)
        (growth.leads above) grows)

/-! ### A pass -/

private theorem builds_expand {all : List Token} {id : Nat} {state : State} (reached : Reached grammar all tokens.size state)
    (meaningful : arena.Meaningful grammar tokens) (represents : Represents arena tokens id state) {grown : Arena}
    {result : StoredExpansion} (expanded : arena.expand (Table.of grammar) tokens.size id = some (grown,result)) :
    Builds grammar tokens arena (arena.expandHistory (Table.of grammar) tokens.size id) grown := by
  have whole := represents
  cases represents with
  | @cons _ stored _ _ found holds ascends above =>
    rw [expandHistory,found]
    rw [expand,found] at expanded
    simp only [holds.next?] at expanded ⊢
    cases rest : state.frame.rest with
    | nil =>
      rw [rest] at expanded
      cases link : stored.parent with
      | none =>
        simp only [List.head?_nil,link] at expanded
        obtain ⟨rfl,-⟩ := Prod.mk.inj (Option.some.inj expanded)
        exact .nil arena
      | some parent =>
        rw [link] at above
        simp only [List.head?_nil,link,Option.map_eq_some_iff] at expanded
        obtain ⟨⟨last,ids⟩,closed,same⟩ := expanded
        obtain ⟨rfl,-⟩ := Prod.mk.inj same
        have cycles : (Table.of grammar).index.get stored.name = grammar.cycles state.frame.name := by
          rw [holds.name]
          exact Grammar.recursionIndex_get grammar state.frame.name
        rw [cycles] at closed
        cases outer : state.ancestors with
        | nil => rw [outer] at above; cases above
        | cons frame ancestors =>
          simp only [List.head?_nil,cycles]
          exact builds_close reached rest outer meaningful holds above closed
    | cons symbol tail =>
      rw [rest] at expanded
      cases symbol with
      | terminal kind =>
        obtain ⟨rfl,-⟩ := Prod.mk.inj (Option.some.inj expanded)
        exact .nil arena
      | nonterminal name =>
        have looped : arena.isLooped id name tokens.size = some (state.isLooped name tokens.size) :=
          anyAbove_spec tokens.size _ whole
        simp only [List.head?_cons,looped] at expanded ⊢
        cases loops : state.isLooped name tokens.size with
        | true =>
          rw [loops] at expanded
          obtain ⟨rfl,-⟩ := Prod.mk.inj (Option.some.inj expanded)
          exact .nil arena
        | false =>
          rw [loops] at expanded
          obtain ⟨rfl,-⟩ := Prod.mk.inj (Option.some.inj expanded)
          refine builds_predict _ (fun _ member => Grammar.lhs_of_mem_alternatives member) meaningful whole ?_
          exact fun production alternative => (reached.step (.predict rest loops alternative)).grounded

/-- What takes the place of a stored state on the stack stands for states that are reached in a step. -/
theorem expand_reached {all : List Token} {id : Nat} {state : State} (reached : Reached grammar all tokens.size state)
    (sound : arena.Sound) (represents : Represents arena tokens id state) {grown : Arena} {result : StoredExpansion}
    (expanded : arena.expand (Table.of grammar) tokens.size id = some (grown,result)) :
    Extends arena grown ∧ ∃ states, List.Forall₂ (Represents grown tokens) result.followers states ∧
      ∀ next ∈ states, Reached grammar all tokens.size next := by
  obtain ⟨_,_,found,agrees⟩ := expand_spec grammar tokens.size sound represents
  obtain ⟨rfl,rfl⟩ := Prod.mk.inj (Option.some.inj (expanded.symm.trans found))
  generalize spread : Parser.expand (Table.of grammar) tokens.size state = expansion at agrees
  cases agrees with
  | waiting => exact ⟨.refl arena,[],.nil,by simp⟩
  | complete => exact ⟨.refl arena,[],.nil,by simp⟩
  | @into _ _ states _ growth follow =>
    refine ⟨growth,states,follow,fun next member => ?_⟩
    exact reached.step ((mem_expand_iff spread next).mp member)

/-- Expanding the state on top of a stack leaves a stack that stands for reached states. -/
theorem builds_top {all : List Token} {id : Nat} {stack : List Nat} {states : List State}
    (reached : ∀ state ∈ states, Reached grammar all tokens.size state) (meaningful : arena.Meaningful grammar tokens)
    (represents : List.Forall₂ (Represents arena tokens) (id :: stack) states) {grown : Arena} {result : StoredExpansion}
    (expanded : arena.expand (Table.of grammar) tokens.size id = some (grown,result)) :
    Builds grammar tokens arena (arena.expandHistory (Table.of grammar) tokens.size id) grown ∧
      ∃ states, (∀ state ∈ states, Reached grammar all tokens.size state) ∧
        List.Forall₂ (Represents grown tokens) (result.followers ++ stack) states := by
  cases represents with
  | cons first rest =>
    obtain ⟨here,others⟩ := List.forall_mem_cons.mp reached
    obtain ⟨growth,states,follow,next⟩ := expand_reached here meaningful.sound first expanded
    refine ⟨builds_expand here meaningful first expanded,_,List.forall_mem_append.mpr ⟨next,others⟩,?_⟩
    exact List.rel_append follow (rest.imp fun _ _ => growth.represents)

/-- All that a pass stores on its way is meaningful, and a pass within its limit ends with the last arena of its history. -/
theorem builds_forward {all : List Token} {limit base waiting : Nat} {stack : List Nat} {states : List State}
    (reached : ∀ state ∈ states, Reached grammar all tokens.size state) (meaningful : arena.Meaningful grammar tokens)
    (represents : List.Forall₂ (Represents arena tokens) stack states) :
    ∃ last, Builds grammar tokens arena (arena.forwardHistory (Table.of grammar) limit tokens.size base waiting stack) last ∧
      ∀ pending complete grown waits done, pending.size = waiting →
        arena.forward (Table.of grammar) limit tokens.size base pending complete stack = some (.passed grown waits done) →
          last = grown := by
  fun_induction forwardHistory (Table.of grammar) limit tokens.size base arena waiting stack generalizing states with
  | case1 arena waiting =>
    refine ⟨arena,.nil arena,fun pending complete grown waits done size passed => ?_⟩
    rw [forward] at passed
    simp_all
  | case2 arena waiting id stack exceeds =>
    refine ⟨arena,.nil arena,fun pending complete grown waits done size passed => ?_⟩
    rw [forward_cons,size,if_pos exceeds] at passed
    simp at passed
  | case3 arena waiting id stack within missing =>
    cases represents with
    | cons first =>
      obtain ⟨_,_,found,-⟩ := expand_spec grammar tokens.size meaningful.sound first
      simp [missing] at found
  | case4 arena waiting id stack within grown expanded ih =>
    obtain ⟨built,states,next,live⟩ := builds_top reached meaningful represents expanded
    obtain ⟨last,more,ends⟩ := ih next (built.holds_last meaningful) live
    refine ⟨last,built.append more,fun pending complete _ waits done size passed => ?_⟩
    rw [forward_cons,size,if_neg within,expanded] at passed
    exact ends _ _ _ _ _ (by rw [Array.size_push,size]) passed
  | case5 arena waiting id stack within grown expanded ih =>
    obtain ⟨built,states,next,live⟩ := builds_top reached meaningful represents expanded
    obtain ⟨last,more,ends⟩ := ih next (built.holds_last meaningful) live
    refine ⟨last,built.append more,fun pending complete _ waits done size passed => ?_⟩
    rw [forward_cons,size,if_neg within,expanded] at passed
    exact ends _ _ _ _ _ size passed
  | case6 arena waiting id stack within grown ids expanded ih =>
    obtain ⟨built,states,next,live⟩ := builds_top reached meaningful represents expanded
    obtain ⟨last,more,ends⟩ := ih next (built.holds_last meaningful) live
    refine ⟨last,built.append more,fun pending complete _ waits done size passed => ?_⟩
    rw [forward_cons,size,if_neg within,expanded] at passed
    exact ends _ _ _ _ _ size passed

theorem builds_pass {all : List Token} (limit : Nat) {live : List Nat} {states : List State}
    (reached : ∀ state ∈ states, Reached grammar all tokens.size state) (meaningful : arena.Meaningful grammar tokens)
    (represents : List.Forall₂ (Represents arena tokens) live states) :
    ∃ last, Builds grammar tokens arena (arena.passHistory (Table.of grammar) limit tokens.size live) last ∧
      ∀ grown waits done, arena.pass (Table.of grammar) limit tokens.size live = some (.passed grown waits done) →
        last = grown := by
  obtain ⟨last,builds,ends⟩ := builds_forward reached meaningful represents
  exact ⟨last,builds,fun grown waits done passed => ends #[] #[] grown waits done rfl passed⟩

/-! ### Scanning -/

private theorem builds_leafFor {token : Token} {index : Nat} (read : tokens[index]? = some token) (leaf : Option Nat)
    (meaningful : arena.Meaningful grammar tokens) :
    Builds grammar tokens arena (arena.leafForHistory index leaf) (arena.leafFor index leaf).1 := by
  cases leaf with
  | some id => exact .nil arena
  | none => exact .single (.node _) (meaningful.addNode (leafFor_spec read none (by simp)).2)

theorem builds_scan {token : Token} {index : Nat} {leaf : Option Nat} {survivors : Array Nat} {missed : Array TokenKind}
    {pending : List Nat} {entries : List (TokenKind × State)} (read : tokens[index]? = some token)
    (grounded : ∀ state ∈ Parser.scan token entries, Grounded grammar tokens.size (state.frame :: state.ancestors))
    (meaningful : arena.Meaningful grammar tokens) (known : ∀ id ∈ leaf, arena.tree? tokens id = some (.leaf token))
    (waits : List.Forall₂ (Pending arena tokens) pending entries) {grown : Arena} {after : Array Nat} {others : Array TokenKind}
    (scanned : scan token.kind index arena leaf survivors missed pending = some (grown,after,others)) :
    Builds grammar tokens arena (scanHistory token.kind index arena leaf pending) grown := by
  induction entries generalizing arena leaf survivors missed pending with
  | nil =>
    cases waits
    obtain ⟨rfl,-⟩ := Prod.mk.inj (Option.some.inj scanned)
    exact .nil arena
  | cons entry entries ih =>
    cases waits with
    | @cons id _ pending _ first rest =>
      obtain ⟨kind,state⟩ := entry
      obtain ⟨awaits,represents⟩ := first
      obtain ⟨stored,found,next⟩ := (awaited_eq_some_iff id kind).mp awaits
      rw [scan,found] at scanned
      rw [scanHistory,found]
      simp only [next] at scanned ⊢
      have later : ∀ other ∈ Parser.scan token entries, Grounded grammar tokens.size (other.frame :: other.ancestors) := by
        intro other member
        obtain ⟨waiting,inside,same⟩ := (mem_scan_iff token entries other).mp member
        exact grounded other ((mem_scan_iff token _ other).mpr ⟨waiting,List.mem_cons_of_mem _ inside,same⟩)
      by_cases accepts : kind = token.kind
      · have here := grounded (state.advance (.leaf token)) (by simp [Parser.scan,accepts])
        cases represents with
        | @cons _ stored' _ _ there holds ascends above =>
          obtain rfl := Option.some.inj (found.symm.trans there)
          obtain ⟨first,unfolds⟩ := leafFor_spec read leaf known
          have leafed := builds_leafFor read leaf meaningful
          obtain ⟨middle,copy,advanced,second,-⟩ := advance_spec (first.holds holds) (first.leads above) unfolds
          have built := leafed.append (builds_advance next here (leafed.holds_last meaningful)
            (first.holds holds) (first.leads above) unfolds advanced)
          have growth := first.trans second
          simp only [accepts,beq_self_eq_true,if_true,advanced] at scanned ⊢
          refine built.append (ih later (built.holds_last meaningful) ?_ (rest.imp fun _ _ => growth.pending) scanned)
          intro id link
          exact Option.mem_some.mp link ▸ second.tree? unfolds
      · have refused : (kind == token.kind) = false := by simpa using accepts
        simp only [refused] at scanned ⊢
        exact ih later meaningful known rest scanned

end Arena

end CFrontend.Parser
