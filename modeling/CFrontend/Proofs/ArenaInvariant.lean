import CFrontend.Proofs.ArenaMeaning

/-!
What holds of the arena at every point of a parse. Compaction keeps what states and nodes stand for, and nothing else is
kept (`Meaningful.compact`), so whatever the schedule, all points of a parse are meaningful (`exists_passes_runHistory`).
Then the indices can be read off (`Meaningful.wellFormed`): links lead to smaller entries, a parent waits for the
nonterminal below it, and only so many states stand above one another because no nonterminal is predicted twice at a token.
-/
namespace CFrontend.Parser

variable {grammar : Grammar}

namespace Arena

variable {arena before after : Arena} {tokens : Array Token}

/-! ### Compaction -/

private theorem exists_of_getElem?_filter_zip {α : Type} {marks : List Bool} {entries : List α} {place : Nat} {entry : α}
    (found : (((entries.zip marks).filter (·.2)).map (·.1))[place]? = some entry) :
    ∃ id, marks[id]? = some true ∧ entries[id]? = some entry ∧ (marks.take id).count true = place := by
  induction entries generalizing marks place with
  | nil => simp at found
  | cons first entries ih =>
    cases marks with
    | nil => simp at found
    | cons mark marks =>
      cases mark with
      | false =>
        obtain ⟨id,marked,here,count⟩ := ih (by simpa using found)
        exact ⟨id + 1,by simpa using marked,by simpa using here,by simpa using count⟩
      | true =>
        cases place with
        | zero => exact ⟨0,rfl,by simpa using found,rfl⟩
        | succ place =>
          obtain ⟨id,marked,here,count⟩ := ih (by simpa using found)
          exact ⟨id + 1,by simpa using marked,by simpa using here,by simpa using count⟩

/-- Only marked entries are kept, each at its place among them. -/
theorem exists_of_getElem?_kept {α : Type} {marks : Array Bool} {entries : Array α} {place : Nat} {entry : α}
    (found : (kept marks entries)[place]? = some entry) :
    ∃ id, Marked marks id ∧ entries[id]? = some entry ∧ (places marks).getD id 0 = place := by
  rw [← Array.getElem?_toList] at found
  simp only [kept,Array.toList_map,Array.toList_filter,Array.toList_zip] at found
  obtain ⟨id,marked,here,count⟩ := exists_of_getElem?_filter_zip found
  rw [Array.getElem?_toList] at marked here
  exact ⟨id,marked,here,(getD_places (Array.getElem?_eq_some_iff.mp marked).1).trans count⟩

/-- When everything is kept from somewhere, an arena that things are moved to is meaningful. -/
theorem Placement.Moves.meaningful {placement : Placement} (moves : placement.Moves before after) (sound : after.Sound)
    (nodes : ∀ place < after.nodes.size, ∃ id < before.nodes.size, placement.nodeKept id ∧ placement.nodePlace id = place)
    (states : ∀ place < after.states.size, ∃ id < before.states.size, placement.stateKept id ∧ placement.statePlace id = place)
    (meaningful : before.Meaningful grammar tokens) : after.Meaningful grammar tokens := by
  refine ⟨sound,fun place inside => ?_,fun {place moved} found => ?_⟩
  · obtain ⟨id,old,kept,rfl⟩ := nodes place inside
    obtain ⟨tree,unfolds⟩ := meaningful.nodes id old
    exact ⟨tree,moves.tree? (continues_refl tokens) kept unfolds⟩
  · obtain ⟨id,old,kept,rfl⟩ := states place (Array.getElem?_eq_some_iff.mp found).1
    have here : before.states[id]? = some before.states[id] := Array.getElem?_eq_getElem old
    obtain ⟨matched,frames,leads,grounded⟩ := meaningful.states here
    obtain rfl := Option.some.inj (found.symm.trans (moves.state kept here))
    exact ⟨matched,frames,moves.leads (continues_refl tokens) leads fun _ same => Option.mem_some.mp same ▸ kept,grounded⟩

/-- Compaction keeps the meaning of everything that is left. -/
theorem Meaningful.compact {live moved : List Nat} {states : List State} {compacted : Arena}
    (meaningful : arena.Meaningful grammar tokens) (represents : List.Forall₂ (Represents arena tokens) live states)
    (compacts : arena.compact live = some (compacted,moved)) : compacted.Meaningful grammar tokens := by
  have leads : ∀ id ∈ live, ∃ frames, Leads arena tokens (some id) frames := by
    intro id member
    obtain ⟨state,stands⟩ := exists_related represents id member
    exact ⟨_,stands⟩
  obtain ⟨stateMarks,stack,marking,above,unfolds,-,-⟩ :=
    markStates_spec leads (closedAbove_replicate arena) (by simp [Unfolds])
  obtain ⟨nodeMarks,nodeMarking,below,nodesMarked,-⟩ := markNodes_spec (closedBelow_replicate arena stack) unfolds
  have moves := moves_placement above below nodesMarked
  simp only [Arena.compact,marking,nodeMarking] at compacts
  obtain ⟨rfl,-⟩ := Prod.mk.inj (Option.some.inj compacts)
  refine moves.meaningful (by simp [Sound]) (fun place less => ?_) (fun place less => ?_) meaningful
  · rw [Array.size_map] at less
    obtain ⟨id,marked,here,same⟩ := exists_of_getElem?_kept (Array.getElem?_eq_getElem less)
    exact ⟨id,(Array.getElem?_eq_some_iff.mp here).1,marked,same⟩
  · rw [Array.size_map] at less
    obtain ⟨id,marked,here,same⟩ := exists_of_getElem?_kept (Array.getElem?_eq_getElem less)
    exact ⟨id,(Array.getElem?_eq_some_iff.mp here).1,marked,same⟩

end Arena

/-! ### A parse -/

/-- The arena at a point means something for the tokens read there. -/
def Point.Meaningful (grammar : Grammar) (point : Point) : Prop := point.arena.Meaningful grammar point.read

variable {arena before after : Arena} {tokens : Array Token}

/-- The points of the arenas that an operation stores between two tokens. -/
theorem Arena.Builds.points {points : List Arena} (builds : Arena.Builds grammar tokens before points after) :
    Passes Follows (Point.Meaningful grammar) ⟨tokens,before⟩ (points.map (⟨tokens,·⟩)) ⟨tokens,after⟩ :=
  builds.map .store id

/-- A token is read, and the states that wait for it are advanced one by one. -/
theorem passes_scan {token : Token} {pending : List Nat} {entries : List (TokenKind × State)} {scanned : Arena}
    {survivors : Array Nat} {missed : Array TokenKind}
    (grounded : ∀ state ∈ scan token entries, Grounded grammar (tokens.size + 1) (state.frame :: state.ancestors))
    (meaningful : arena.Meaningful grammar tokens) (waits : List.Forall₂ (Arena.Pending arena tokens) pending entries)
    (scans : arena.scan token.kind tokens.size none #[] #[] pending = some (scanned,survivors,missed)) :
    Passes Follows (Point.Meaningful grammar) ⟨tokens,arena⟩ (⟨tokens.push token,arena⟩ ::
      (arena.scanHistory token.kind tokens.size none pending).map (⟨tokens.push token,·⟩)) ⟨tokens.push token,scanned⟩ := by
  have read : (tokens.push token)[tokens.size]? = some token := by simp
  have later := meaningful.push token
  rw [← Array.size_push token] at grounded
  have stored := Arena.builds_scan read grounded later (by simp) (waits.imp fun _ _ entry => entry.push token) scans
  exact .cons (.token token) later stored.points

private theorem passes_maintain {schedule : Schedule} {count threshold next : Nat} {live moved : List Nat} {states : List State}
    {kept : Arena} (meaningful : arena.Meaningful grammar tokens) (represents : List.Forall₂ (arena.Represents tokens) live states)
    (maintained : arena.maintain schedule count threshold live = some (kept,moved,next)) :
    Passes Follows (Point.Meaningful grammar) ⟨tokens,arena⟩
      ((arena.maintainHistory schedule count threshold live).map (⟨tokens,·⟩)) ⟨tokens,kept⟩ := by
  unfold Arena.maintain at maintained
  unfold Arena.maintainHistory
  split at maintained
  · rename_i scheduled
    obtain ⟨⟨compacted,places⟩,compacts,same⟩ := Option.map_eq_some_iff.mp maintained
    obtain ⟨rfl,-⟩ := Prod.mk.inj same
    simp only [scheduled,if_true,compacts]
    exact .single (.compact compacts) (meaningful.compact represents compacts)
  · rename_i unscheduled
    obtain ⟨rfl,-⟩ := Prod.mk.inj (Option.some.inj maintained)
    simp only [unscheduled]
    exact .nil _

/-- A tree that a parse returns is the one of a state that is stored at the point, where all tokens are read. -/
def Point.Concludes (point : Point) (all : List Token) (outcome : Except ParseError Tree) : Prop :=
  ∀ tree, outcome = .ok tree → point.read.toList = all ∧ ∃ id, point.arena.treeOf? point.read id = some tree

private theorem concludes_error (point : Point) (all : List Token) (error : ParseError) : point.Concludes all (.error error) :=
  fun _ impossible => by cases impossible

private theorem concludes_settle (policy : AmbiguityPolicy) (pos : Position) {complete : List Nat} {result : Pass}
    (done : List.Forall₂ (fun id tree => arena.treeOf? tokens id = some tree) complete result.complete) :
    (⟨tokens,arena⟩ : Point).Concludes tokens.toList (settle policy pos result) := by
  intro tree settled
  have member := mem_of_mem_distinct (mem_of_chosen ((settle_ok_iff policy pos result tree).mp settled))
  obtain ⟨id,found⟩ := Arena.exists_related done.flip tree member
  exact ⟨rfl,id,found⟩

theorem Sources.reached {all : List Token} {count : Nat} {live : List State} (sources : Sources grammar all count live) :
    ∀ state ∈ live, Reached grammar all count state :=
  fun state member => (sources state).mpr ⟨state,member,.refl⟩

/-- From live states on, a parse goes through meaningful points only, and the last one is where it ends. The induction goes
    along the tokens that are left; the live states stand for the sources of what is reached before the next one. -/
theorem exists_passes_runHistory {all : List Token} (schedule : Schedule) (options : Options) (ending : Ending)
    (rest : List Token) (threshold : Nat) {live : List Nat} {states : List State}
    (sources : Sources grammar all tokens.size states) (split : tokens.toList ++ rest = all)
    (meaningful : arena.Meaningful grammar tokens) (represents : List.Forall₂ (arena.Represents tokens) live states) :
    ∃ last, Passes Follows (Point.Meaningful grammar) ⟨tokens,arena⟩
        (runHistory schedule (Table.of grammar) options ending threshold arena tokens live rest) last ∧
      last.Concludes all (run (Table.of grammar) options ending tokens.size states rest) := by
  induction rest generalizing arena tokens live states threshold with
  | nil =>
    cases ending with
    | broken error => exact ⟨_,.nil _,concludes_error _ _ _⟩
    | finished pos =>
      obtain ⟨last,builds,ends⟩ := Arena.builds_pass options.maxStates sources.reached meaningful represents
      refine ⟨_,builds.points,?_⟩
      obtain ⟨result,passed,passes⟩ := pass_spec grammar options.maxStates tokens.size meaningful.sound represents
      rw [run]
      generalize pass (Table.of grammar) options.maxStates tokens.size states = explored at passes
      cases passes with
      | exceeded => exact concludes_error _ _ _
      | passed _ _ done =>
        obtain rfl := ends _ _ _ passed
        rw [List.append_nil] at split
        exact split ▸ concludes_settle options.ambiguity pos done
  | cons token rest ih =>
    obtain ⟨last,builds,ends⟩ := Arena.builds_pass options.maxStates sources.reached meaningful represents
    obtain ⟨result,passed,passes⟩ := pass_spec grammar options.maxStates tokens.size meaningful.sound represents
    simp only [runHistory,run,passed]
    generalize explored : pass (Table.of grammar) options.maxStates tokens.size states = outcome at passes
    cases passes with
    | exceeded => exact ⟨_,by simpa using builds.points,concludes_error _ _ _⟩
    | @passed grown pending complete found growth waits =>
      obtain rfl := ends _ _ _ passed
      have forward := builds.holds_last meaningful
      have here : all[tokens.size]? = some token := by simp [← split]
      have next := sources_scan sources explored here
      have grounded := fun state member => (next.reached state member).grounded
      have read : (tokens.push token)[tokens.size]? = some token := by simp
      obtain ⟨scanned,survivors,missed,scans,-,goes,-⟩ := Arena.scan_spec none #[] #[] read forward.sound (by simp) .nil
        (waits.imp fun _ _ entry => entry.push token)
      have stored := builds.points.append (passes_scan grounded forward waits scans)
      rw [List.nil_append] at goes
      simp only [scans]
      rw [isEmpty_eq goes]
      -- Where no state goes on with the token, the parse ends; otherwise the arena may be compacted before the next one.
      cases survive : scan token found.pending with
      | nil => exact ⟨_,by simpa using stored,concludes_error _ _ _⟩
      | cons state others =>
        have meant : scanned.Meaningful grammar (tokens.push token) := stored.holds_last meaningful
        obtain ⟨kept,moved,later,maintained,-,live⟩ :=
          Arena.maintain_spec schedule (tokens.size + 1) threshold meant.sound goes
        have maintenance := passes_maintain meant goes maintained
        rw [survive] at next live
        obtain ⟨last,run,concludes⟩ :=
          ih later (by simpa using next) (by simpa using split) (maintenance.holds_last meant) live
        refine ⟨last,?_,by simpa using concludes⟩
        simp only [maintained,List.isEmpty_cons]
        simpa using stored.append (maintenance.append run)

private theorem exists_passes_parseHistory (schedule : Schedule) (threshold : Nat) (grammar : Grammar) (options : Options)
    (stream : TokenStream) : ∃ last, Passes Follows (Point.Meaningful grammar) ⟨#[],{}⟩
        (parseHistory schedule threshold grammar options stream) last ∧
      last.Concludes stream.tokens (parse grammar options stream) := by
  obtain ⟨production,only,-,root⟩ := initial_spec grammar
  have alternative : production ∈ grammar.alternatives grammar.start := only ▸ List.mem_singleton_self _
  have empty : Arena.Meaningful grammar #[] {} := ⟨by simp [Arena.Sound],by simp,by simp⟩
  have reached : Reached grammar stream.tokens 0 (.root production) := .start alternative
  have stored : Arena.Builds grammar #[] {} _ _ :=
    Arena.builds_addPredicted (Grammar.lhs_of_mem_alternatives alternative) empty .nil reached.grounded
  obtain ⟨last,run,concludes⟩ := exists_passes_runHistory schedule options stream.ending stream.tokens threshold
    (sources_initial grammar stream.tokens) rfl (stored.holds_last empty) root
  rw [parseHistory,only]
  exact ⟨last,stored.points.append run,concludes⟩

/-! ### Indices -/
namespace Arena

/-- A state and those above it. -/
def lineage (arena : Arena) (id : Nat) : List StoredState :=
  match arena.states[id]? with
  | none => []
  | some stored => stored :: match stored.parent with
    | none => []
    | some parent => if parent < id then arena.lineage parent else []
termination_by id

private theorem Leads.lineage {id : Nat} {frames : List Frame} (leads : Leads arena tokens (some id) frames) :
    List.Forall₂ (Holds arena tokens) (arena.lineage id) frames := by
  induction frames generalizing id with
  | nil => cases leads
  | cons frame frames ih =>
    cases leads with
    | @cons _ stored _ _ found holds ascends above =>
      rw [Arena.lineage,found]
      refine .cons holds ?_
      cases link : stored.parent with
      | none =>
        rw [link] at above
        cases above
        exact .nil
      | some parent =>
        rw [link] at above
        simpa [ascends parent link] using ih above

/-- The indices of an arena are in range and its links descend, where some first tokens have been read. -/
structure WellFormed (grammar : Grammar) (read : Array Token) (arena : Arena) : Prop where
  /-- A state has a rule of the grammar and has matched at most its symbols. -/
  rule : ∀ stored ∈ arena.states, grammar.rules[stored.production.index]? = some stored.production.rule ∧
    stored.matched ≤ stored.production.rule.rhs.length
  /-- The parent of a state comes before it, waits for its nonterminal, and was not predicted later. -/
  parent : ∀ {id : Nat} {stored : StoredState}, arena.states[id]? = some stored → ∀ parent ∈ stored.parent, parent < id ∧
    ∃ above, arena.states[parent]? = some above ∧ above.next? = some (.nonterminal stored.name) ∧ above.origin ≤ stored.origin
  origin : ∀ stored ∈ arena.states, stored.origin ≤ read.size
  /-- States above one another with one origin derive different nonterminals. -/
  distinct : ∀ id stretch, stretch <:+: arena.lineage id →
    (∀ stored ∈ stretch, ∀ other ∈ stretch, stored.origin = other.origin) → (stretch.map StoredState.name).Nodup
  depth : ∀ id, (arena.lineage id).length ≤ grammar.nonterminals.length * (read.size + 1)
  node : ∀ stored ∈ arena.states, stored.node < arena.nodes.size
  child : ∀ {id : Nat} {node : StoredNode}, arena.nodes[id]? = some node → ∀ child ∈ node.children, child < id
  token : ∀ {id index : Nat}, arena.nodes[id]? = some (.leaf index) → index < read.size
  /-- Every node unfolds to a tree. -/
  tree : ∀ id < arena.nodes.size, ∃ tree, arena.tree? read id = some tree

/-- Where a state was predicted and for which nonterminal. -/
def key (stored : StoredState) : Nat × String := (stored.origin,stored.name)

private theorem Meaningful.lineage (meaningful : arena.Meaningful grammar tokens) (id : Nat) :
    ((arena.lineage id).map key).Nodup ∧
      ∀ stored ∈ arena.lineage id, stored.origin ≤ tokens.size ∧ stored.name ∈ grammar.nonterminals := by
  cases found : arena.states[id]? with
  | none =>
    rw [Arena.lineage,found]
    simp
  | some stored =>
    obtain ⟨-,frames,leads,⟨read,derivation,within⟩,distinct⟩ := meaningful.states found
    have all := leads.lineage
    have keys : (arena.lineage id).map key = frames.map fun frame => (frame.origin,frame.name) := by
      rw [← List.forall₂_eq_eq_eq,List.forall₂_map_left_iff,List.forall₂_map_right_iff]
      exact all.imp fun stored frame holds => by rw [key,holds.origin,holds.name]
    refine ⟨keys ▸ distinct,fun stored member => ?_⟩
    have own : key stored ∈ frames.map fun frame => (frame.origin,frame.name) := keys ▸ List.mem_map_of_mem member
    obtain ⟨frame,inside,same⟩ := List.mem_map.mp own
    obtain ⟨origin,name⟩ := Prod.mk.inj same
    rw [← origin,← name]
    refine ⟨Nat.le_trans (derivation.origin_le frame inside) within,?_⟩
    rw [Grammar.nonterminals,List.mem_eraseDups]
    exact List.mem_map_of_mem (Grammar.rule_of_mem_alternatives (derivation.valid frame inside).alternative)

theorem Meaningful.distinct (meaningful : arena.Meaningful grammar tokens) {id : Nat} {stretch : List StoredState}
    (part : stretch <:+: arena.lineage id)
    (same : ∀ stored ∈ stretch, ∀ other ∈ stretch, stored.origin = other.origin) : (stretch.map StoredState.name).Nodup := by
  have apart := (meaningful.lineage id).1.sublist (part.sublist.map key)
  rw [List.Nodup,List.pairwise_map] at apart ⊢
  refine apart.imp_of_mem fun {first second} here there differ named => ?_
  exact differ (Prod.ext (same first here second there) named)

/-- There are no more states above one another than places and nonterminals to predict there. -/
theorem Meaningful.length_lineage_le (meaningful : arena.Meaningful grammar tokens) (id : Nat) :
    (arena.lineage id).length ≤ grammar.nonterminals.length * (tokens.size + 1) := by
  obtain ⟨once,within⟩ := meaningful.lineage id
  have inside : (arena.lineage id).map key ⊆ List.range (tokens.size + 1) ×ˢ grammar.nonterminals := by
    intro slot member
    obtain ⟨stored,own,rfl⟩ := List.mem_map.mp member
    obtain ⟨origin,name⟩ := within stored own
    exact List.pair_mem_product.mpr ⟨List.mem_range.mpr (Nat.lt_succ_of_le origin),name⟩
  have bound := (List.subperm_of_subset once inside).length_le
  rw [List.length_map,List.length_product,List.length_range,Nat.mul_comm] at bound
  exact bound

/-- A stored state holds the innermost frame of a partial derivation, and its parent leads to the others. -/
theorem Meaningful.holds (meaningful : arena.Meaningful grammar tokens) {id : Nat} {stored : StoredState}
    (found : arena.states[id]? = some stored) : ∃ frame frames read, Holds arena tokens stored frame ∧
      (∀ parent ∈ stored.parent, parent < id) ∧ Leads arena tokens stored.parent frames ∧
      PartialDerivation grammar (frame :: frames) read := by
  obtain ⟨-,frames,leads,⟨read,derivation,-⟩,-⟩ := meaningful.states found
  cases leads with
  | cons here holds ascends above =>
    obtain rfl := Option.some.inj (found.symm.trans here)
    exact ⟨_,_,read,holds,ascends,above,derivation⟩

theorem Meaningful.parent (meaningful : arena.Meaningful grammar tokens) {id parent : Nat} {stored : StoredState}
    (found : arena.states[id]? = some stored) (link : parent ∈ stored.parent) : parent < id ∧
      ∃ above, arena.states[parent]? = some above ∧ above.next? = some (.nonterminal stored.name) ∧
        above.origin ≤ stored.origin := by
  obtain ⟨frame,frames,read,holds,ascends,leads,derivation⟩ := meaningful.holds found
  refine ⟨ascends parent link,?_⟩
  rw [Option.mem_def.mp link] at leads
  cases leads with
  | @cons _ above outer _ there waiting =>
    cases derivation with
    | push below waits valid placed =>
      refine ⟨above,there,?_,?_⟩
      · rw [waiting.next?,waits,holds.name]
        rfl
      · rw [waiting.origin,holds.origin,placed]
        exact below.origin_le outer List.mem_cons_self

theorem Meaningful.child (meaningful : arena.Meaningful grammar tokens) {id child : Nat} {node : StoredNode}
    (found : arena.nodes[id]? = some node) (member : child ∈ node.children) : child < id := by
  obtain ⟨tree,unfolds⟩ := meaningful.nodes id (Array.getElem?_eq_some_iff.mp found).1
  cases tree with
  | leaf token =>
    obtain ⟨index,stored,-⟩ := (tree?_eq_leaf_iff id token).mp unfolds
    obtain rfl := Option.some.inj (found.symm.trans stored)
    simp [StoredNode.children] at member
  | branch name trees =>
    obtain ⟨children,stored,all⟩ := (tree?_eq_branch_iff id name trees).mp unfolds
    obtain rfl := Option.some.inj (found.symm.trans stored)
    obtain ⟨tree,less,-⟩ := exists_related all child member
    exact less

/-- What is meaningful is well-formed: the indices are in range because what they refer to was found. -/
theorem Meaningful.wellFormed (meaningful : arena.Meaningful grammar tokens) : arena.WellFormed grammar tokens where
  rule stored member := by
    obtain ⟨id,found⟩ := Array.getElem?_of_mem member
    obtain ⟨frame,frames,read,holds,-,-,derivation⟩ := meaningful.holds found
    have alternative := (derivation.valid frame List.mem_cons_self).alternative
    rw [← holds.production] at alternative
    exact ⟨((Grammar.mem_alternatives_iff grammar _ _).mp alternative).2,(meaningful.states found).matched⟩
  parent found _ link := meaningful.parent found link
  origin stored member := by
    obtain ⟨id,found⟩ := Array.getElem?_of_mem member
    have here : stored ∈ arena.lineage id := by
      rw [Arena.lineage,found]
      exact List.mem_cons_self
    exact ((meaningful.lineage id).2 stored here).1
  distinct _ _ := meaningful.distinct
  depth := meaningful.length_lineage_le
  node stored member := by
    obtain ⟨id,found⟩ := Array.getElem?_of_mem member
    obtain ⟨frame,frames,read,holds,-⟩ := meaningful.holds found
    exact lt_of_tree? holds.tree
  child found _ := meaningful.child found
  token {id index} found := by
    obtain ⟨tree,unfolds⟩ := meaningful.nodes id (Array.getElem?_eq_some_iff.mp found).1
    rw [tree?,found] at unfolds
    obtain ⟨token,read,-⟩ := Option.map_eq_some_iff.mp unfolds
    exact (Array.getElem?_eq_some_iff.mp read).1
  tree := meaningful.nodes

end Arena

/-- From the first entry to the end of a parse, whatever the schedule, every arena is well-formed for the tokens read so
    far: after each state and each node that is stored, after each compaction and after each token. No link
    leads nowhere, so the parse has a result, and a tree that it returns is found in the last arena. -/
theorem parseHistory_wellFormed (schedule : Schedule) (threshold : Nat) (grammar : Grammar) (options : Options)
    (stream : TokenStream) :
    (∀ point ∈ parseHistory schedule threshold grammar options stream, point.arena.WellFormed grammar point.read) ∧
    List.IsChain Follows (⟨#[],{}⟩ :: parseHistory schedule threshold grammar options stream) ∧
    ∃ outcome last, parseStored schedule threshold grammar options stream = some outcome ∧
      (⟨#[],{}⟩ :: parseHistory schedule threshold grammar options stream).getLast? = some last ∧
      last.Concludes stream.tokens outcome := by
  obtain ⟨last,passes,concludes⟩ := exists_passes_parseHistory schedule threshold grammar options stream
  refine ⟨fun point member => (passes.all point member).wellFormed,passes.isChain,?_⟩
  exact ⟨_,last,parseStored_eq schedule threshold grammar options stream,passes.getLast?,concludes⟩

end CFrontend.Parser
