import CFrontend.Proofs.Expansion
import CFrontend.Proofs.Storage

/-!
Expansion in an arena. Each operation on stored states does to them what the operation on partial derivations does
to what they stand for, and it stores as many states as that one counts (`expand_spec`). So a pass over stored
states always has a result, and it is the one of a pass over the derivations (`forward_spec`).
-/
namespace CFrontend.Parser.Arena
open Grammar (Cycle)

variable {grammar : Grammar} {arena : Arena} {tokens : Array Token} {current : Nat}

/-! ### One expansion -/

/-- A predicted state is stored on its parent. -/
theorem addPredicted_spec {production : Production} {name : String} (named : production.rule.lhs = name)
    (origin : Nat) {link : Option Nat} {frames : List Frame} (sound : arena.Sound)
    (above : Leads arena tokens link frames) :
    Extends arena (arena.addPredicted name production link origin).1 ∧
      Leads (arena.addPredicted name production link origin).1 tokens
        (some (arena.addPredicted name production link origin).2) (.predicted production origin :: frames) := by
  obtain ⟨growth,empty⟩ := emptyNode_spec arena tokens name sound
  refine ⟨growth.trans (extends_addState _ _),leads_addState ⟨rfl,rfl,rfl,?_⟩ (growth.leads above)⟩
  exact empty.trans (by rw [← named]; rfl)

private theorem predict_spec {id : Nat} {name : String} {state : State} (productions : List Production)
    (named : ∀ production ∈ productions, production.rule.lhs = name) (sound : arena.Sound)
    (represents : Represents arena tokens id state) :
    Extends arena (predict current id name arena productions).1 ∧
      List.Forall₂ (Represents (predict current id name arena productions).1 tokens)
        (predict current id name arena productions).2 (state.predict productions current) := by
  induction productions generalizing arena with
  | nil => exact ⟨.refl arena,.nil⟩
  | cons production rest ih =>
    obtain ⟨first,added⟩ := addPredicted_spec (named production (by simp)) current sound represents
    obtain ⟨second,others⟩ := ih (fun later member => named later (by simp [member])) (first.sound sound)
      (first.represents represents)
    exact ⟨first.trans second,.cons (second.leads added) others⟩

/-- Growing a cycle that is not empty gives a state, and the stored one stands for it. -/
theorem growInto_spec {node parent : Nat} {tree : Tree} {frames : List Frame} (origin : Nat) (cycle : Cycle)
    (nonempty : cycle ≠ []) (sound : arena.Sound) (finished : arena.tree? tokens node = some tree)
    (above : Leads arena tokens (some parent) frames) :
    ∃ state, State.growInto tree origin cycle frames = some state ∧
      Extends arena (growInto node origin arena parent cycle).1 ∧
      Represents (growInto node origin arena parent cycle).1 tokens (growInto node origin arena parent cycle).2 state := by
  induction cycle generalizing arena parent frames with
  | nil => exact absurd rfl nonempty
  | cons step cycle ih =>
    cases cycle with
    | nil =>
      have first := extends_addNode arena (.branch step.rule.lhs [node])
      exact ⟨_,rfl,first.trans (extends_addState _ _),
        leads_addState ⟨rfl,List.drop_one,rfl,tree?_addNode (.cons finished .nil)⟩ (first.leads above)⟩
    | cons second others =>
      obtain ⟨first,added⟩ := addPredicted_spec (rfl : step.rule.lhs = _) origin sound above
      obtain ⟨state,grows,later,represents⟩ := ih (by simp) (first.sound sound) (first.tree? finished) added
      exact ⟨state,grows,first.trans later,represents⟩

/-- Whether a cycle may grow is told by the stored frames as by the frames they stand for. -/
theorem mayGrow_spec {stored : StoredState} {state : State} {parent : Nat} (holds : Holds arena tokens stored state.frame)
    (above : Leads arena tokens (some parent) state.ancestors) (cycle : Cycle) :
    arena.mayGrow stored.origin parent cycle = some (state.mayGrow cycle) := by
  rw [mayGrow,anyAbove_spec stored.origin _ above,holds.origin]
  rfl

private theorem growAll_spec {stored : StoredState} {state : State} {parent : Nat} (cycles : List Cycle)
    (nonempty : ∀ cycle ∈ cycles, cycle ≠ []) (sound : arena.Sound) (holds : Holds arena tokens stored state.frame)
    (above : Leads arena tokens (some parent) state.ancestors) :
    ∃ grown ids, growAll stored parent arena cycles = some (grown,ids) ∧ Extends arena grown ∧
      List.Forall₂ (Represents grown tokens) ids ((cycles.filter state.mayGrow).filterMap state.grow) ∧
      grown.states.size = arena.states.size + (cycles.filter state.mayGrow).flatten.length := by
  induction cycles generalizing arena with
  | nil => exact ⟨arena,[],rfl,.refl arena,.nil,rfl⟩
  | cons cycle rest ih =>
    have others := fun later member => nonempty later (List.mem_cons_of_mem cycle member)
    rw [growAll,mayGrow_spec holds above]
    cases allowed : state.mayGrow cycle with
    | false =>
      simp only [List.filter_cons_of_neg (by simp [allowed] : ¬ state.mayGrow cycle = true)]
      exact ih others sound holds above
    | true =>
      obtain ⟨next,grows,first,added⟩ := 
        growInto_spec stored.origin cycle (nonempty cycle (by simp)) sound holds.tree above
      obtain ⟨grown,ids,rest,second,represents,size⟩ :=
        ih others (first.sound sound) (first.holds holds) (first.leads above)
      refine ⟨grown,_ :: ids,by simp only [rest,Option.map_some]; rfl,first.trans second,?_,?_⟩
      · have grows : state.grow cycle = some next := by rw [State.grow,← holds.origin]; exact grows
        rw [List.filter_cons_of_pos allowed,List.filterMap_cons_some grows]
        exact .cons (second.represents added) represents
      · rw [size,size_growInto,List.filter_cons_of_pos allowed,List.flatten_cons,List.length_append]
        omega

private theorem close_spec {stored : StoredState} {state : State} {parent : Nat} {frame : Frame} {ancestors : List Frame}
    (cycles : List Cycle) (nonempty : ∀ cycle ∈ cycles, cycle ≠ []) (sound : arena.Sound)
    (holds : Holds arena tokens stored state.frame) (below : state.ancestors = frame :: ancestors)
    (above : Leads arena tokens (some parent) state.ancestors) :
    ∃ grown ids, arena.close stored parent cycles = some (grown,ids) ∧ Extends arena grown ∧
      List.Forall₂ (Represents grown tokens) ids (state.close frame ancestors cycles).1 ∧
      grown.states.size = arena.states.size + (state.close frame ancestors cycles).2 := by
  have chain := above
  rw [below] at chain
  cases chain with
  | cons found outer ascends outermost =>
    obtain ⟨middle,id,advanced,first,added⟩ := advance_spec outer outermost holds.tree
    obtain ⟨grown,ids,grows,second,represents,size⟩ :=
      growAll_spec cycles nonempty (first.sound sound) (first.holds holds) (first.leads above)
    refine ⟨grown,id :: ids,by simp only [close,found,advanced,grows,Option.map_some],first.trans second,
      .cons (second.leads added) represents,?_⟩
    rw [size,size_advance advanced]
    exact Nat.add_assoc _ _ _

/-- What expanding a stored state gives is what expanding its derivation gives. -/
inductive Agrees (arena : Arena) (tokens : Array Token) (id : Nat) : Arena → StoredExpansion → Expansion → Prop
  | waiting {kind : TokenKind} (awaits : arena.awaited id = some kind) :
      Agrees arena tokens id arena .waiting (.waiting kind)
  | complete {tree : Tree} (found : arena.treeOf? tokens id = some tree) :
      Agrees arena tokens id arena .complete (.complete tree)
  | into {grown : Arena} {ids : List Nat} {states : List State} {count : Nat} (growth : Extends arena grown)
      (represents : List.Forall₂ (Represents grown tokens) ids states)
      (size : grown.states.size = arena.states.size + count) :
      Agrees arena tokens id grown (.into ids) (.into states count)

theorem cycles_ne_nil (grammar : Grammar) (name : String) :
    ∀ cycle ∈ (Table.of grammar).index.get name, cycle ≠ [] := by
  intro cycle member
  have recorded := (Grammar.recursionIndex_get grammar name).symm ▸ member
  exact ((Grammar.mem_cycles_iff grammar name cycle).mp recorded).1.1

/-- Expanding a stored state gives stored states for those that the state expands into, and finds everything that it refers to. -/
theorem expand_spec (grammar : Grammar) (current : Nat) {id : Nat} {state : State} (sound : arena.Sound)
    (represents : Represents arena tokens id state) :
    ∃ grown result, arena.expand (Table.of grammar) current id = some (grown,result) ∧
      Agrees arena tokens id grown result (Parser.expand (Table.of grammar) current state) := by
  have whole := represents
  cases represents with
  | @cons _ stored _ _ found holds ascends above =>
    rw [expand,found]
    simp only [holds.next?]
    unfold Parser.expand
    cases rest : state.frame.rest with
    | nil =>
      cases link : stored.parent with
      | none =>
        rw [link] at above
        cases outer : state.ancestors with
        | cons frame ancestors => rw [outer] at above; cases above
        | nil => exact ⟨arena,.complete,rfl,.complete (by simp only [treeOf?,found]; exact holds.tree)⟩
      | some parent =>
        rw [link] at above
        cases outer : state.ancestors with
        | nil => rw [outer] at above; cases above
        | cons frame ancestors =>
          obtain ⟨grown,ids,closed,growth,represents,size⟩ :=
            close_spec _ (cycles_ne_nil grammar state.frame.name) sound holds outer above
          exact ⟨grown,.into ids,by simp only [List.head?_nil,holds.name,closed,Option.map_some],
            .into growth represents size⟩
    | cons symbol tail =>
      cases symbol with
      | terminal kind => exact ⟨arena,.waiting,rfl,.waiting (by simp [awaited,found,holds.next?,rest])⟩
      | nonterminal name =>
        have looped : arena.isLooped id name current = some (state.isLooped name current) :=
          anyAbove_spec current _ whole
        simp only [List.head?_cons,looped]
        cases state.isLooped name current with
        | true => exact ⟨arena,.into [],rfl,.into (.refl arena) .nil rfl⟩
        | false =>
          have named : ∀ production ∈ grammar.alternatives name, production.rule.lhs = name :=
            fun _ member => Grammar.lhs_of_mem_alternatives member
          obtain ⟨growth,represents⟩ := predict_spec _ named sound whole
          exact ⟨_,_,rfl,.into growth represents (by simp [State.predict])⟩

/-! ### A pass -/

/-- A pending state stands for a derivation that waits for the kind. -/
def Pending (arena : Arena) (tokens : Array Token) (id : Nat) (entry : TokenKind × State) : Prop :=
  arena.awaited id = some entry.1 ∧ Represents arena tokens id entry.2

/-- What a pass over stored states gives is what the pass over their derivations gives. -/
inductive PassesAs (arena : Arena) (tokens : Array Token) : StoredPass → Option Pass → Prop
  | passed {grown : Arena} {pending complete : Array Nat} {result : Pass} (growth : Extends arena grown)
      (waits : List.Forall₂ (Pending grown tokens) pending.toList result.pending)
      (done : List.Forall₂ (fun id tree => grown.treeOf? tokens id = some tree) complete.toList result.complete) :
      PassesAs arena tokens (.passed grown pending complete) (some result)
  | exceeded : PassesAs arena tokens .exceeded none

/-- Goes on with a pass after the state on top of the stack is expanded. -/
def forwardAfter (table : Table) (limit current base : Nat) (arena : Arena) (pending complete : Array Nat) (id : Nat)
    (stack : List Nat) : StoredExpansion → Option StoredPass
  | .waiting => arena.forward table limit current base (pending.push id) complete stack
  | .complete => arena.forward table limit current base pending (complete.push id) stack
  | .into ids => arena.forward table limit current base pending complete (ids ++ stack)

/-- A state is worked on unless a limit is exceeded before. -/
theorem forward_cons (table : Table) (limit current base : Nat) (arena : Arena) (pending complete : Array Nat) (id : Nat)
    (stack : List Nat) :
    arena.forward table limit current base pending complete (id :: stack) =
      if limit < arena.states.size - base || limit < pending.size then some .exceeded
      else (arena.expand table current id).bind fun (grown,result) =>
        grown.forwardAfter table limit current base pending complete id stack result := by
  rw [forward]
  split
  · rfl
  · split <;> simp_all [forwardAfter]

theorem Extends.pending {grown : Arena} (growth : Extends arena grown) {id : Nat} {entry : TokenKind × State}
    (pending : Pending arena tokens id entry) : Pending grown tokens id entry := by
  obtain ⟨awaited,represents⟩ := pending
  refine ⟨?_,growth.represents represents⟩
  cases represents with
  | cons found => simpa [Arena.awaited,found,growth.states found] using awaited

theorem Extends.treeOf? {grown : Arena} (growth : Extends arena grown) {id : Nat} {tree : Tree}
    (found : arena.treeOf? tokens id = some tree) : grown.treeOf? tokens id = some tree := by
  unfold Arena.treeOf? at *
  split at found
  · simp at found
  · rename_i stored here
    simp only [growth.states here]
    exact growth.tree? found

theorem PassesAs.trans {grown : Arena} {result : StoredPass} {pass : Option Pass} (growth : Extends arena grown)
    (passes : PassesAs grown tokens result pass) : PassesAs arena tokens result pass := by
  cases passes with
  | passed later waits done => exact .passed (growth.trans later) waits done
  | exceeded => exact .exceeded

/-- The numbers that a pass over stored states keeps stand for what a pass over derivations keeps. -/
structure Tracks (arena : Arena) (tokens : Array Token) (pending complete : Array Nat) (stack : List Nat)
    (entries : List (TokenKind × State)) (trees : List Tree) (states : List State) : Prop where
  waits : List.Forall₂ (Pending arena tokens) pending.toList entries.reverse
  done : List.Forall₂ (fun id tree => arena.treeOf? tokens id = some tree) complete.toList trees.reverse
  live : List.Forall₂ (Represents arena tokens) stack states

private theorem Extends.tracks {grown : Arena} {pending complete : Array Nat} {stack : List Nat}
    {entries : List (TokenKind × State)} {trees : List Tree} {states : List State} (growth : Extends arena grown)
    (tracks : Tracks arena tokens pending complete stack entries trees states) :
    Tracks grown tokens pending complete stack entries trees states :=
  ⟨tracks.waits.imp fun _ _ => growth.pending,tracks.done.imp fun _ _ => growth.treeOf?,
    tracks.live.imp fun _ _ => growth.represents⟩

/-- Within the limit a pass goes on with what expanding the state on top of the stack gives. -/
theorem forward_step (grammar : Grammar) (current : Nat) {limit base created waiting : Nat} {pending : Array Nat}
    (complete : Array Nat) {id : Nat} (stack : List Nat) {state : State} (sound : arena.Sound)
    (size : arena.states.size = base + created) (count : pending.size = waiting)
    (within : ¬ (limit < created || limit < waiting) = true) (first : Represents arena tokens id state) :
    ∃ grown result, arena.forward (Table.of grammar) limit current base pending complete (id :: stack) =
        grown.forwardAfter (Table.of grammar) limit current base pending complete id stack result ∧
      Agrees arena tokens id grown result (Parser.expand (Table.of grammar) current state) := by
  obtain ⟨grown,result,stored,agrees⟩ := expand_spec grammar current sound first
  have same : arena.states.size - base = created := by omega
  refine ⟨grown,result,?_,agrees⟩
  rw [forward_cons,same,count,if_neg within,stored]
  rfl

/-- A pass over stored states has a result, and it is the one of a pass over what they stand for. The induction goes
    along the pass over the derivations; the arena grows under it, and what is stored keeps its meaning. -/
theorem forward_spec {limit base created waiting : Nat} {pending complete : Array Nat} {stack : List Nat}
    {entries : List (TokenKind × State)} {trees : List Tree} {states : List State}
    (sound : arena.Sound) (size : arena.states.size = base + created) (count : pending.size = waiting)
    (tracks : Tracks arena tokens pending complete stack entries trees states) :
    ∃ result, arena.forward (Table.of grammar) limit current base pending complete stack = some result ∧
      PassesAs arena tokens result (expandAll (Table.of grammar) limit current created waiting entries trees states) := by
  fun_induction expandAll (Table.of grammar) limit current created waiting entries trees states
    generalizing arena pending complete stack with
  | case1 created waiting entries trees =>
    obtain ⟨waits,done,live⟩ := tracks
    cases live
    exact ⟨.passed arena pending complete,by rw [forward],.passed (.refl arena) waits done⟩
  | case2 created waiting entries trees state stack exceeds =>
    obtain ⟨waits,done,live⟩ := tracks
    cases live with
    | cons first rest =>
      have same : arena.states.size - base = created := by omega
      exact ⟨.exceeded,by rw [forward_cons,same,count,if_pos exceeds],.exceeded⟩
  | case3 created waiting entries trees state stack within kind expanded ih =>
    obtain ⟨waits,done,live⟩ := tracks
    cases live with
    | @cons id _ ids _ first rest =>
      obtain ⟨grown,result,stored,agrees⟩ := forward_step grammar current complete ids sound size count within first
      rw [stored]
      rw [expanded] at agrees
      cases agrees with
      | waiting awaits =>
        refine ih sound size (by simp [count]) ⟨?_,done,rest⟩
        simpa using List.rel_append waits (.cons ⟨awaits,first⟩ .nil)
  | case4 created waiting entries trees state stack within tree expanded ih =>
    obtain ⟨waits,done,live⟩ := tracks
    cases live with
    | @cons id _ ids _ first rest =>
      obtain ⟨grown,result,stored,agrees⟩ := forward_step grammar current complete ids sound size count within first
      rw [stored]
      rw [expanded] at agrees
      cases agrees with
      | complete found =>
        refine ih sound size count ⟨waits,?_,rest⟩
        simpa using List.rel_append done (.cons found .nil)
  | case5 created waiting entries trees state stack within states expanded ih =>
    obtain ⟨waits,done,live⟩ := tracks
    cases live with
    | @cons id _ ids _ first rest =>
      obtain ⟨grown,result,stored,agrees⟩ := forward_step grammar current complete ids sound size count within first
      rw [stored]
      rw [expanded] at agrees
      cases agrees with
      | into growth represents more =>
        -- Nothing was stored, so nothing takes the place of the state.
        obtain rfl := expand_none expanded
        cases represents
        obtain ⟨result,passed,passes⟩ := ih (growth.sound sound) (more.trans size) count (growth.tracks ⟨waits,done,rest⟩)
        exact ⟨result,passed,passes.trans growth⟩
  | case6 created waiting entries trees state stack within states new expanded some ih =>
    obtain ⟨waits,done,live⟩ := tracks
    cases live with
    | @cons id _ ids _ first rest =>
      obtain ⟨grown,result,stored,agrees⟩ := forward_step grammar current complete ids sound size count within first
      rw [stored]
      rw [expanded] at agrees
      cases agrees with
      | into growth represents more =>
        obtain ⟨waits,done,live⟩ := growth.tracks ⟨waits,done,rest⟩
        obtain ⟨result,passed,passes⟩ := ih (growth.sound sound) (by omega) count
          ⟨waits,done,List.rel_append represents live⟩
        exact ⟨result,passed,passes.trans growth⟩

end CFrontend.Parser.Arena
