import CFrontend.Parser.Basic
import CFrontend.Parser.Compaction

/-!
The parser with its derivations stored in an arena. A pass expands stored states, and after each
token a schedule decides whether the arena is compacted. There is no result where a link of the
arena leads nowhere.
-/
namespace CFrontend.Parser

/-- What expanding a stored state gives. -/
inductive StoredExpansion where
  /-- The state waits for a token. -/
  | waiting
  /-- The state derives all tokens so far. -/
  | complete
  /-- The states that take its place. -/
  | into (ids : List Nat)

/-- How a pass over stored states ends. -/
inductive StoredPass where
  /-- With the states that wait and those that are complete. -/
  | passed (arena : Arena) (pending complete : Array Nat)
  /-- With more states than the limit. -/
  | exceeded

namespace Arena

/-! ### A pass -/

/-- Expands a state before the token with the given number. -/
def expand (table : Table) (current : Nat) (arena : Arena) (id : Nat) :
    Option (Arena × StoredExpansion) :=
  match arena.states[id]? with
  | none => none
  | some state => match state.next? with
    | none => match state.parent with
      | none => some (arena,.complete)
      | some parent =>
        (arena.close state parent (table.index.get state.name)).map fun (arena,ids) =>
          (arena,.into ids)
    | some (.terminal _) => some (arena,.waiting)
    | some (.nonterminal name) => match arena.isLooped id name current with
      | none => none
      | some true => some (arena,.into [])
      | some false =>
        let (arena,ids) := predict current id name arena (table.grammar.alternatives name)
        some (arena,.into ids)

/-- What expanding a state can do: nothing, close the state, or predict a nonterminal. -/
theorem expand_cases {table : Table} {current : Nat} {arena grown : Arena} {id : Nat}
    {result : StoredExpansion} (expanded : arena.expand table current id = some (grown,result)) :
    (grown = arena ∧ ∀ ids, result = .into ids → ids = []) ∨
    (∃ state parent ids, result = .into ids ∧
      arena.close state parent (table.index.get state.name) = some (grown,ids)) ∨
    ∃ name, result = .into (predict current id name arena (table.grammar.alternatives name)).2 ∧
      grown = (predict current id name arena (table.grammar.alternatives name)).1 := by
  simp only [expand] at expanded
  split at expanded
  · simp at expanded
  · rename_i state _
    split at expanded
    · split at expanded
      · obtain ⟨rfl,rfl⟩ := Prod.mk.inj (Option.some.inj expanded)
        simp
      · rename_i parent _
        obtain ⟨⟨after,ids⟩,closed,same⟩ := Option.map_eq_some_iff.mp expanded
        obtain ⟨rfl,rfl⟩ := Prod.mk.inj same
        exact .inr (.inl ⟨state,parent,ids,rfl,closed⟩)
    · obtain ⟨rfl,rfl⟩ := Prod.mk.inj (Option.some.inj expanded)
      simp
    · rename_i name _
      split at expanded
      · simp at expanded
      · obtain ⟨rfl,rfl⟩ := Prod.mk.inj (Option.some.inj expanded)
        simp
      · obtain ⟨rfl,rfl⟩ := Prod.mk.inj (Option.some.inj expanded)
        exact .inr (.inr ⟨name,rfl,rfl⟩)

/-- Expanding stores states as long as it puts any in the place of the expanded one. -/
theorem size_expand {table : Table} {current : Nat} {arena grown : Arena} {id : Nat}
    {result : StoredExpansion} (expanded : arena.expand table current id = some (grown,result)) :
    arena.states.size ≤ grown.states.size ∧
      ∀ ids, result = .into ids → ids = [] ∨ arena.states.size < grown.states.size := by
  rcases expand_cases expanded with ⟨rfl,none⟩ | ⟨state,parent,ids,rfl,closed⟩ | ⟨name,rfl,rfl⟩
  · exact ⟨Nat.le_refl _,fun ids into => .inl (none ids into)⟩
  · have stored := size_close closed
    exact ⟨Nat.le_of_lt stored,fun _ _ => .inr stored⟩
  · simp only [size_predict,StoredExpansion.into.injEq,forall_eq']
    rw [← List.length_eq_zero_iff,length_predict]
    omega

/-- Expands the states on a stack until none is left, or until more than `limit` wait or were
    stored since there were `base` of them. -/
def forward (table : Table) (limit current base : Nat) (arena : Arena)
    (pending complete : Array Nat) : (stack : List Nat) → Option StoredPass
  | [] => some (.passed arena pending complete)
  | id :: stack =>
    if limit < arena.states.size - base || limit < pending.size then some .exceeded
    else match _ : arena.expand table current id with
      | none => none
      | some (arena,.waiting) =>
        arena.forward table limit current base (pending.push id) complete stack
      | some (arena,.complete) =>
        arena.forward table limit current base pending (complete.push id) stack
      | some (arena,.into ids) =>
        arena.forward table limit current base pending complete (ids ++ stack)
termination_by stack => (base + limit + 1 - arena.states.size,stack.length)
decreasing_by
  all_goals
    rename_i exceeds expanded
    obtain ⟨kept,stored⟩ := size_expand expanded
    simp only [Bool.or_eq_true,decide_eq_true_eq,not_or] at exceeds
    simp only [Prod.lex_def,List.length_cons]
    grind

/-- One pass over the live states. -/
def pass (table : Table) (limit current : Nat) (arena : Arena) (live : List Nat) :
    Option StoredPass :=
  arena.forward table limit current arena.states.size #[] #[] live

/-! ### Between passes -/

/-- The kind of token that a state waits for. -/
def awaited (arena : Arena) (id : Nat) : Option TokenKind :=
  match (arena.states[id]?).bind StoredState.next? with
  | some (.terminal kind) => some kind
  | _ => none

/-- Advances the pending states that wait for a token of a kind, and collects the kinds that the
    others wait for. The leaf of the token is stored with the first state that goes on. -/
def scan (kind : TokenKind) (token : Nat) (arena : Arena) (leaf : Option Nat)
    (survivors : Array Nat) (missed : Array TokenKind) :
    List Nat → Option (Arena × Array Nat × Array TokenKind)
  | [] => some (arena,survivors,missed)
  | id :: pending =>
    match arena.states[id]? with
    | none => none
    | some state => match state.next? with
      | some (.terminal wanted) =>
        if wanted == kind then
          let (arena,leaf) := arena.leafFor token leaf
          match arena.advance state leaf with
          | none => none
          | some (arena,id) =>
            scan kind token arena (some leaf) (survivors.push id) missed pending
        else scan kind token arena leaf survivors (missed.push wanted) pending
      | _ => none

/-- Settles on the result of the last pass. -/
def settle (arena : Arena) (policy : AmbiguityPolicy) (pos : Position) (tokens : Array Token)
    (pending complete : Array Nat) : Option (Except ParseError Tree) :=
  match complete.toList with
  | [] => (pending.toList.mapM arena.awaited).map fun kinds =>
    .error (.incomplete pos (sortedKinds kinds))
  | ids => (ids.mapM (arena.treeOf? tokens)).map (choose policy)

end Arena

/-- When to compact an arena, by the number of tokens read, the size from which it should be, and
    the arena itself. -/
def Schedule : Type := (count threshold : Nat) → Arena → Bool

namespace Schedule

/-- An arena is compacted when it has grown to the size from which it should be. -/
def bySize : Schedule := fun _ threshold arena => threshold ≤ arena.size

/-- No arena is ever compacted. -/
def never : Schedule := fun _ _ _ => false

/-- The least size from which an arena should be compacted. -/
def minimum : Nat := 65536

end Schedule

/-- Compacts an arena if it is time to, and gives the size from which it should be the next time. -/
def Arena.maintain (schedule : Schedule) (count threshold : Nat) (arena : Arena)
    (live : List Nat) : Option (Arena × List Nat × Nat) :=
  if schedule count threshold arena then
    (arena.compact live).map fun (arena,live) =>
      (arena,live,max Schedule.minimum (2 * arena.size))
  else some (arena,live,threshold)

/-- Goes on with the live states of an arena after the tokens read so far. -/
def runStored (schedule : Schedule) (table : Table) (options : Options) (ending : Ending) :
    (threshold : Nat) → (arena : Arena) → (read : Array Token) → (live : List Nat) →
    List Token → Option (Except ParseError Tree)
  | _, arena, read, live, [] => match ending with
    | .broken error => some (.error error)
    | .finished pos => match arena.pass table options.maxStates read.size live with
      | none => none
      | some .exceeded => some (.error (.stateLimit options.maxStates pos))
      | some (.passed arena pending complete) =>
        arena.settle options.ambiguity pos read pending complete
  | threshold, arena, read, live, token :: rest =>
    match arena.pass table options.maxStates read.size live with
    | none => none
    | some .exceeded => some (.error (.stateLimit options.maxStates token.pos))
    | some (.passed arena pending complete) =>
      match arena.scan token.kind read.size none #[] #[] pending.toList with
      | none => none
      | some (arena,survivors,missed) =>
        if survivors.isEmpty then
          some (.error (.unexpected token (sortedKinds missed.toList) !complete.isEmpty))
        else
          match arena.maintain schedule (read.size + 1) threshold survivors.toList with
          | none => none
          | some (arena,live,threshold) =>
            runStored schedule table options ending threshold arena (read.push token) live rest

/-- Parses a sequence of tokens in an arena, which is compacted by a schedule. -/
def parseStored (schedule : Schedule) (threshold : Nat) (grammar : Grammar) (options : Options)
    (stream : TokenStream) : Option (Except ParseError Tree) :=
  match grammar.alternatives grammar.start with
  | [] => none
  | production :: _ =>
    let (arena,id) := Arena.addPredicted {} grammar.start production none 0
    runStored schedule (Table.of grammar) options stream.ending threshold arena #[] [id]
      stream.tokens

end CFrontend.Parser
