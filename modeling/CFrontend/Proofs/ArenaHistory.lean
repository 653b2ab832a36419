import CFrontend.Parser.Stored
import Mathlib.Data.List.Chain

/-!
The history of an arena: every arena that a parse passes through, one for each state or node that it stores and for each
compaction. The history of an operation is read off the operation, and it leads to the arena that the operation leaves
(`Passes`); the history of a parse also has a point for each token that is read.
-/
namespace CFrontend.Parser

/-! ### Paths -/

/-- Points with a property, each of which follows the one before it, lead from one point to another. -/
inductive Passes {α : Type} (follows : α → α → Prop) (holds : α → Prop) : α → List α → α → Prop
  | nil (point : α) : Passes follows holds point [] point
  | cons {point next last : α} {points : List α} (step : follows point next) (kept : holds next)
      (rest : Passes follows holds next points last) : Passes follows holds point (next :: points) last

section
variable {α β : Type} {follows : α → α → Prop} {holds : α → Prop} {first middle last : α} {points others : List α}

theorem Passes.single (step : follows first last) (kept : holds last) : Passes follows holds first [last] last :=
  .cons step kept (.nil last)

theorem Passes.append (front : Passes follows holds first points middle) (back : Passes follows holds middle others last) :
    Passes follows holds first (points ++ others) last := by
  induction front with
  | nil => exact back
  | cons step kept _ ih => exact .cons step kept (ih back)

theorem Passes.all (passes : Passes follows holds first points last) : ∀ point ∈ points, holds point := by
  induction passes with
  | nil => simp
  | cons step kept _ ih => exact List.forall_mem_cons.mpr ⟨kept,ih⟩

theorem Passes.holds_last (passes : Passes follows holds first points last) (start : holds first) : holds last := by
  induction passes with
  | nil => exact start
  | cons step kept _ ih => exact ih kept

theorem Passes.isChain (passes : Passes follows holds first points last) : List.IsChain follows (first :: points) := by
  induction passes with
  | nil => exact .singleton _
  | cons step kept _ ih => exact .cons_cons step ih

theorem Passes.getLast? (passes : Passes follows holds first points last) : (first :: points).getLast? = some last := by
  induction passes with
  | nil => rfl
  | cons step kept _ ih => rw [List.getLast?_cons_cons,ih]

/-- Points of one kind are points of another when steps and the property carry over. -/
theorem Passes.map {leads : β → β → Prop} {has : β → Prop} {place : α → β}
    (steps : ∀ {point next}, follows point next → leads (place point) (place next)) (keeps : ∀ {point}, holds point → has (place point))
    (passes : Passes follows holds first points last) : Passes leads has (place first) (points.map place) (place last) := by
  induction passes with
  | nil => exact .nil _
  | cons step kept _ ih => exact .cons (steps step) (keeps kept) ih

end

namespace Arena
open Grammar (Cycle)

/-- One state is stored, or one node, which may be shared from then on. -/
inductive Stores : Arena → Arena → Prop
  | state {arena : Arena} (stored : StoredState) : Stores arena (arena.addState stored).1
  | node {arena : Arena} (node : StoredNode) : Stores arena (arena.addNode node).1
  | childless {arena : Arena} {name : String} (new : arena.childless.lookup name = none) :
      Stores arena (arena.emptyNode name).1

/-! ### Operations -/

def emptyNodeHistory (arena : Arena) (name : String) : List Arena :=
  match arena.childless.lookup name with
  | some _ => []
  | none => [(arena.emptyNode name).1]

def addPredictedHistory (arena : Arena) (name : String) (production : Production) (parent : Option Nat) (origin : Nat) :
    List Arena :=
  arena.emptyNodeHistory name ++ [(arena.addPredicted name production parent origin).1]

def predictHistory (current parent : Nat) (name : String) : Arena → List Production → List Arena
  | _, [] => []
  | arena, production :: rest =>
    arena.addPredictedHistory name production (some parent) current ++
      predictHistory current parent name (arena.addPredicted name production (some parent) current).1 rest

def growIntoHistory (node origin : Nat) : Arena → (parent : Nat) → Cycle → List Arena
  | _, _, [] => []
  | arena, parent, [step] =>
    [(arena.addNode (.branch step.rule.lhs [node])).1,(growInto node origin arena parent [step]).1]
  | arena, parent, step :: cycle =>
    let (grown,id) := arena.addPredicted step.rule.lhs step (some parent) origin
    arena.addPredictedHistory step.rule.lhs step (some parent) origin ++ growIntoHistory node origin grown id cycle

def growAllHistory (state : StoredState) (parent : Nat) : Arena → List Cycle → List Arena
  | _, [] => []
  | arena, cycle :: rest =>
    match arena.mayGrow state.origin parent cycle with
    | none => []
    | some false => growAllHistory state parent arena rest
    | some true =>
      growIntoHistory state.node state.origin arena parent cycle ++
        growAllHistory state parent (growInto state.node state.origin arena parent cycle).1 rest

def advanceHistory (arena : Arena) (state : StoredState) (child : Nat) : List Arena :=
  match arena.withChild state.node child with
  | none => []
  | some (copied,node) =>
    [copied,(copied.addState { state with matched := state.matched + 1,node }).1]

def closeHistory (arena : Arena) (state : StoredState) (parent : Nat) (cycles : List Cycle) : List Arena :=
  match arena.states[parent]? with
  | none => []
  | some above =>
    arena.advanceHistory above state.node ++
      match arena.advance above state.node with
      | none => []
      | some (advanced,_) => growAllHistory state parent advanced cycles

def expandHistory (table : Table) (current : Nat) (arena : Arena) (id : Nat) : List Arena :=
  match arena.states[id]? with
  | none => []
  | some state => match state.next? with
    | none => match state.parent with
      | none => []
      | some parent => arena.closeHistory state parent (table.index.get state.name)
    | some (.terminal _) => []
    | some (.nonterminal name) => match arena.isLooped id name current with
      | none | some true => []
      | some false => predictHistory current id name arena (table.grammar.alternatives name)

/-- The history of a pass, up to the point where it exceeds its limit. -/
def forwardHistory (table : Table) (limit current base : Nat) (arena : Arena) (waiting : Nat) :
    (stack : List Nat) → List Arena
  | [] => []
  | id :: stack =>
    if limit < arena.states.size - base || limit < waiting then []
    else match _ : arena.expand table current id with
      | none => arena.expandHistory table current id
      | some (grown,.waiting) =>
        arena.expandHistory table current id ++ grown.forwardHistory table limit current base (waiting + 1) stack
      | some (grown,.complete) =>
        arena.expandHistory table current id ++ grown.forwardHistory table limit current base waiting stack
      | some (grown,.into ids) =>
        arena.expandHistory table current id ++ grown.forwardHistory table limit current base waiting (ids ++ stack)
termination_by stack => (base + limit + 1 - arena.states.size,stack.length)
decreasing_by
  all_goals
    rename_i exceeds expanded
    obtain ⟨kept,stored⟩ := size_expand expanded
    simp only [Bool.or_eq_true,decide_eq_true_eq,not_or] at exceeds
    simp only [Prod.lex_def,List.length_cons]
    grind

def passHistory (table : Table) (limit current : Nat) (arena : Arena) (live : List Nat) : List Arena :=
  arena.forwardHistory table limit current arena.states.size 0 live

def leafForHistory (arena : Arena) (token : Nat) : (stored : Option Nat) → List Arena
  | some _ => []
  | none => [(arena.leafFor token none).1]

def scanHistory (kind : TokenKind) (token : Nat) (arena : Arena) (leaf : Option Nat) : List Nat → List Arena
  | [] => []
  | id :: pending =>
    match arena.states[id]? with
    | none => []
    | some state => match state.next? with
      | some (.terminal wanted) =>
        if wanted == kind then
          let (leafed,own) := arena.leafFor token leaf
          arena.leafForHistory token leaf ++ leafed.advanceHistory state own ++
            match leafed.advance state own with
            | none => []
            | some (advanced,_) => scanHistory kind token advanced (some own) pending
        else scanHistory kind token arena leaf pending
      | _ => []

def maintainHistory (schedule : Schedule) (count threshold : Nat) (arena : Arena) (live : List Nat) : List Arena :=
  if schedule count threshold arena then
    match arena.compact live with
    | none => []
    | some (compacted,_) => [compacted]
  else []

end Arena

/-! ### A parse -/

/-- The tokens read so far and the arena. -/
structure Point where
  read : Array Token
  arena : Arena

/-- An arena stores one more entry or is compacted, or one more token is read. -/
inductive Follows : Point → Point → Prop
  | store {read : Array Token} {before after : Arena} (stores : Arena.Stores before after) : Follows ⟨read,before⟩ ⟨read,after⟩
  | compact {read : Array Token} {before after : Arena} {live moved : List Nat}
      (compacted : before.compact live = some (after,moved)) : Follows ⟨read,before⟩ ⟨read,after⟩
  | token {read : Array Token} {arena : Arena} (token : Token) : Follows ⟨read,arena⟩ ⟨read.push token,arena⟩

def runHistory (schedule : Schedule) (table : Table) (options : Options) (ending : Ending) :
    (threshold : Nat) → (arena : Arena) → (read : Array Token) → (live : List Nat) → List Token → List Point
  | _, arena, read, live, [] => match ending with
    | .broken _ => []
    | .finished _ => (arena.passHistory table options.maxStates read.size live).map (⟨read,·⟩)
  | threshold, arena, read, live, token :: rest =>
    (arena.passHistory table options.maxStates read.size live).map (⟨read,·⟩) ++
      match arena.pass table options.maxStates read.size live with
      | none | some .exceeded => []
      | some (.passed passed pending _) =>
        ⟨read.push token,passed⟩ ::
          ((passed.scanHistory token.kind read.size none pending.toList).map (⟨read.push token,·⟩) ++
            match passed.scan token.kind read.size none #[] #[] pending.toList with
            | none => []
            | some (scanned,survivors,_) =>
              if survivors.isEmpty then []
              else
                (scanned.maintainHistory schedule (read.size + 1) threshold survivors.toList).map (⟨read.push token,·⟩) ++
                  match scanned.maintain schedule (read.size + 1) threshold survivors.toList with
                  | none => []
                  | some (kept,live,threshold) =>
                    runHistory schedule table options ending threshold kept (read.push token) live rest)

/-- Every point of a parse after the first one, at which nothing is read or stored. -/
def parseHistory (schedule : Schedule) (threshold : Nat) (grammar : Grammar) (options : Options) (stream : TokenStream) :
    List Point :=
  match grammar.alternatives grammar.start with
  | [] => []
  | production :: _ =>
    let (arena,id) := Arena.addPredicted {} grammar.start production none 0
    (Arena.addPredictedHistory {} grammar.start production none 0).map (⟨#[],·⟩) ++
      runHistory schedule (Table.of grammar) options stream.ending threshold arena #[] [id] stream.tokens

end CFrontend.Parser
