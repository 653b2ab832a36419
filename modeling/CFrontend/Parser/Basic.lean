import CFrontend.Parser.Error
import CFrontend.Parser.State

/-!
All partial derivations advance together, one token at a time. A pass expands them until each
waits for a token or is complete; then those that accept the token go on. Derivations are expanded
depth first in the order of the alternatives, so the order of the results depends on the grammar
alone.
-/
namespace CFrontend.Parser

/-- What happens when more than one tree is left. -/
inductive AmbiguityPolicy where
  /-- All trees are reported. -/
  | error
  /-- The first tree is taken, in the order of the alternatives. -/
  | first
  /-- A policy without a name, which reports all trees. -/
  | unknown
deriving DecidableEq, Repr

namespace AmbiguityPolicy

def name : AmbiguityPolicy → String
  | .error => "error"
  | .first => "first"
  | .unknown => "unknown"

/-- The policy with a number. -/
def ofCode (code : Int) : AmbiguityPolicy :=
  if code = 0 then .error else if code = 1 then .first else .unknown

/-- The policy with a name. -/
def ofName? (name : String) : Option AmbiguityPolicy :=
  if name = "error" then some .error else if name = "first" then some .first else none

end AmbiguityPolicy

/-- How to parse. -/
structure Options where
  /-- The most states that one pass may create, and the most that may wait after it. -/
  maxStates : Nat := 1000000
  ambiguity : AmbiguityPolicy := .error

/-- Sets the most states; numbers below one change nothing. -/
def Options.withMaxStates (options : Options) (count : Int) : Options :=
  if 0 < count then { options with maxStates := count.toNat } else options

/-- A grammar with its recursion index. -/
structure Table where
  grammar : Grammar
  index : Grammar.RecursionIndex

/-- The table of a grammar. -/
def Table.of (grammar : Grammar) : Table := ⟨grammar,grammar.recursionIndex⟩

/-- What expanding one state gives. -/
inductive Expansion where
  /-- The state waits for a token of a kind. -/
  | waiting (kind : TokenKind)
  /-- The state derives all tokens so far, with the given tree. -/
  | complete (tree : Tree)
  /-- The states that take its place, and how many were created for them. -/
  | into (states : List State) (created : Nat)

/-- Expands a state before the token with the given number. -/
def expand (table : Table) (current : Nat) (state : State) : Expansion :=
  match state.frame.rest with
  | [] => match state.ancestors with
    | [] => .complete state.frame.tree
    | parent :: ancestors =>
      let (states,created) := state.close parent ancestors (table.index.get state.frame.name)
      .into states created
  | .terminal kind :: _ => .waiting kind
  | .nonterminal name :: _ =>
    if state.isLooped name current then .into [] 0
    else
      let states := state.predict (table.grammar.alternatives name) current
      .into states states.length

/-- The states that wait for a token, with the kinds they wait for, and the trees of those that are
    complete. -/
structure Pass where
  pending : List (TokenKind × State)
  complete : List Tree

/-- Expands the states on a stack until none is left, or until more than `limit` were created or
    wait. The results so far are kept last one first; `waiting` is the number of pending states. -/
def expandAll (table : Table) (limit current : Nat) (created waiting : Nat)
    (pending : List (TokenKind × State)) (complete : List Tree) :
    (stack : List State) → Option Pass
  | [] => some ⟨pending.reverse,complete.reverse⟩
  | state :: stack =>
    if limit < created || limit < waiting then none
    else match expand table current state with
      | .waiting kind =>
        expandAll table limit current created (waiting + 1) ((kind,state) :: pending) complete
          stack
      | .complete tree =>
        expandAll table limit current created waiting pending (tree :: complete) stack
      | .into states count =>
        if count = 0 then expandAll table limit current created waiting pending complete stack
        else expandAll table limit current (created + count) waiting pending complete
          (states ++ stack)
termination_by stack => (limit + 1 - created,stack.length)
decreasing_by all_goals simp_wf; simp_all; omega

/-- One pass over the live states, or nothing when it exceeds the limit. -/
def pass (table : Table) (limit current : Nat) (live : List State) : Option Pass :=
  expandAll table limit current 0 0 [] [] live

/-- Kinds in ascending order, without repetition. -/
def sortedKinds (kinds : List TokenKind) : List TokenKind :=
  kinds.eraseDups.mergeSort fun a b => a.code ≤ b.code

/-- The states that go on with a token. -/
def scan (token : Token) (pending : List (TokenKind × State)) : List State :=
  (pending.filter fun (kind,_) => kind == token.kind).map fun (_,state) =>
    state.advance (.leaf token)

/-- The trees without those that agree with an earlier one. -/
def distinct (trees : List Tree) : List Tree :=
  (trees.foldl (fun kept tree => if kept.any tree.same then kept else tree :: kept) []).reverse

/-- Settles on one of the trees of the whole input, of which there is at least one. -/
def choose (policy : AmbiguityPolicy) : List Tree → Except ParseError Tree
  | [tree] => .ok tree
  | trees => match distinct trees with
    | [tree] => .ok tree
    | tree :: others =>
      if policy = .first then .ok tree else .error (.ambiguous (tree :: others))
    | [] => .error (.ambiguous [])

/-- Settles on the result of the last pass. -/
def settle (policy : AmbiguityPolicy) (pos : Position) (result : Pass) : Except ParseError Tree :=
  match result.complete with
  | [] => .error (.incomplete pos (sortedKinds (result.pending.map (·.1))))
  | trees => choose policy trees

/-- How a sequence of tokens ends. -/
inductive Ending where
  /-- It ends at a place. -/
  | finished (pos : Position)
  /-- What follows is no token. -/
  | broken (error : ParseError)

/-- A sequence of tokens. -/
structure TokenStream where
  tokens : List Token
  ending : Ending

namespace TokenStream

/-- The tokens of a source. -/
def ofSource (source : Source) : TokenStream :=
  let (items,lexer) := (Lexer.start source).all
  let (tokens,stop) := Item.tokens items
  match stop with
  | some (.error error) => ⟨tokens,.broken (.lexical error)⟩
  | some (.failure message) => ⟨tokens,.broken (.unreadable message)⟩
  | _ => ⟨tokens,.finished lexer.pos⟩

/-- A sequence of given tokens, which ends where the last one stands. -/
def ofTokens (tokens : List Token) : TokenStream :=
  ⟨tokens,.finished ((tokens.getLast?.map (·.pos)).getD .origin)⟩

end TokenStream

/-- Goes on with the live states before the token with the given number. -/
def run (table : Table) (options : Options) (ending : Ending) :
    (current : Nat) → (live : List State) → List Token → Except ParseError Tree
  | current, live, [] => match ending with
    | .broken error => .error error
    | .finished pos => match pass table options.maxStates current live with
      | none => .error (.stateLimit options.maxStates pos)
      | some result => settle options.ambiguity pos result
  | current, live, token :: rest => match pass table options.maxStates current live with
    | none => .error (.stateLimit options.maxStates token.pos)
    | some result => match scan token result.pending with
      | [] =>
        let expected := sortedKinds (result.pending.map (·.1))
        .error (.unexpected token expected !result.complete.isEmpty)
      | survivors => run table options ending (current + 1) survivors rest

/-- The states before the first token. -/
def initial (grammar : Grammar) : List State :=
  (grammar.alternatives grammar.start).map State.root

/-- Parses a sequence of tokens. -/
def parse (grammar : Grammar) (options : Options) (stream : TokenStream) : Except ParseError Tree :=
  run (Table.of grammar) options stream.ending 0 (initial grammar) stream.tokens

end CFrontend.Parser
