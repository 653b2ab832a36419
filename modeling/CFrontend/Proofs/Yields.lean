import CFrontend.Proofs.Outcome

/-!
The trees that a sequence of tokens yields, in the order in which the parser finds them. `Yields` goes on
with traversals token by token, without a limit and without rejecting tokens: no live
states yield no trees. The distinct trees that it yields decide the outcome of a parse that
stays within its limit (`parse_yields`).
-/
namespace CFrontend.Parser

variable {table : Table} {current : Nat}

/-- A state that waits is traversed into the first pending one. -/
theorem Traversal.wait_inv {state : State} {stack : List State} {kind : TokenKind}
    {pending : List (TokenKind × State)} {complete : List Tree}
    (traversal : Traversal table current (state :: stack) pending complete)
    (waits : expand table current state = .waiting kind) :
    ∃ others, pending = (kind,state) :: others ∧ Traversal table current stack others complete := by
  cases traversal with
  | wait own rest =>
    rw [waits,Expansion.waiting.injEq] at own
    exact ⟨_,by rw [own],rest⟩
  | finish own => simp [waits] at own
  | into own => simp [waits] at own

/-- A state that completes a tree is traversed into the first complete one. -/
theorem Traversal.finish_inv {state : State} {stack : List State} {tree : Tree}
    {pending : List (TokenKind × State)} {complete : List Tree}
    (traversal : Traversal table current (state :: stack) pending complete)
    (done : expand table current state = .complete tree) :
    ∃ others, complete = tree :: others ∧ Traversal table current stack pending others := by
  cases traversal with
  | wait own => simp [done] at own
  | finish own rest =>
    rw [done,Expansion.complete.injEq] at own
    exact ⟨_,by rw [own],rest⟩
  | into own => simp [done] at own

/-- A state that is replaced is traversed with the states in its place. -/
theorem Traversal.into_inv {state : State} {stack states : List State} {count : Nat}
    {pending : List (TokenKind × State)} {complete : List Tree}
    (traversal : Traversal table current (state :: stack) pending complete)
    (replaced : expand table current state = .into states count) :
    Traversal table current (states ++ stack) pending complete := by
  cases traversal with
  | wait own => simp [replaced] at own
  | finish own => simp [replaced] at own
  | into own rest =>
    rw [replaced,Expansion.into.injEq] at own
    rw [own.1]
    exact rest

/-- A traversal of reached states finds reached states only. -/
theorem Traversal.reached {grammar : Grammar} {tokens : List Token} {stack : List State}
    {pending : List (TokenKind × State)} {complete : List Tree}
    (traversal : Traversal (Table.of grammar) current stack pending complete)
    (sources : ∀ state ∈ stack, Reached grammar tokens current state) :
    (∀ entry ∈ pending, Waits entry.2 entry.1 ∧ Reached grammar tokens current entry.2) ∧
    ∀ tree ∈ complete, ∃ state, Completes state tree ∧ Reached grammar tokens current state := by
  have reached : ∀ {property : State → Prop}, Finds grammar current stack property →
      ∃ state, property state ∧ Reached grammar tokens current state := by
    rintro property ⟨source,member,state,path,holds⟩
    exact ⟨state,holds,(sources source member).steps path⟩
  constructor
  · rintro ⟨kind,state⟩ member
    obtain ⟨found,⟨rfl,waits⟩,own⟩ := reached ((traversal.spec.1 kind state).mp member)
    exact ⟨waits,own⟩
  · intro tree member
    exact reached ((traversal.spec.2 tree).mp member)

/-- What goes on with a token behind reached states is reached. -/
theorem reached_scan {grammar : Grammar} {tokens : List Token} {limit : Nat} {live : List State} {result : Pass}
    {token : Token} (sources : ∀ state ∈ live, Reached grammar tokens current state)
    (passed : pass (Table.of grammar) limit current live = some result) (here : tokens[current]? = some token) :
    ∀ state ∈ scan token result.pending, Reached grammar tokens (current + 1) state := by
  intro state member
  obtain ⟨waiting,pending,rfl⟩ := (mem_scan_iff token _ state).mp member
  obtain ⟨waits,earlier⟩ := ((pass_traversal passed).reached sources).1 _ pending
  exact earlier.scan waits here

/-! ### Sequences of tokens -/

/-- The live states have the trees when all remaining tokens are accepted. -/
def Yields (table : Table) : (current : Nat) → (live : List State) → List Token → List Tree → Prop
  | current, live, [], trees => ∃ pending, Traversal table current live pending trees
  | current, live, token :: rest, trees => ∃ pending complete, Traversal table current live pending complete ∧
    Yields table (current + 1) (scan token pending) rest trees

private theorem yields_nil (table : Table) (current : Nat) (tokens : List Token) : Yields table current [] tokens [] := by
  induction tokens generalizing current with
  | nil => exact ⟨[],.nil⟩
  | cons token rest ih => exact ⟨[],[],.nil,ih (current + 1)⟩

/-- Replacing a state does not change what is found. -/
theorem Yields.into_inv {state : State} {stack states : List State} {count : Nat} {tokens : List Token}
    {trees : List Tree} (yields : Yields table current (state :: stack) tokens trees)
    (replaced : expand table current state = .into states count) : Yields table current (states ++ stack) tokens trees := by
  cases tokens with
  | nil =>
    obtain ⟨pending,traversal⟩ := yields
    exact ⟨pending,traversal.into_inv replaced⟩
  | cons token rest =>
    obtain ⟨pending,complete,traversal,later⟩ := yields
    exact ⟨pending,complete,traversal.into_inv replaced,later⟩

/-- The trees of a last pass; there are none when a token is rejected before it. -/
def passTrees : Except ParseError Pass → List Tree
  | .ok result => result.complete
  | .error _ => []

private theorem lastPass_yields (table : Table) (limit : Nat) (pos : Position) (tokens : List Token) (current : Nat)
    (live : List State)
    (within : ∀ limit' place, lastPass table limit pos current live tokens ≠ .error (.stateLimit limit' place)) :
    Yields table current live tokens (passTrees (lastPass table limit pos current live tokens)) := by
  induction tokens generalizing current live with
  | nil =>
    simp only [lastPass] at within ⊢
    cases passed : pass table limit current live with
    | none => simp [passed] at within
    | some result => exact ⟨result.pending,pass_traversal passed⟩
  | cons token rest ih =>
    simp only [lastPass] at within ⊢
    cases passed : pass table limit current live with
    | none => simp [passed] at within
    | some result =>
      simp only [passed] at within
      refine ⟨result.pending,result.complete,pass_traversal passed,?_⟩
      cases scanned : scan token result.pending with
      | nil =>
        simp only [scanned]
        exact yields_nil table (current + 1) rest
      | cons survivor others =>
        simp only [scanned] at within ⊢
        exact ih (current + 1) (survivor :: others) within

/-- Within the limit, the trees that the tokens yield decide whether a parse has a tree or is ambiguous. -/
theorem parse_yields {grammar : Grammar} {options : Options} {tokens : List Token} {pos : Position}
    (within : ∀ limit place, parse grammar options ⟨tokens,.finished pos⟩ ≠ .error (.stateLimit limit place)) :
    ∃ trees, Yields (Table.of grammar) 0 (initial grammar) tokens trees ∧
      (∀ tree, parse grammar options ⟨tokens,.finished pos⟩ = .ok tree ↔
        chosen options.ambiguity (distinct trees) = some tree) ∧
      ∀ several, parse grammar options ⟨tokens,.finished pos⟩ = .error (.ambiguous several) ↔
        distinct trees = several ∧ 2 ≤ several.length ∧ options.ambiguity ≠ .first := by
  have yields := lastPass_yields (Table.of grammar) options.maxStates pos tokens 0 (initial grammar)
  rw [parse_eq_lastPass] at within ⊢
  rcases lastPass_cases (Table.of grammar) options.maxStates pos tokens 0 (initial grammar) with
    ⟨result,last⟩ | ⟨token,expected,canEnd,last⟩ | ⟨limit,place,last⟩
  · rw [last] at yields ⊢
    exact ⟨result.complete,yields (by simp),settle_ok_iff options.ambiguity pos result,
      settle_ambiguous_iff options.ambiguity pos result⟩
  · rw [last] at yields ⊢
    refine ⟨[],yields (by simp),fun tree => ?_,fun several => ?_⟩
    · simp [Except.bind,distinct,chosen]
    · constructor
      · intro impossible; simp [Except.bind] at impossible
      · rintro ⟨rfl,long,-⟩; simp [distinct] at long
  · rw [last] at within
    exact absurd rfl (within limit place)

end CFrontend.Parser
