import CFrontend.Proofs.Outcome

/-!
How far a parse gets. `accepted` counts the tokens that a parse accepts before it ends. An unexpected token is the one behind
them, and a limit is exceeded in the pass before that token (`lastPass_stops`).
-/
namespace CFrontend.Parser

/-- How many tokens are accepted: the passes go on while they stay within the limit and some state accepts the next token. -/
def acceptedFrom (table : Table) (limit : Nat) : (current : Nat) → (live : List State) → List Token → Nat
  | _, _, [] => 0
  | current, live, token :: rest => match pass table limit current live with
    | none => 0
    | some result => match scan token result.pending with
      | [] => 0
      | survivors => acceptedFrom table limit (current + 1) survivors rest + 1

/-- How many tokens a parse accepts before it ends. -/
def accepted (grammar : Grammar) (options : Options) (tokens : List Token) : Nat :=
  acceptedFrom (Table.of grammar) options.maxStates 0 (initial grammar) tokens

/-- The place of a token, or of the end behind the last one. -/
def placeAt (tokens : List Token) (pos : Position) (index : Nat) : Position := (tokens[index]?.map (·.pos)).getD pos

/-- Passes that end as given have accepted the tokens before the index. -/
def StopsAt (limit : Nat) (tokens : List Token) (pos : Position) (index : Nat) : Except ParseError Pass → Prop
  | .ok _ => index = tokens.length
  | .error (.unexpected token _ _) => tokens[index]? = some token
  | .error (.stateLimit bound place) => bound = limit ∧ index ≤ tokens.length ∧ place = placeAt tokens pos index
  | .error _ => False

theorem StopsAt.cons {limit index : Nat} {tokens : List Token} {pos : Position} {outcome : Except ParseError Pass}
    (stops : StopsAt limit tokens pos index outcome) (token : Token) :
    StopsAt limit (token :: tokens) pos (index + 1) outcome := by
  rcases outcome with (_ | _ | _ | _ | _ | _) | _
  · exact stops
  · exact stops
  · simpa [StopsAt] using stops
  · exact stops
  · exact stops
  · simpa [StopsAt,placeAt] using stops
  · simpa [StopsAt] using stops

/-- The last pass stops behind the accepted tokens: an unexpected token is the next one, and a limit is exceeded at its place. -/
theorem lastPass_stops (table : Table) (limit : Nat) (pos : Position) (tokens : List Token) (current : Nat)
    (live : List State) :
    StopsAt limit tokens pos (acceptedFrom table limit current live tokens) (lastPass table limit pos current live tokens) := by
  induction tokens generalizing current live with
  | nil =>
    rw [lastPass,acceptedFrom]
    cases pass table limit current live with
    | none => exact ⟨rfl,Nat.le_refl _,rfl⟩
    | some result => exact rfl
  | cons token rest ih =>
    rw [lastPass,acceptedFrom]
    cases pass table limit current live with
    | none => exact ⟨rfl,Nat.zero_le _,rfl⟩
    | some result =>
      cases scanned : scan token result.pending with
      | nil => simp [scanned,StopsAt]
      | cons survivor others =>
        simp only [scanned]
        exact (ih (current + 1) (survivor :: others)).cons token

end CFrontend.Parser
