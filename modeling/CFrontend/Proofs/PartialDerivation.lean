import CFrontend.Proofs.Expansion

/-!
What a state means. The frames of a reached state are a partial derivation of the tokens read so far:
each frame has matched the first symbols of its production, the next symbol of each waiting
frame is the nonterminal of the frame inside it, and the matched trees spell the tokens
from left to right. Expanding a state keeps this, and so does accepting a token.
-/
namespace CFrontend.Parser
open Grammar (Cycle LeftChain)

variable {grammar : Grammar}

/-- The tokens under the matched trees of a frame. -/
def Frame.tokens (frame : Frame) : List Token := Tree.forestTokens frame.matched.reverse

/-- The frame has matched the first symbols of an alternative of its nonterminal. -/
structure Frame.Valid (grammar : Grammar) (frame : Frame) : Prop where
  alternative : frame.production ∈ grammar.alternatives frame.name
  split : ∃ done, frame.production.rule.rhs = done ++ frame.rest ∧ grammar.DerivesAll done frame.matched.reverse

/-- The frames, innermost first, are a partial derivation of the tokens from the start symbol. -/
inductive PartialDerivation (grammar : Grammar) : List Frame → List Token → Prop
  | root {frame : Frame} (valid : frame.Valid grammar) (named : frame.name = grammar.start)
      (placed : frame.origin = 0) : PartialDerivation grammar [frame] frame.tokens
  | push {frame outer : Frame} {rest : List Frame} {tail : List Symbol} {tokens : List Token}
      (below : PartialDerivation grammar (outer :: rest) tokens)
      (waits : outer.rest = .nonterminal frame.name :: tail) (valid : frame.Valid grammar)
      (placed : frame.origin = tokens.length) :
      PartialDerivation grammar (frame :: outer :: rest) (tokens ++ frame.tokens)

/-! ### Frames -/

theorem name_predicted {name : String} {production : Production}
    (alternative : production ∈ grammar.alternatives name) (origin : Nat) :
    (Frame.predicted production origin).name = name :=
  Grammar.lhs_of_mem_alternatives alternative

private theorem valid_predicted {name : String} {production : Production}
    (alternative : production ∈ grammar.alternatives name) (origin : Nat) :
    (Frame.predicted production origin).Valid grammar := by
  refine ⟨?_,[],rfl,by simp [Frame.predicted]⟩
  rw [name_predicted alternative]
  exact alternative

@[simp] theorem tokens_predicted (production : Production) (origin : Nat) :
    (Frame.predicted production origin).tokens = [] := rfl

@[simp] theorem tokens_advance (frame : Frame) (tree : Tree) :
    (frame.advance tree).tokens = frame.tokens ++ tree.tokens := by
  simp [Frame.tokens,Frame.advance,Tree.forestTokens_append]

@[simp] theorem name_advance (frame : Frame) (tree : Tree) : (frame.advance tree).name = frame.name := rfl

theorem Frame.Valid.advance {frame : Frame} {symbol : Symbol} {tail : List Symbol} {tree : Tree}
    (valid : frame.Valid grammar) (next : frame.rest = symbol :: tail) (derived : grammar.Derives symbol tree) :
    (frame.advance tree).Valid grammar := by
  obtain ⟨done,rhs,matched⟩ := valid.split
  refine ⟨valid.alternative,done ++ [symbol],?_,?_⟩
  · simp [Frame.advance,next,rhs]
  · have both := Grammar.derivesAll_append matched
      ((Grammar.derivesAll_cons_iff symbol [] [tree]).mpr ⟨tree,[],rfl,derived,by simp⟩)
    simpa [Frame.advance] using both

theorem Frame.Valid.derives {frame : Frame} (valid : frame.Valid grammar) (finished : frame.rest = []) :
    grammar.Derives (.nonterminal frame.name) frame.tree := by
  obtain ⟨done,rhs,matched⟩ := valid.split
  rw [finished,List.append_nil] at rhs
  exact Grammar.derives_of_rule (Grammar.rule_of_mem_alternatives valid.alternative) (rhs ▸ matched)

/-! ### Partial derivations -/

theorem PartialDerivation.valid {frames : List Frame} {tokens : List Token}
    (derivation : PartialDerivation grammar frames tokens) : ∀ frame ∈ frames, frame.Valid grammar := by
  induction derivation with
  | root valid => simpa using valid
  | push _ _ valid _ ih =>
    intro frame member
    rcases List.mem_cons.mp member with rfl | outside
    · exact valid
    · exact ih frame outside

theorem PartialDerivation.advance {frame : Frame} {rest : List Frame} {tokens : List Token} {symbol : Symbol}
    {tail : List Symbol} {tree : Tree} (derivation : PartialDerivation grammar (frame :: rest) tokens)
    (next : frame.rest = symbol :: tail) (derived : grammar.Derives symbol tree) :
    PartialDerivation grammar (frame.advance tree :: rest) (tokens ++ tree.tokens) := by
  cases derivation with
  | root valid named placed =>
    rw [← tokens_advance]
    exact .root (valid.advance next derived) named placed
  | push below waits valid placed =>
    rw [List.append_assoc,← tokens_advance]
    exact .push below waits (valid.advance next derived) placed

/-- Below a frame that waits for a nonterminal, each alternative of it may be predicted. -/
theorem PartialDerivation.predict {outer : Frame} {rest : List Frame} {name : String} {tail : List Symbol}
    {tokens : List Token} {production : Production} (below : PartialDerivation grammar (outer :: rest) tokens)
    (waits : outer.rest = .nonterminal name :: tail) (alternative : production ∈ grammar.alternatives name) :
    PartialDerivation grammar (.predicted production tokens.length :: outer :: rest) tokens := by
  rw [← name_predicted alternative tokens.length] at waits
  simpa using below.push waits (valid_predicted alternative tokens.length) rfl

/-- Below a frame that waits for a nonterminal, any chain from that nonterminal may be predicted. -/
theorem PartialDerivation.predictChain {source target : String} {chain : List Production}
    (linked : LeftChain grammar source chain target) {outer : Frame} {rest : List Frame} {tail : List Symbol}
    {tokens : List Token} (below : PartialDerivation grammar (outer :: rest) tokens)
    (waits : outer.rest = .nonterminal source :: tail) :
    ∃ inner others more, (chain.map (Frame.predicted · tokens.length)).reverse ++ outer :: rest = inner :: others ∧
      PartialDerivation grammar (inner :: others) tokens ∧ inner.rest = .nonterminal target :: more := by
  induction linked generalizing outer rest tail with
  | nil name => exact ⟨outer,rest,tail,rfl,below,waits⟩
  | cons alternative first others ih =>
    rename_i name next target production chain
    obtain ⟨more,rhs⟩ := List.head?_eq_some_iff.mp first
    obtain ⟨inner,others,more,same,derivation,next⟩ := ih (below.predict waits alternative) rhs
    exact ⟨inner,others,more,by simpa using same,derivation,next⟩

/-- Expanding a state keeps the derivation of the tokens so far. -/
theorem PartialDerivation.step {state next : State} {tokens : List Token}
    (derivation : PartialDerivation grammar (state.frame :: state.ancestors) tokens)
    (taken : Step grammar tokens.length state next) :
    PartialDerivation grammar (next.frame :: next.ancestors) tokens := by
  cases taken with
  | predict waits _ alternative => exact derivation.predict waits alternative
  | close finished below =>
    rw [below] at derivation
    cases derivation with
    | push under waits valid _ => exact under.advance waits (valid.derives finished)
  | @grow parent ancestors chain last finished below recorded _ =>
    obtain ⟨⟨-,linked,-⟩,-⟩ := (Grammar.mem_cycles_iff grammar state.frame.name _).mp recorded
    obtain ⟨middle,before,after⟩ := (Grammar.leftChain_append_iff _ _ chain [last]).mp linked
    rw [below] at derivation ⊢
    cases derivation with
    | push under waits valid placed =>
      obtain ⟨inner,others,more,same,predicted,inside⟩ := PartialDerivation.predictChain before under waits
      rw [placed,same]
      cases after with
      | cons alternative first rest =>
        cases rest
        obtain ⟨tail,rhs⟩ := List.head?_eq_some_iff.mp first
        exact (predicted.predict inside alternative).advance rhs (valid.derives finished)

theorem PartialDerivation.scan {state : State} {tokens : List Token} {token : Token}
    (derivation : PartialDerivation grammar (state.frame :: state.ancestors) tokens)
    (waits : Waits state token.kind) :
    PartialDerivation grammar ((state.advance (.leaf token)).frame :: (state.advance (.leaf token)).ancestors)
      (tokens ++ [token]) := by
  obtain ⟨tail,next⟩ := waits
  exact derivation.advance next ((Grammar.derives_terminal_iff token.kind _).mpr ⟨token,rfl,rfl⟩)

/-- Every reached state is a partial derivation of the tokens that lead to it. -/
theorem Reached.partialDerivation {tokens : List Token} {count : Nat} {state : State}
    (reached : Reached grammar tokens count state) :
    (tokens.take count).length = count ∧
      PartialDerivation grammar (state.frame :: state.ancestors) (tokens.take count) := by
  induction reached with
  | start alternative => exact ⟨rfl,.root (valid_predicted alternative 0) (name_predicted alternative 0) rfl⟩
  | step reached taken ih =>
    obtain ⟨length,derivation⟩ := ih
    exact ⟨length,derivation.step (length.symm ▸ taken)⟩
  | scan reached waits here ih =>
    obtain ⟨inside,-⟩ := List.getElem?_eq_some_iff.mp here
    refine ⟨List.length_take_of_le inside,?_⟩
    rw [List.take_add_one,here]
    exact ih.2.scan waits

end CFrontend.Parser
