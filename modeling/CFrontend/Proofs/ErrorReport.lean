import CFrontend.Proofs.Viability

/-!
What a parse reports when it fails. The last pass before a failure has every state that the tokens so far
lead to, so the kinds it waits for are those that continue the tokens in some sentence, and it
has a complete tree when and only when the tokens are a sentence themselves.
-/
namespace CFrontend.Parser
open Grammar (Sentence Viable Productive Followable)

variable {grammar : Grammar} {tokens : List Token}

/-! ### Sorted kinds -/

private theorem nodup_eraseDups (kinds : List TokenKind) : kinds.eraseDups.Nodup := by
  cases kinds with
  | nil => exact List.nodup_nil
  | cons kind rest =>
    rw [List.eraseDups_cons]
    refine List.nodup_cons.mpr ⟨?_,nodup_eraseDups _⟩
    simp [List.mem_eraseDups]
termination_by kinds.length
decreasing_by exact Nat.lt_succ_of_le (List.length_filter_le _ _)

/-- Sorted kinds ascend strictly and are the given ones. -/
theorem sortedKinds_spec (kinds : List TokenKind) :
    (sortedKinds kinds).Pairwise (fun first second => first.code < second.code) ∧
      ∀ kind, kind ∈ sortedKinds kinds ↔ kind ∈ kinds := by
  refine ⟨?_,fun kind => by rw [sortedKinds,List.mem_mergeSort,List.mem_eraseDups]⟩
  have ascending : (sortedKinds kinds).Pairwise fun first second => first.code ≤ second.code := by
    have sorted := @List.pairwise_mergeSort TokenKind (fun a b => decide (a.code ≤ b.code))
      (fun a b c => by simpa using Int.le_trans) (fun a b => by simpa using Int.le_total a.code b.code) kinds.eraseDups
    exact sorted.imp fun below => of_decide_eq_true below
  have once : (sortedKinds kinds).Nodup := (List.mergeSort_perm _ _).nodup_iff.mpr (nodup_eraseDups kinds)
  refine (ascending.and once).imp fun {first second} both => lt_of_le_of_ne both.1 fun same => ?_
  exact both.2 (TokenKind.code_injective same)

/-! ### The pass that a failure reports -/

/-- A pass over all states that the first tokens of a sequence lead to, of which there are some. -/
structure PassAt (grammar : Grammar) (tokens : List Token) (count : Nat) (result : Pass) : Prop where
  within : count ≤ tokens.length
  live : ∃ state, Reached grammar tokens count state
  pending : ∀ kind, kind ∈ result.pending.map (·.1) ↔ ∃ state, Reached grammar tokens count state ∧ Waits state kind
  complete : result.complete.isEmpty = false ↔ ∃ state tree, Reached grammar tokens count state ∧ Completes state tree

private theorem passAt_of_sources {limit count : Nat} {live : List State} {result : Pass}
    (sources : Sources grammar tokens count live) (nonempty : live ≠ [])
    (passed : pass (Table.of grammar) limit count live = some result) (within : count ≤ tokens.length) :
    PassAt grammar tokens count result := by
  refine ⟨within,?_,fun kind => ?_,?_⟩
  · obtain ⟨state,rest,rfl⟩ := List.exists_cons_of_ne_nil nonempty
    exact ⟨state,(sources state).mpr ⟨state,by simp,.refl⟩⟩
  · simp only [List.mem_map,Prod.exists,exists_and_right,exists_eq_right,mem_pending_iff passed,← sources _]
    exact exists_congr fun state => and_comm
  · rw [List.isEmpty_eq_false_iff_exists_mem]
    simp only [mem_complete_iff passed,← sources _]
    constructor
    · rintro ⟨tree,state,done,reached⟩; exact ⟨state,tree,reached,done⟩
    · rintro ⟨state,tree,reached,done⟩; exact ⟨tree,state,done,reached⟩

/-- A rejected token is one that no state of the pass before it waits for. -/
theorem lastPass_unexpected {limit : Nat} {pos : Position} {token : Token} {expected : List TokenKind} {canEnd : Bool}
    (rest : List Token) (count : Nat) (live : List State) (sources : Sources grammar tokens count live)
    (nonempty : live ≠ []) (remaining : tokens.drop count = rest)
    (rejected : lastPass (Table.of grammar) limit pos count live rest = .error (.unexpected token expected canEnd)) :
    ∃ before result, PassAt grammar tokens before result ∧ tokens[before]? = some token ∧
      scan token result.pending = [] ∧ expected = sortedKinds (result.pending.map (·.1)) ∧
      canEnd = !result.complete.isEmpty := by
  induction rest generalizing count live with
  | nil =>
    simp only [lastPass] at rejected
    split at rejected <;> simp at rejected
  | cons first rest ih =>
    obtain ⟨here,after,next⟩ := next_token remaining
    simp only [lastPass] at rejected
    split at rejected
    · simp at rejected
    · rename_i result passed
      split at rejected
      · rename_i stopped
        simp only [Except.error.injEq,ParseError.unexpected.injEq] at rejected
        obtain ⟨rfl,rfl,rfl⟩ := rejected
        exact ⟨count,result,passAt_of_sources sources nonempty passed (by omega),here,stopped,rfl,rfl⟩
      · rename_i survivors
        exact ih (count + 1) _ (sources_scan sources passed here) survivors after rejected

private theorem lastPass_finished {limit : Nat} {pos : Position} {result : Pass} (rest : List Token) (count : Nat)
    (live : List State) (sources : Sources grammar tokens count live) (nonempty : live ≠ [])
    (remaining : tokens.drop count = rest) (within : count ≤ tokens.length)
    (passed : lastPass (Table.of grammar) limit pos count live rest = .ok result) :
    PassAt grammar tokens tokens.length result := by
  have scanned : ∀ {count live middle token},
      Sources grammar tokens count live ∧ live ≠ [] ∧ count ≤ tokens.length →
      pass (Table.of grammar) limit count live = some middle → tokens[count]? = some token →
      scan token middle.pending ≠ [] → Sources grammar tokens (count + 1) (scan token middle.pending) ∧
        scan token middle.pending ≠ [] ∧ count + 1 ≤ tokens.length := by
    intro count live middle token before expanded here survivors
    exact ⟨sources_scan before.1 expanded here,survivors,(List.getElem?_eq_some_iff.mp here).1⟩
  obtain ⟨last,final,⟨sources,nonempty,within⟩,whole,expanded⟩ :=
    lastPass_kept scanned rest count live ⟨sources,nonempty,within⟩ remaining passed
  obtain rfl : last = tokens.length := Nat.le_antisymm within whole
  exact passAt_of_sources sources nonempty expanded within

private theorem initial_ne_nil (grammar : Grammar) : initial grammar ≠ [] := by
  obtain ⟨production,only⟩ := grammar.alternatives_start
  simp [initial,only]

private theorem settle_incomplete_iff (policy : AmbiguityPolicy) (pos place : Position) (result : Pass)
    (expected : List TokenKind) : settle policy pos result = .error (.incomplete place expected) ↔
      result.complete = [] ∧ pos = place ∧ sortedKinds (result.pending.map (·.1)) = expected := by
  rw [settle_eq]
  have empty : distinct result.complete = [] ↔ result.complete = [] :=
    ⟨fun none => by_contra fun some => distinct_ne_nil some none,fun none => by rw [none]; rfl⟩
  rw [← empty]
  match distinct result.complete with
  | [] => simp
  | [only] => simp
  | first :: second :: others => by_cases taken : policy = .first <;> simp [taken]

/-- An unexpected token is one that the passes reject. -/
theorem parse_unexpected_iff (grammar : Grammar) (options : Options) (tokens : List Token) (pos : Position)
    (token : Token) (expected : List TokenKind) (canEnd : Bool) :
    parse grammar options ⟨tokens,.finished pos⟩ = .error (.unexpected token expected canEnd) ↔
      lastPass (Table.of grammar) options.maxStates pos 0 (initial grammar) tokens =
        .error (.unexpected token expected canEnd) := by
  rw [parse_eq_lastPass]
  cases lastPass (Table.of grammar) options.maxStates pos 0 (initial grammar) tokens with
  | error error => simp [Except.bind]
  | ok result =>
    rcases settle_cases options.ambiguity pos result with ⟨_,settled⟩ | ⟨_,settled⟩ | ⟨_,settled⟩ <;>
      simp [Except.bind,settled]

/-- An input is incomplete when the last pass has no tree. -/
theorem parse_incomplete_iff (grammar : Grammar) (options : Options) (tokens : List Token) (pos place : Position)
    (expected : List TokenKind) :
    parse grammar options ⟨tokens,.finished pos⟩ = .error (.incomplete place expected) ↔
      ∃ result, lastPass (Table.of grammar) options.maxStates pos 0 (initial grammar) tokens = .ok result ∧
        result.complete = [] ∧ pos = place ∧ sortedKinds (result.pending.map (·.1)) = expected := by
  rw [parse_eq_lastPass]
  rcases lastPass_cases (Table.of grammar) options.maxStates pos tokens 0 (initial grammar) with
    ⟨result,last⟩ | ⟨_,_,_,last⟩ | ⟨_,_,last⟩
  · simp [last,Except.bind,settle_incomplete_iff]
  · simp [last,Except.bind]
  · simp [last,Except.bind]

/-! ### What the pass means -/

theorem PassAt.viable {count : Nat} {result : Pass} (here : PassAt grammar tokens count result)
    (productive : Productive grammar) : grammar.Viable ((tokens.take count).map (·.kind)) := by
  obtain ⟨state,reached⟩ := here.live
  exact viable_of_reached productive reached

/-- The kinds that a pass waits for are those that continue the tokens before it. -/
theorem PassAt.pending_iff {count : Nat} {result : Pass} (here : PassAt grammar tokens count result)
    (followable : Followable grammar) (productive : Productive grammar) (kind : TokenKind) :
    kind ∈ result.pending.map (·.1) ↔ grammar.Viable ((tokens.take count).map (·.kind) ++ [kind]) := by
  rw [here.pending]
  constructor
  · rintro ⟨state,reached,waits⟩
    exact viable_of_waits productive reached waits
  · exact waits_of_viable followable here.within

/-- A pass has a complete tree when and only when the tokens before it are a sentence. -/
theorem PassAt.complete_iff {count : Nat} {result : Pass} (here : PassAt grammar tokens count result)
    (followable : Followable grammar) :
    result.complete.isEmpty = false ↔ grammar.Sentence ((tokens.take count).map (·.kind)) := by
  have length : (tokens.take count).length = count := List.length_take_of_le here.within
  have same : tokens.take count = (tokens.take count).take count := by rw [List.take_take,Nat.min_self]
  rw [here.complete,Grammar.sentence_iff]
  constructor
  · rintro ⟨state,tree,reached,done⟩
    exact ⟨tree,found_derivation ⟨state,length.symm ▸ reached.of_take same,done⟩⟩
  · rintro ⟨tree,derivation⟩
    obtain ⟨state,reached,done⟩ := derivation_found followable derivation
    rw [length] at reached
    exact ⟨state,tree,reached.of_take same.symm,done⟩

/-- In a followable grammar whose nonterminals all derive tokens, an unexpected token is the first one with
    which the tokens begin no sentence; the kinds reported in its place ascend and are those that
    continue the tokens before it, and the input could have ended there when and only when these
    are a sentence. Where the input ends too early it is no sentence, and the kinds reported
    are those that continue it. -/
theorem parse_report (grammar : Grammar) (options : Options) (tokens : List Token) (pos : Position)
    (followable : Followable grammar) (productive : Productive grammar) :
    (∀ token expected canEnd, parse grammar options ⟨tokens,.finished pos⟩ = .error (.unexpected token expected canEnd) →
      ∃ index, tokens[index]? = some token ∧
        ¬ grammar.Viable ((tokens.take (index + 1)).map (·.kind)) ∧
        grammar.Viable ((tokens.take index).map (·.kind)) ∧
        expected.Pairwise (fun first second => first.code < second.code) ∧
        (∀ kind, kind ∈ expected ↔ grammar.Viable ((tokens.take index).map (·.kind) ++ [kind])) ∧
        (canEnd = true ↔ grammar.Sentence ((tokens.take index).map (·.kind)))) ∧
    ∀ place expected, parse grammar options ⟨tokens,.finished pos⟩ = .error (.incomplete place expected) →
      ¬ grammar.Sentence (tokens.map (·.kind)) ∧
      expected.Pairwise (fun first second => first.code < second.code) ∧
      ∀ kind, kind ∈ expected ↔ grammar.Viable (tokens.map (·.kind) ++ [kind]) := by
  have sources := sources_initial grammar tokens
  constructor
  · intro token expected canEnd rejected
    rw [parse_unexpected_iff] at rejected
    obtain ⟨index,result,here,own,stopped,rfl,rfl⟩ :=
      lastPass_unexpected tokens 0 (initial grammar) sources (initial_ne_nil grammar) rfl rejected
    obtain ⟨ascending,members⟩ := sortedKinds_spec (result.pending.map (·.1))
    refine ⟨index,own,?_,here.viable productive,ascending,fun kind => ?_,?_⟩
    · -- A state that waits for the token would have gone on with it.
      rw [List.take_add_one,own,List.map_append]
      intro viable
      obtain ⟨⟨kind,state⟩,waiting,same⟩ := List.mem_map.mp ((here.pending_iff followable productive token.kind).mpr viable)
      have survivor := (mem_scan_iff token result.pending (state.advance (.leaf token))).mpr ⟨state,same ▸ waiting,rfl⟩
      simp [stopped] at survivor
    · rw [members,here.pending_iff followable productive]
    · rw [Bool.not_eq_true',here.complete_iff followable]
  · intro place expected missing
    obtain ⟨result,last,empty,-,rfl⟩ := (parse_incomplete_iff grammar options tokens pos place expected).mp missing
    have here := lastPass_finished tokens 0 (initial grammar) sources (initial_ne_nil grammar) rfl (by omega) last
    obtain ⟨ascending,members⟩ := sortedKinds_spec (result.pending.map (·.1))
    have final := here.complete_iff followable
    rw [List.take_length,empty] at final
    refine ⟨fun sentence => by simpa using final.mpr sentence,ascending,fun kind => ?_⟩
    rw [members,here.pending_iff followable productive,List.take_length]

private theorem productive_interlocked : Productive interlocked := by
  have names : interlocked.nonterminals = ["S","A","B","C"] := by decide +kernel
  have a : interlocked.Derives (.nonterminal "A") (.branch "A" [.leaf (.bare .identifier)]) :=
    ⟨rfl,⟨"A",[.terminal .identifier]⟩,by decide +kernel,rfl,rfl,trivial⟩
  have b : interlocked.Derives (.nonterminal "B") (.branch "B" [.branch "A" [.leaf (.bare .identifier)],.leaf (.bare .minus)]) :=
    ⟨rfl,⟨"B",[.nonterminal "A",.terminal .minus]⟩,by decide +kernel,rfl,a,rfl,trivial⟩
  have c : interlocked.Derives (.nonterminal "C") (.branch "C" [.branch "A" [.leaf (.bare .identifier)],.leaf (.bare .slash)]) :=
    ⟨rfl,⟨"C",[.nonterminal "A",.terminal .slash]⟩,by decide +kernel,rfl,a,rfl,trivial⟩
  have s : interlocked.Derives (.nonterminal "S") (.branch "S" [.branch "A" [.leaf (.bare .identifier)]]) :=
    ⟨rfl,⟨"S",[.nonterminal "A"]⟩,by decide +kernel,rfl,a,trivial⟩
  intro name member
  simp only [names,List.mem_cons,List.not_mem_nil,or_false] at member
  rcases member with rfl | rfl | rfl | rfl
  · exact ⟨_,s⟩
  · exact ⟨_,a⟩
  · exact ⟨_,b⟩
  · exact ⟨_,c⟩

/-- Behind an identifier a minus sign or a slash goes on and a star does not; behind both an identifier and
    a minus sign the input is no sentence, and a plus sign or a star goes on. -/
theorem parse_report_interlocked :
    (¬ interlocked.Viable [.identifier,.star] ∧
      ∀ kind, interlocked.Viable [.identifier,kind] ↔ kind = .minus ∨ kind = .slash) ∧
    ¬ interlocked.Sentence [.identifier,.minus] ∧
      ∀ kind, interlocked.Viable [.identifier,.minus,kind] ↔ kind = .plus ∨ kind = .star := by
  have unexpected : parse interlocked {} ⟨[.identifier,.star].map Token.bare,.finished .origin⟩ =
      .error (.unexpected (.bare .star) [.minus,.slash] true) := by
    cbv
  have incomplete : parse interlocked {} ⟨[.identifier,.minus].map Token.bare,.finished .origin⟩ =
      .error (.incomplete .origin [.plus,.star]) := by
    cbv
  have first := (parse_report interlocked {} _ .origin followable_interlocked productive_interlocked).1 _ _ _ unexpected
  have second := (parse_report interlocked {} _ .origin followable_interlocked productive_interlocked).2 _ _ incomplete
  obtain ⟨index,here,rejected,-,-,expected,-⟩ := first
  obtain rfl : index = 1 := by
    rcases index with _ | _ | index
    · simp [Token.bare] at here
    · rfl
    · simp at here
  refine ⟨⟨rejected,fun kind => ?_⟩,second.1,fun kind => ?_⟩
  · simpa [Token.bare] using (expected kind).symm
  · simpa [Token.bare] using (second.2.2 kind).symm

end CFrontend.Parser
