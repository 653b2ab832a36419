import CFrontend.Proofs.Compaction
import CFrontend.Proofs.StoredExpansion

/-!
Parsing in an arena. Between passes the states of an arena stand for the live derivations, whether it was compacted or
not, so a parse in an arena gives what the parser gives (`parseStored_eq`), and nothing can be told from
its schedule.
-/
namespace CFrontend.Parser

variable {tokens : Array Token}

namespace Arena

variable {arena : Arena}

/-! ### Scanning -/

theorem continues_push (tokens : Array Token) (token : Token) : Continues tokens (tokens.push token) := by
  intro index other found
  have inside := (Array.getElem?_eq_some_iff.mp found).1
  simpa [Array.getElem?_push,Nat.ne_of_lt inside] using found

/-- What waits for a token still stands for the same derivation when the token is read. -/
theorem Pending.push {id : Nat} {entry : TokenKind × State} (token : Token) (pending : Pending arena tokens id entry) :
    Pending arena (tokens.push token) id entry := by
  exact ⟨pending.1,(Extends.refl arena).moves.represents (continues_push tokens token) trivial pending.2⟩

theorem awaited_eq_some_iff (id : Nat) (kind : TokenKind) :
    arena.awaited id = some kind ↔ ∃ stored, arena.states[id]? = some stored ∧ stored.next? = some (.terminal kind) := by
  unfold awaited
  constructor
  · intro found
    split at found
    · rename_i other here
      obtain ⟨stored,first,second⟩ := Option.bind_eq_some_iff.mp here
      exact ⟨stored,first,Option.some.inj found ▸ second⟩
    · simp at found
  · rintro ⟨stored,first,second⟩
    simp [first,second]

theorem leafFor_spec {token : Token} {index : Nat} (read : tokens[index]? = some token) (leaf : Option Nat)
    (known : ∀ id ∈ leaf, arena.tree? tokens id = some (.leaf token)) :
    Extends arena (arena.leafFor index leaf).1 ∧
      (arena.leafFor index leaf).1.tree? tokens (arena.leafFor index leaf).2 = some (.leaf token) := by
  cases leaf with
  | some id => exact ⟨.refl arena,known id rfl⟩
  | none => exact ⟨extends_addNode arena _,(tree?_eq_leaf_iff _ token).mpr ⟨index,by simp [leafFor,addNode],read⟩⟩

/-- The kinds of the entries that do not go on with a token. -/
def missedKinds (token : Token) (entries : List (TokenKind × State)) : List TokenKind :=
  (entries.filter fun entry => !(entry.1 == token.kind)).map (·.1)

/-- The survivors of a scan stand for the derivations that go on with the token, and the kinds that are missed are those of
    the others. -/
theorem scan_spec {token : Token} {index : Nat} (leaf : Option Nat) (survivors : Array Nat) (missed : Array TokenKind)
    {pending : List Nat} {states : List State} {entries : List (TokenKind × State)} (read : tokens[index]? = some token)
    (sound : arena.Sound) (known : ∀ id ∈ leaf, arena.tree? tokens id = some (.leaf token))
    (going : List.Forall₂ (Represents arena tokens) survivors.toList states)
    (waits : List.Forall₂ (Pending arena tokens) pending entries) :
    ∃ grown after others, scan token.kind index arena leaf survivors missed pending = some (grown,after,others) ∧
      grown.Sound ∧ List.Forall₂ (Represents grown tokens) after.toList (states ++ Parser.scan token entries) ∧
      others.toList = missed.toList ++ missedKinds token entries := by
  induction entries generalizing arena leaf survivors missed pending states with
  | nil =>
    cases waits
    exact ⟨arena,survivors,missed,rfl,sound,by simpa [Parser.scan] using going,by simp [missedKinds]⟩
  | cons entry entries ih =>
    cases waits with
    | @cons id _ pending _ first rest =>
      obtain ⟨kind,state⟩ := entry
      obtain ⟨awaits,represents⟩ := first
      obtain ⟨stored,found,next⟩ := (awaited_eq_some_iff id kind).mp awaits
      rw [scan,found]
      simp only [next]
      by_cases accepts : kind = token.kind
      · cases represents with
        | @cons _ stored' _ _ here holds ascends above =>
          obtain rfl := Option.some.inj (found.symm.trans here)
          obtain ⟨first,unfolds⟩ := leafFor_spec read leaf known
          obtain ⟨middle,next,advanced,second,added⟩ := advance_spec (first.holds holds) (first.leads above) unfolds
          have growth := first.trans second
          have more : List.Forall₂ (Represents middle tokens) (survivors.push next).toList
              (states ++ [state.advance (.leaf token)]) := by
            rw [Array.toList_push]
            exact List.rel_append (going.imp fun _ _ => growth.represents) (.cons added .nil)
          obtain ⟨grown,after,others,scanned,sound,goes,misses⟩ := ih (some _) (survivors.push next) missed
            (growth.sound sound) (fun id link => Option.mem_some.mp link ▸ second.tree? unfolds) more
            (rest.imp fun _ _ => growth.pending)
          refine ⟨grown,after,others,by simpa [accepts,advanced] using scanned,sound,?_,?_⟩
          · simpa [Parser.scan,accepts] using goes
          · simpa [missedKinds,accepts] using misses
      · obtain ⟨grown,after,others,scanned,sound,goes,misses⟩ :=
          ih leaf survivors (missed.push kind) sound known going rest
        refine ⟨grown,after,others,by simpa [accepts] using scanned,sound,?_,?_⟩
        · simpa [Parser.scan,accepts] using goes
        · simpa [missedKinds,accepts] using misses

private theorem missedKinds_eq {token : Token} {entries : List (TokenKind × State)} (rejected : Parser.scan token entries = []) :
    missedKinds token entries = entries.map (·.1) := by
  simp only [Parser.scan,List.map_eq_nil_iff,List.filter_eq_nil_iff] at rejected
  rw [missedKinds,List.filter_eq_self.mpr fun entry member => by simpa using rejected entry member]

/-! ### Settling and compacting -/

private theorem mapM_eq_some {α β : Type} {f : α → Option β} {xs : List α} {ys : List β}
    (all : List.Forall₂ (fun x y => f x = some y) xs ys) : xs.mapM f = some ys := by
  induction all with
  | nil => rfl
  | cons first rest ih => simp [first,ih]

private theorem settle_spec (policy : AmbiguityPolicy) (pos : Position) {pending complete : Array Nat} {result : Pass}
    (waits : List.Forall₂ (Pending arena tokens) pending.toList result.pending)
    (done : List.Forall₂ (fun id tree => arena.treeOf? tokens id = some tree) complete.toList result.complete) :
    arena.settle policy pos tokens pending complete = some (Parser.settle policy pos result) := by
  have kinds : List.Forall₂ (fun id kind => arena.awaited id = some kind) pending.toList (result.pending.map (·.1)) :=
    List.forall₂_map_right_iff.mpr (waits.imp fun _ _ entry => entry.1)
  have trees := mapM_eq_some done
  unfold settle Parser.settle
  generalize complete.toList = ids at done trees
  cases found : result.complete with
  | nil =>
    rw [found] at done
    cases done
    simp only [mapM_eq_some kinds,Option.map_some]
  | cons tree others =>
    rw [found] at done trees
    cases done with
    | cons first rest => simp only [trees,Option.map_some]

/-- Whether an arena is compacted or not, the live states stand for the same derivations. -/
theorem maintain_spec (schedule : Schedule) (count threshold : Nat) {live : List Nat} {states : List State}
    (sound : arena.Sound) (represents : List.Forall₂ (Represents arena tokens) live states) :
    ∃ after moved next, arena.maintain schedule count threshold live = some (after,moved,next) ∧ after.Sound ∧
      List.Forall₂ (Represents after tokens) moved states := by
  unfold maintain
  split
  · obtain ⟨compacted,moved,compacts,sound,represents⟩ := compact_spec represents
    exact ⟨compacted,moved,_,by rw [compacts,Option.map_some],sound,represents⟩
  · exact ⟨arena,live,threshold,rfl,sound,represents⟩

end Arena

theorem isEmpty_eq {α β : Type} {related : α → β → Prop} {first : Array α} {second : List β}
    (all : List.Forall₂ related first.toList second) : first.isEmpty = second.isEmpty := by
  have length := all.length_eq
  cases second with
  | nil => simpa using length
  | cons => simp_all [← Array.size_eq_zero_iff]

/-! ### Parsing -/

variable {grammar : Grammar} {arena : Arena}

/-- A pass over stored live states is the pass over what they stand for. -/
theorem pass_spec (grammar : Grammar) (limit current : Nat) {live : List Nat} {states : List State} (sound : arena.Sound)
    (represents : List.Forall₂ (arena.Represents tokens) live states) :
    ∃ result, arena.pass (Table.of grammar) limit current live = some result ∧
      arena.PassesAs tokens result (pass (Table.of grammar) limit current states) :=
  Arena.forward_spec sound rfl rfl ⟨.nil,.nil,represents⟩

/-- Whenever live states stand for derivations, the parse in the arena goes on as the parse with these does. -/
theorem runStored_eq (schedule : Schedule) (options : Options) (ending : Ending) (rest : List Token) (threshold : Nat)
    {live : List Nat} {states : List State} (sound : arena.Sound)
    (represents : List.Forall₂ (arena.Represents tokens) live states) :
    runStored schedule (Table.of grammar) options ending threshold arena tokens live rest =
      some (run (Table.of grammar) options ending tokens.size states rest) := by
  induction rest generalizing arena tokens live states threshold with
  | nil =>
    cases ending with
    | broken error => rfl
    | finished pos =>
      obtain ⟨result,passed,passes⟩ := pass_spec grammar options.maxStates tokens.size sound represents
      simp only [runStored,run,passed]
      generalize pass (Table.of grammar) options.maxStates tokens.size states = outcome at passes
      cases passes with
      | exceeded => rfl
      | passed growth waits done => exact Arena.settle_spec options.ambiguity pos waits done
  | cons token rest ih =>
    obtain ⟨result,passed,passes⟩ := pass_spec grammar options.maxStates tokens.size sound represents
    simp only [runStored,run,passed]
    generalize pass (Table.of grammar) options.maxStates tokens.size states = outcome at passes
    cases passes with
    | exceeded => rfl
    | @passed grown pending complete result growth waits done =>
      have read : (tokens.push token)[tokens.size]? = some token := by simp
      obtain ⟨after,survivors,missed,scanned,sound,goes,misses⟩ := Arena.scan_spec none #[] #[] read (growth.sound sound)
        (by simp) .nil (waits.imp fun _ _ entry => entry.push token)
      rw [List.nil_append] at goes misses
      simp only [scanned]
      rw [isEmpty_eq goes,isEmpty_eq done]
      cases next : scan token result.pending with
      | nil => simp only [List.isEmpty_nil,if_true,misses,Arena.missedKinds_eq next]
      | cons state others =>
        rw [next] at goes
        obtain ⟨kept,moved,threshold,maintained,sound,represents⟩ :=
          Arena.maintain_spec schedule (tokens.size + 1) threshold sound goes
        rw [if_neg (by simp),maintained]
        simpa using ih threshold sound represents

/-- The state that a parse starts with stands for the derivation that it starts with. -/
theorem initial_spec (grammar : Grammar) : ∃ production, grammar.alternatives grammar.start = [production] ∧
    (Arena.addPredicted {} grammar.start production none 0).1.Sound ∧
    List.Forall₂ ((Arena.addPredicted {} grammar.start production none 0).1.Represents #[])
      [(Arena.addPredicted {} grammar.start production none 0).2] (initial grammar) := by
  obtain ⟨production,only⟩ := grammar.alternatives_start
  have sound : Arena.Sound {} := by simp [Arena.Sound]
  have named : production.rule.lhs = grammar.start :=
    Grammar.lhs_of_mem_alternatives (only ▸ List.mem_singleton_self _)
  obtain ⟨growth,root⟩ := Arena.addPredicted_spec named 0 sound (.nil : Arena.Leads {} #[] none [])
  rw [initial,only]
  exact ⟨production,rfl,growth.sound sound,.cons root .nil⟩

/-- A parse in an arena always has a result, which is that of the parser. -/
theorem parseStored_eq (schedule : Schedule) (threshold : Nat) (grammar : Grammar) (options : Options)
    (stream : TokenStream) :
    parseStored schedule threshold grammar options stream = some (parse grammar options stream) := by
  obtain ⟨production,only,sound,root⟩ := initial_spec grammar
  rw [parseStored,only]
  exact runStored_eq schedule options stream.ending stream.tokens threshold sound root

/-- Nothing can be told from the schedule by which an arena is compacted: the parse gives the tree or the error that it
    gives when the arena is never compacted. -/
theorem parseStored_unobservable (schedule : Schedule) (threshold start : Nat) (grammar : Grammar) (options : Options)
    (stream : TokenStream) :
    ∃ outcome, parseStored schedule threshold grammar options stream = some outcome ∧
      parseStored .never start grammar options stream = some outcome :=
  ⟨parse grammar options stream,parseStored_eq schedule threshold grammar options stream,
    parseStored_eq .never start grammar options stream⟩

end CFrontend.Parser
