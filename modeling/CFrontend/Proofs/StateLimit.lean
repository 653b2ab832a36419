import CFrontend.Proofs.Outcome
import CFrontend.Proofs.StoredParse
import Mathlib

/-!
What the limit bounds. A pass stores no more states than the limit, since it goes on as long as it stores some and
the limit is checked whenever it goes on. It is not checked after the last state of the stack: that one may wait in
addition to as many others as the limit allows.
-/
namespace CFrontend.Parser

variable {grammar : Grammar} {table : Table} {arena grown : Arena} {current : Nat}

namespace Arena
open Grammar (Cycle)

private theorem length_growAll {stored : StoredState} {parent : Nat} {cycles : List Cycle} {ids : List Nat}
    (nonempty : ∀ cycle ∈ cycles, cycle ≠ []) (found : growAll stored parent arena cycles = some (grown,ids)) :
    arena.states.size + ids.length ≤ grown.states.size := by
  induction cycles generalizing arena ids with
  | nil =>
    obtain ⟨rfl,rfl⟩ := Prod.mk.inj (Option.some.inj found)
    simp
  | cons cycle rest ih =>
    obtain ⟨first,others⟩ := List.forall_mem_cons.mp nonempty
    simp only [growAll] at found
    split at found
    · simp at found
    · exact ih others found
    · obtain ⟨⟨after,later⟩,grows,same⟩ := Option.map_eq_some_iff.mp found
      simp only [Prod.mk.injEq] at same
      obtain ⟨rfl,rfl⟩ := same
      have stored := ih others grows
      have step := List.length_pos_iff.mpr first
      rw [size_growInto] at stored
      simp only [List.length_cons]
      omega

private theorem length_close {stored : StoredState} {parent : Nat} {cycles : List Cycle} {ids : List Nat}
    (nonempty : ∀ cycle ∈ cycles, cycle ≠ []) (closed : arena.close stored parent cycles = some (grown,ids)) :
    ids ≠ [] ∧ arena.states.size + ids.length ≤ grown.states.size := by
  obtain ⟨above,middle,id,later,advanced,grows,rfl⟩ := close_cases closed
  have first := size_advance advanced
  have others := length_growAll nonempty grows
  refine ⟨by simp,?_⟩
  simp only [List.length_cons]
  omega

/-- Expanding stores a state for each that takes the place of the expanded one, and none if there is none. -/
theorem length_expand {id : Nat} {ids : List Nat}
    (expanded : arena.expand (Table.of grammar) current id = some (grown,.into ids)) :
    arena.states.size + ids.length ≤ grown.states.size ∧ (ids = [] → grown.states.size = arena.states.size) := by
  rcases expand_cases expanded with ⟨rfl,none⟩ | ⟨stored,parent,ids,same,closed⟩ | ⟨name,same,rfl⟩
  · simp [none ids rfl]
  · obtain rfl := StoredExpansion.into.inj same
    obtain ⟨some,more⟩ := length_close (cycles_ne_nil grammar stored.name) closed
    exact ⟨more,fun none => absurd none some⟩
  · obtain rfl := StoredExpansion.into.inj same
    rw [size_predict,length_predict,← List.length_eq_zero_iff,length_predict]
    omega

private theorem expand_stays {id : Nat} {result : StoredExpansion}
    (expanded : arena.expand table current id = some (grown,result)) (stays : ∀ ids, result ≠ .into ids) : grown = arena := by
  rcases expand_cases expanded with ⟨same,-⟩ | ⟨stored,parent,ids,into,-⟩ | ⟨name,into,-⟩
  · exact same
  · exact absurd into (stays ids)
  · exact absurd into (stays _)

/-- As long as there are states on the stack, what is stored and what waits at the end is bounded by the checks to
    come. Each stored state gives at most one that waits. -/
theorem forward_within {limit base : Nat} {before pending complete done : Array Nat} {stack : List Nat}
    (passed : arena.forward (Table.of grammar) limit current base before complete stack =
      some (.passed grown pending done)) :
    (stack ≠ [] ∨ arena.states.size ≤ base + limit → grown.states.size ≤ base + limit) ∧
    (stack ≠ [] ∨ before.size ≤ limit + 1 → pending.size ≤ limit + 1) ∧
    pending.size + arena.states.size ≤ before.size + stack.length + grown.states.size := by
  fun_induction forward (Table.of grammar) limit current base arena before complete stack with
  | case1 arena before complete =>
    simp only [Option.some.injEq,StoredPass.passed.injEq] at passed
    obtain ⟨rfl,rfl,rfl⟩ := passed
    simp
  | case2 => simp at passed
  | case3 => simp at passed
  | case4 arena before complete id stack within after expanded ih =>
    obtain rfl := expand_stays expanded (by simp)
    obtain ⟨stored,waits,count⟩ := ih passed
    simp only [Bool.or_eq_true,decide_eq_true_eq,not_or,Nat.not_lt] at within
    simp only [Array.size_push,List.length_cons] at *
    exact ⟨fun _ => stored (.inr (by omega)),fun _ => waits (.inr (by omega)),by omega⟩
  | case5 arena before complete id stack within after expanded ih =>
    obtain rfl := expand_stays expanded (by simp)
    obtain ⟨stored,waits,count⟩ := ih passed
    simp only [Bool.or_eq_true,decide_eq_true_eq,not_or,Nat.not_lt] at within
    simp only [List.length_cons] at *
    exact ⟨fun _ => stored (.inr (by omega)),fun _ => waits (.inr (by omega)),by omega⟩
  | case6 arena before complete id stack within after ids expanded ih =>
    obtain ⟨more,none⟩ := length_expand expanded
    obtain ⟨stored,waits,count⟩ := ih passed
    simp only [Bool.or_eq_true,decide_eq_true_eq,not_or,Nat.not_lt] at within
    simp only [List.length_append,List.length_cons] at *
    refine ⟨fun _ => stored ?_,fun _ => waits (.inr (by omega)),by omega⟩
    -- Either nothing was stored since the check, or there is a state on the stack before which it comes again.
    by_cases empty : ids = []
    · exact .inr (by have := none empty; omega)
    · exact .inl (by simp [empty])

end Arena

/-- After a pass over one state no more wait than were stored, or that state alone. -/
theorem pending_of_single {limit id : Nat} {pending complete : Array Nat}
    (passed : arena.pass (Table.of grammar) limit current [id] = some (.passed grown pending complete)) :
    pending.size ≤ 1 ∨ arena.states.size + pending.size ≤ grown.states.size := by
  rw [Arena.pass,Arena.forward_cons,if_neg (by simp)] at passed
  obtain ⟨⟨middle,result⟩,expanded,rest⟩ := Option.bind_eq_some_iff.mp passed
  cases result with
  | waiting =>
    simp only [Arena.forwardAfter,Arena.forward,Option.some.injEq,StoredPass.passed.injEq] at rest
    simp [← rest.2.1]
  | complete =>
    simp only [Arena.forwardAfter,Arena.forward,Option.some.injEq,StoredPass.passed.injEq] at rest
    simp [← rest.2.1]
  | into ids =>
    simp only [Arena.forwardAfter,List.append_nil] at rest
    obtain ⟨stored,-⟩ := Arena.length_expand expanded
    obtain ⟨-,-,count⟩ := Arena.forward_within rest
    rw [Array.size_empty] at count
    omega

/-- A pass that stays within its limit stores no more states than the limit. At most one state more than the limit
    waits after it, and none if there was at most one live state. -/
theorem pass_within {limit : Nat} {live : List Nat} {pending complete : Array Nat} (positive : 1 ≤ limit)
    (passed : arena.pass (Table.of grammar) limit current live = some (.passed grown pending complete)) :
    grown.states.size ≤ arena.states.size + limit ∧ pending.size ≤ limit + 1 ∧
      (live.length ≤ 1 → pending.size ≤ limit) := by
  obtain ⟨stored,waits,count⟩ := Arena.forward_within passed
  have bound := stored (.inr (by omega))
  refine ⟨bound,waits (.inr (by simp)),fun few => ?_⟩
  match live,few with
  | [],_ =>
    rw [Array.size_empty,List.length_nil] at count
    omega
  | [id],_ =>
    have := pending_of_single passed
    omega

/-- A plus sign, with a minus sign or a slash behind it or with a star. -/
def forked : Grammar :=
  ⟨"S",[⟨"S",[.nonterminal "A"]⟩,⟨"A",[.terminal .plus,.nonterminal "B"]⟩,⟨"A",[.terminal .plus,.terminal .star]⟩,
    ⟨"B",[.terminal .minus]⟩,⟨"B",[.terminal .slash]⟩],by decide +kernel⟩

/-- The states that go on with a plus sign at the start, and the arena that stores them. -/
def forkedLive : Option (Arena × List Nat) := do
  let production ← (forked.alternatives forked.start).head?
  let (arena,id) := Arena.addPredicted {} forked.start production none 0
  match ← arena.pass (Table.of forked) 2 0 [id] with
  | .exceeded => none
  | .passed arena pending _ =>
    let (arena,survivors,_) ← arena.scan .plus 0 none #[] #[] pending.toList
    return (arena,survivors.toList)

/-- The stored live states stand for the derivations that go on with the plus sign. -/
theorem forkedLive_spec {first : Pass} (passed : pass (Table.of forked) 2 0 (initial forked) = some first) :
    ∃ arena live, forkedLive = some (arena,live) ∧ arena.Sound ∧
      List.Forall₂ (arena.Represents #[.bare .plus]) live (scan (.bare .plus) first.pending) := by
  obtain ⟨production,only,sound,root⟩ := initial_spec forked
  obtain ⟨result,stored,passes⟩ := pass_spec forked 2 0 sound root
  rw [passed] at passes
  cases passes with
  | passed growth waits =>
    have read : (#[Token.bare .plus])[0]? = some (.bare .plus) := rfl
    obtain ⟨after,survivors,missed,scanned,sound,goes,-⟩ := Arena.scan_spec none #[] #[] read (growth.sound sound)
      (by simp) .nil (waits.imp fun _ _ entry => entry.push (.bare .plus))
    simp only [Token.bare] at scanned
    exact ⟨after,survivors.toList,by simp [forkedLive,only,stored,scanned],sound,goes⟩

/-- With two states allowed, three wait after the plus sign, and the minus sign is parsed all the same. -/
theorem pass_within_forked :
    parse forked { maxStates := 2 } ⟨[.bare .plus,.bare .minus],.finished .origin⟩ =
      .ok (.branch "S" [.branch "A" [.leaf (.bare .plus),.branch "B" [.leaf (.bare .minus)]]]) ∧
    ∃ arena live grown pending complete, forkedLive = some (arena,live) ∧
      arena.pass (Table.of forked) 2 1 live = some (.passed grown pending complete) ∧ pending.size = 3 ∧
      grown.states.size ≤ arena.states.size + 2 ∧ pending.size ≤ 2 + 1 := by
  refine ⟨by cbv,?_⟩
  obtain ⟨first,second,one,two,three⟩ : ∃ first second, pass (Table.of forked) 2 0 (initial forked) = some first ∧
      pass (Table.of forked) 2 1 (scan (.bare .plus) first.pending) = some second ∧ second.pending.length = 3 :=
    ⟨_,_,by cbv,by cbv,by cbv⟩
  obtain ⟨arena,live,goes,sound,represents⟩ := forkedLive_spec one
  obtain ⟨result,passed,passes⟩ := pass_spec forked 2 1 sound represents
  rw [two] at passes
  cases passes with
  | @passed grown pending complete _ _ waits _ =>
    obtain ⟨stored,bound,-⟩ := pass_within (by decide) passed
    have size : pending.size = 3 := by rw [← three,← waits.length_eq,Array.length_toList]
    exact ⟨arena,live,grown,pending,complete,goes,passed,size,stored,bound⟩

end CFrontend.Parser
