import CFrontend.Proofs.Concatenation

/-!
A source that fails behind its last character. What is read before the failure does not depend on it: a lexer gives the
same item and stands at the same place, whatever follows the text (`Lexer.next_of_failure`). So the items of a source that
fails are those of the text alone with the failure behind them (`Lexer.all_failing`), and nothing comes after it. The buffer
may find the failure in the middle of any lexeme, when it looks ahead; it keeps it until the end is asked for, which is what
`Buffer.failure_delivered_once` says of its calls.
-/
namespace CFrontend

namespace Lexer

/-- A token or an error is read alike whatever follows the text. -/
theorem next_of_failure {lexer : Lexer} {item : Item} {pos : Position} (given : lexer.next.1 = some item)
    (located : item.pos? = some pos) (failure : Option String) :
    ({ lexer with failure := failure } : Lexer).next = (some item,{ lexer.next.2 with failure := failure }) := by
  unfold next at given ⊢
  dsimp only [skip] at given ⊢
  split
  · rename_i unclosed
    rw [if_pos unclosed] at given
    rw [← given]
  · rename_i closed
    rw [if_neg closed] at given
    split
    · rename_i first rest text
      rw [text] at given
      rw [← given]
      rfl
    · -- At the end there is a failure or nothing, and neither has a place.
      rename_i text
      rw [text] at given
      dsimp only at given
      cases pending : lexer.failure with
      | none => simp [pending] at given
      | some message =>
        rw [pending] at given
        obtain rfl := Option.some.inj given
        simp [Item.pos?] at located

/-- Where a text ends, a lexer finds the failure that stands there, if there is one. -/
theorem next_of_end {lexer : Lexer} (given : lexer.next.1 = none) (failure : Option String) :
    ({ lexer with failure := failure } : Lexer).next.1 = failure.map .failure := by
  rcases ({ lexer with failure := failure } : Lexer).next_cases with ⟨_,_,item,read,reads⟩ | ⟨found,-⟩
  · have alike := next_of_failure read reads.place lexer.failure
    have same : lexer.next.1 = some item := congrArg Prod.fst alike
    simp [same] at given
  · exact found

/-- The failure behind a text is the last item, and the others are those of the text alone. -/
theorem all_failing (lexer : Lexer) (ends : lexer.failure = none) (message : String) :
    ({ lexer with failure := some message } : Lexer).all.1 = lexer.all.1 ++ [.failure message] := by
  induction lexer using all_induction with
  | read lexer gap lexeme item given reads all ih =>
    rw [all_items,next_of_failure given reads.place,all]
    exact congrArg (item :: ·) (ih (reads.failure.trans ends))
  | ended lexer given all =>
    rw [ends] at given
    rw [all,ends,Lexer.all,take_of_end (next_of_end given (some message))]
    rfl

/-- A text that simply ends gives no failure. -/
theorem failure_not_mem_all (lexer : Lexer) (ends : lexer.failure = none) (message : String) :
    .failure message ∉ lexer.all.1 := by
  induction lexer using all_induction with
  | read lexer gap lexeme item given reads all ih =>
    rw [all,List.mem_cons]
    rintro (rfl | later)
    · exact absurd reads.place (by simp [Item.pos?])
    · exact ih (reads.failure.trans ends) later
  | ended lexer given all =>
    rw [all,ends]
    exact List.not_mem_nil

/-- Behind all items a lexer stands at the end, with nothing left to report. -/
theorem all_finished (lexer : Lexer) : lexer.all.2.rest = [] ∧ lexer.all.2.failure = none := by
  induction lexer using all_induction with
  | read lexer gap lexeme item given reads all ih =>
    rw [all]
    exact ih
  | ended lexer given all =>
    rw [all]
    exact ⟨by simp,rfl⟩

end Lexer

namespace Buffer

/-- The buffer after some more calls. -/
def later (buffer : Buffer) : (calls : Nat) → Buffer
  | 0 => buffer
  | calls + 1 => (buffer.later calls).nextItem.2

variable {buffer : Buffer} {lexer : Lexer}

theorem Represents.later (represents : buffer.Represents lexer) (calls : Nat) :
    (buffer.later calls).Represents (lexer.after calls) := by
  induction calls with
  | zero => exact represents
  | succ calls ih => exact ih.nextItem.2

private theorem represents_all (source : Source) : (start source).items.2.Represents (Lexer.start source).all.2 := by
  have size : (start source).size = (Lexer.start source).rest.length := by simp [start,Buffer.size,Lexer.start]
  unfold items Lexer.all
  rw [size]
  exact ((represents_start source).takeItems _).2

/-- A source that fails behind its text gives the items of the text, none of which is a failure, and then the failure. These
    are also what the calls give one after the other, and every later call finds the end. -/
theorem failure_delivered_once (chars : List Char) (message : String) :
    (start ⟨chars,some message⟩).items.1 = (start ⟨chars,none⟩).items.1 ++ [.failure message] ∧
    (∀ other, .failure other ∉ (start ⟨chars,none⟩).items.1) ∧
    (∀ calls, item ⟨chars,some message⟩ calls = ((start ⟨chars,none⟩).items.1 ++ [.failure message])[calls]?) ∧
    ∀ calls, ((start ⟨chars,some message⟩).items.2.later calls).nextItem.1 = none := by
  have all : (start ⟨chars,some message⟩).items.1 = (start ⟨chars,none⟩).items.1 ++ [.failure message] := by
    rw [items_start,items_start]
    exact (Lexer.start ⟨chars,none⟩).all_failing rfl message
  refine ⟨all,fun other => ?_,fun calls => ?_,fun calls => ?_⟩
  · rw [items_start]
    exact (Lexer.start ⟨chars,none⟩).failure_not_mem_all rfl other
  · rw [← all,items_start,item_eq]
    exact (Lexer.take_getElem? (Nat.lt_succ_self _) calls).symm
  · obtain ⟨rest,failure⟩ := (Lexer.start ⟨chars,some message⟩).all_finished
    rw [((represents_all ⟨chars,some message⟩).later calls).nextItem.1]
    exact Lexer.after_finished rest failure calls

end Buffer

end CFrontend
