import CFrontend.Grammar.CLanguage
import CFrontend.Proofs.ItemTable

/-!
The tables of the grammar of C: what each nonterminal can begin with and be followed by, and which items can
be valid together. Both are found by a few passes over the numbered rules and then
checked, so that nothing has to be known of the passes (`lookaheads_closed`, `items_checked`).
-/
namespace CFrontend.CLanguage
open Grammar

/-- The bytes of a name as one number. -/
def nameKey (name : String) : Nat := name.toByteArray.data.toList.foldl (fun key byte => key * 256 + byte.toNat) 0

/-- The place of a key in a list, counted from `n` on. -/
def placeOf (key : Nat) : List Nat → (n : Nat) → Nat
  | [], n => n
  | other :: rest, n => bif Nat.beq key other then n else placeOf key rest (n + 1)

private theorem le_placeOf (key : Nat) (keys : List Nat) (n : Nat) : n ≤ placeOf key keys n := by
  induction keys generalizing n with
  | nil => exact Nat.le_refl n
  | cons other rest ih =>
    rw [placeOf]
    cases Nat.beq key other with
    | true => exact Nat.le_refl n
    | false => exact Nat.le_of_succ_le (ih (n + 1))

/-- The nonterminals, each one once. -/
def nameKeys : List Nat := (rules.map fun ⟨lhs,_⟩ => nameKey lhs).eraseDups

private theorem ctorIdx_lt (kind : TokenKind) : kind.ctorIdx < 99 := by
  cases kind <;> exact Nat.le_of_ble_eq_true rfl

/-- Terminals by their place among the kinds, nonterminals by the order in which the rules introduce them. -/
def numbering : Numbering where
  number
    | .terminal kind => kind.ctorIdx + 1
    | .nonterminal name => placeOf (nameKey name) nameKeys 100
  terminal kind := ⟨by simpa [isTerminal] using Nat.succ_lt_succ (ctorIdx_lt kind),by simp⟩
  nonterminal name := by simpa [isTerminal,← Bool.not_eq_true] using le_placeOf (nameKey name) nameKeys 100

/-- The rules by the numbers of their symbols. -/
def numbered : List NumberedRule := rules.map numbering.rule

def lookaheads : Lookaheads := .ofRules 3 numbered (numbering.number (.nonterminal "Start"))

def items : ItemTable := .ofRules 3 (16 * 197) numbered (numbering.number (.nonterminal "Start"))

/-- The lookaheads of the C grammar are closed under its rules. -/
theorem lookaheads_closed : lookaheads.ClosedFor numbering grammar := by
  show lookaheads.closed (rules.map numbering.rule) (numbering.number (.nonterminal "Start")) = true
  decide +kernel

/-- The items of the C grammar pass the check with these lookaheads. -/
theorem items_checked : items.CheckedFor lookaheads numbering grammar := by
  show items.checked lookaheads (rules.map numbering.rule) = true
  decide +kernel

end CFrontend.CLanguage
