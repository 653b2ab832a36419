import CFrontend.Proofs.LookaheadTable
import CFrontend.Proofs.ShiftReduce

/-!
Which items can be valid together, bounded by a table. Items are numbered by rule and dot, and a set of items is
one number whose bits tell the members, so that moving a whole set over a symbol is a shift. A table
has for each nonterminal the items that can be valid where it comes next; from there the items
that can be valid with any other item are computed along its rule. A table that passes the
check bounds the items that are valid for a stack (`covers_of_valid`), and the check finds
no clash among those (`apart_of_checked`).
-/
namespace CFrontend.Grammar

/-- Sets of items by the number of a symbol. The item of the rule with number `index` and a dot has the number
    `dot * count + index`. -/
structure ItemTable where
  /-- The number of rules. -/
  count : Nat
  /-- What the numbers of nonterminals stay below. -/
  bound : Nat
  /-- The items that have the symbol next. -/
  before : Nat → Nat
  /-- The items that have a nonterminal next. -/
  predicting : Nat
  /-- The items that have a terminal next. -/
  waiting : Nat
  /-- The items with nothing left. -/
  complete : Nat
  /-- The items at the start of a rule that are valid wherever the nonterminal comes next. -/
  opening : Nat → Nat
  /-- The items that can be valid where the nonterminal comes next. -/
  live : Nat → Nat

namespace ItemTable

/-- The number of an item. -/
def number (table : ItemTable) (index dot : Nat) : Nat := dot * table.count + index

/-- Adds the items that start where an item of a set has the nonterminal next. -/
def addOpening (table : ItemTable) (set closed symbol : Nat) : Nat :=
  bif Nat.beq (set &&& table.before symbol) 0 then closed else closed ||| table.opening symbol

/-- Adds the items that start where items of a set have a nonterminal next. -/
def close (table : ItemTable) (set : Nat) : Nat :=
  bif Nat.beq (set &&& table.predicting) 0 then set
  else (List.range' 100 (table.bound - 100)).foldl (table.addOpening set) set

/-- The items that are valid behind a symbol when those of a set are valid in front of it. -/
def step (table : ItemTable) (set symbol : Nat) : Nat := table.close ((set &&& table.before symbol) <<< table.count)

/-- Whether no item of a set waits for one of the terminals. -/
def quiet (table : ItemTable) (set terminals : Nat) : Bool :=
  Nat.beq (set &&& table.waiting) 0 ||
    (List.range 100).all fun symbol => !terminals.testBit symbol || Nat.beq (set &&& table.before symbol) 0

/-- Checks a rule from a dot on, where the items of a set can be valid with the item of the rule. -/
def walk (table : ItemTable) (follow index : Nat) : (dot set : Nat) → List Nat → Bool
  | dot, set, [] => table.complete.testBit (table.number index dot) &&
      contained (set &&& table.complete) (1 <<< table.number index dot) && table.quiet set follow
  | dot, set, symbol :: rest => (table.before symbol).testBit (table.number index dot) &&
      (bif isTerminal symbol then table.waiting.testBit (table.number index dot)
        else Nat.blt symbol table.bound && table.predicting.testBit (table.number index dot) &&
          contained set (table.live symbol)) &&
      table.walk follow index (dot + 1) (table.step set symbol) rest

/-- What a rule opens at its start. -/
def opened (table : ItemTable) : List Nat → Nat
  | [] => 0
  | symbol :: _ => bif isTerminal symbol then 0 else table.opening symbol

/-- Checks a rule. -/
def ruleChecked (table : ItemTable) (lookaheads : Lookaheads) (index : Nat) : NumberedRule → Bool
  | (lhs,rhs) => (table.opening lhs).testBit index && contained (table.opened rhs) (table.opening lhs) &&
      contained (table.opening lhs) (table.live lhs) && table.walk (lookaheads.follow lhs) index 0 (table.live lhs) rhs

/-- Checks a table for rules. -/
def checked (table : ItemTable) (lookaheads : Lookaheads) (rules : List NumberedRule) : Bool :=
  Nat.beq table.count rules.length && rules.zipIdx.all fun (rule,index) => table.ruleChecked lookaheads index rule

/-- The table passes the check for a grammar. -/
def CheckedFor (table : ItemTable) (lookaheads : Lookaheads) (numbering : Numbering) (grammar : Grammar) : Prop :=
  table.checked lookaheads (grammar.rules.map numbering.rule) = true

/-! ### Moving a set over a symbol -/

variable {table : ItemTable}

private theorem testBit_addOpening (set symbol : Nat) {closed n : Nat} (member : closed.testBit n = true) :
    (table.addOpening set closed symbol).testBit n = true := by
  unfold addOpening
  cases Nat.beq (set &&& table.before symbol) 0 with
  | true => exact member
  | false => simp [member]

private theorem testBit_addOpenings (set : Nat) (symbols : List Nat) {closed n : Nat} (member : closed.testBit n = true) :
    (symbols.foldl (table.addOpening set) closed).testBit n = true := by
  induction symbols generalizing closed with
  | nil => exact member
  | cons symbol rest ih => exact ih (testBit_addOpening set symbol member)

private theorem testBit_close {set n : Nat} (member : set.testBit n = true) : (table.close set).testBit n = true := by
  unfold close
  cases Nat.beq (set &&& table.predicting) 0 with
  | true => exact member
  | false => exact testBit_addOpenings set _ member

private theorem beq_inter_zero {first second n : Nat} (left : first.testBit n = true) (right : second.testBit n = true) :
    Nat.beq (first &&& second) 0 = false := by
  rw [← Bool.not_eq_true]
  intro none
  have bit : (first &&& second).testBit n = true := by rw [Nat.testBit_and,left,right,Bool.and_self]
  rw [Nat.eq_of_beq_eq_true none,Nat.zero_testBit] at bit
  exact Bool.noConfusion bit

private theorem contained_close {set symbol n : Nat} (member : set.testBit n = true)
    (before : (table.before symbol).testBit n = true) (predicting : table.predicting.testBit n = true)
    (above : isTerminal symbol = false) (below : symbol < table.bound) :
    contained (table.opening symbol) (table.close set) = true := by
  have inside : symbol ∈ List.range' 100 (table.bound - 100) := by
    rw [isTerminal,← Bool.not_eq_true,Nat.blt_eq] at above
    rw [List.mem_range'_1]
    omega
  obtain ⟨front,back,split⟩ := List.append_of_mem inside
  rw [close,beq_inter_zero member predicting,cond_false,split,List.foldl_append,List.foldl_cons]
  refine contained_of_testBit fun m opened => testBit_addOpenings set back ?_
  rw [addOpening,beq_inter_zero member before,cond_false,Nat.testBit_or,opened,Bool.or_true]

private theorem testBit_moved {set symbol n : Nat} (member : set.testBit n = true)
    (before : (table.before symbol).testBit n = true) :
    ((set &&& table.before symbol) <<< table.count).testBit (n + table.count) = true := by
  simp [Nat.testBit_shiftLeft,member,before]

/-! ### What the check says of an item -/

variable {grammar : Grammar} {numbering : Numbering} {lookaheads : Lookaheads}

/-- The items that the table allows to be valid with an item. -/
def companions (table : ItemTable) (numbering : Numbering) (item : Item) : Nat :=
  ((item.rule.rhs.take item.dot).map numbering.number).foldl table.step
    (table.live (numbering.number (.nonterminal item.rule.lhs)))

private theorem walk_append {follow index dot set : Nat} (left right : List Nat)
    (checked : table.walk follow index dot set (left ++ right) = true) :
    table.walk follow index (dot + left.length) (left.foldl table.step set) right = true := by
  induction left generalizing dot set with
  | nil => exact checked
  | cons symbol rest ih =>
    simp only [List.cons_append,walk,Bool.and_eq_true] at checked
    rw [List.length_cons,← Nat.add_assoc,Nat.add_right_comm]
    exact ih checked.2

theorem CheckedFor.rule (checked : table.CheckedFor lookaheads numbering grammar) {rule : Rule} {index : Nat}
    (listed : grammar.rules[index]? = some rule) :
    table.ruleChecked lookaheads index (numbering.rule rule) = true := by
  simp only [CheckedFor,ItemTable.checked,Bool.and_eq_true,List.all_eq_true] at checked
  refine checked.2 (numbering.rule rule,index) (List.mem_zipIdx_iff_getElem?.mpr ?_)
  simp [listed]

private theorem CheckedFor.walk (checked : table.CheckedFor lookaheads numbering grammar) {item : Item} {index : Nat}
    (listed : grammar.rules[index]? = some item.rule) (reached : item.dot ≤ item.rule.rhs.length) :
    table.walk (lookaheads.follow (numbering.number (.nonterminal item.rule.lhs))) index item.dot
      (table.companions numbering item) ((item.rule.rhs.drop item.dot).map numbering.number) = true := by
  have whole := checked.rule listed
  simp only [ruleChecked,Numbering.rule,Bool.and_eq_true] at whole
  have split := whole.2
  rw [← List.take_append_drop item.dot item.rule.rhs,List.map_append] at split
  have rest := walk_append _ _ split
  rw [List.length_map,List.length_take,Nat.min_eq_left reached,Nat.zero_add] at rest
  exact rest

/-- What is checked where an item has a symbol next. -/
theorem CheckedFor.next (checked : table.CheckedFor lookaheads numbering grammar) {item : Item} {index : Nat}
    (listed : grammar.rules[index]? = some item.rule) {symbol : Symbol} (next : item.next? = some symbol) :
    (table.before (numbering.number symbol)).testBit (table.number index item.dot) = true ∧
    match symbol with
    | .terminal _ => table.waiting.testBit (table.number index item.dot) = true
    | .nonterminal _ => numbering.number symbol < table.bound ∧
      table.predicting.testBit (table.number index item.dot) = true ∧
      contained (table.companions numbering item) (table.live (numbering.number symbol)) = true := by
  obtain ⟨inside,same⟩ := List.getElem?_eq_some_iff.mp next
  have here := checked.walk listed (Nat.le_of_lt inside)
  rw [List.drop_eq_getElem_cons inside,same,List.map_cons] at here
  simp only [ItemTable.walk,Bool.and_eq_true] at here
  refine ⟨here.1.1,?_⟩
  have sort := here.1.2
  cases symbol with
  | terminal kind => simpa [(numbering.terminal kind).1] using sort
  | nonterminal name => simpa [numbering.nonterminal name,and_assoc] using sort

/-- What is checked where an item is complete. -/
theorem CheckedFor.finished (checked : table.CheckedFor lookaheads numbering grammar) {rule : Rule} {index : Nat}
    (listed : grammar.rules[index]? = some rule) :
    table.complete.testBit (table.number index rule.rhs.length) = true ∧
    contained (table.companions numbering ⟨rule,rule.rhs.length⟩ &&& table.complete)
      (1 <<< table.number index rule.rhs.length) = true ∧
    table.quiet (table.companions numbering ⟨rule,rule.rhs.length⟩)
      (lookaheads.follow (numbering.number (.nonterminal rule.lhs))) = true := by
  have item : grammar.rules[index]? = some (Item.rule ⟨rule,rule.rhs.length⟩) := listed
  have here := checked.walk item (Nat.le_refl _)
  simpa [ItemTable.walk,and_assoc] using here

/-- What is checked where a rule starts: it is opened with its nonterminal, so is what it has first, and all that is
    opened is live. -/
theorem CheckedFor.opened (checked : table.CheckedFor lookaheads numbering grammar) {rule : Rule} {index : Nat}
    (listed : grammar.rules[index]? = some rule) :
    (table.opening (numbering.number (.nonterminal rule.lhs))).testBit index = true ∧
    (∀ name, rule.rhs[0]? = some (.nonterminal name) → contained (table.opening (numbering.number (.nonterminal name)))
      (table.opening (numbering.number (.nonterminal rule.lhs))) = true) ∧
    contained (table.opening (numbering.number (.nonterminal rule.lhs)))
      (table.live (numbering.number (.nonterminal rule.lhs))) = true := by
  have whole := checked.rule listed
  simp only [ruleChecked,Numbering.rule,Bool.and_eq_true] at whole
  refine ⟨whole.1.1.1,fun name first => ?_,whole.1.2⟩
  obtain ⟨tail,rhs⟩ := List.head?_eq_some_iff.mp (List.head?_eq_getElem? .. ▸ first)
  simpa [rhs,ItemTable.opened,numbering.nonterminal name] using whole.1.1.2

private theorem companions_advance (table : ItemTable) (numbering : Numbering) {item : Item} {symbol : Symbol}
    (next : item.next? = some symbol) : table.companions numbering item.advance =
      table.step (table.companions numbering item) (numbering.number symbol) := by
  have taken : item.rule.rhs.take (item.dot + 1) = item.rule.rhs.take item.dot ++ [symbol] := by
    rw [List.take_add_one,show item.rule.rhs[item.dot]? = some symbol from next,Option.toList_some]
  simp only [companions,Item.advance]
  rw [taken,List.map_append,List.foldl_append,List.map_singleton,List.foldl_cons,List.foldl_nil]

/-! ### Valid items -/

/-- The set has every item that is valid for the stack. -/
def Covers (table : ItemTable) (grammar : Grammar) (set : Nat) (stack : List Symbol) : Prop :=
  ∀ item, grammar.Valid stack item → ∀ index, grammar.rules[index]? = some item.rule →
    set.testBit (table.number index item.dot) = true

/-- A set has every valid item when it has those at the start or behind the last symbol, with what they open. -/
theorem covers_of_kernel (checked : table.CheckedFor lookaheads numbering grammar) {set : Nat} {stack : List Symbol}
    (starts : stack = [] → contained (table.opening (numbering.number (.nonterminal grammar.start))) set = true)
    (kernel : ∀ item symbol rest, stack = symbol :: rest → grammar.Valid rest item → item.next? = some symbol →
      ∀ index, grammar.rules[index]? = some item.rule → set.testBit (table.number index item.advance.dot) = true ∧
      ∀ name, item.advance.next? = some (.nonterminal name) →
        contained (table.opening (numbering.number (.nonterminal name))) set = true) :
    table.Covers grammar set stack := by
  -- A rule that starts where its nonterminal is opened is in the set, and what it opens in turn.
  have predicted : ∀ {rule : Rule},
      contained (table.opening (numbering.number (.nonterminal rule.lhs))) set = true → ∀ index,
      grammar.rules[index]? = some rule → set.testBit (table.number index 0) = true ∧
      ∀ name, Item.next? ⟨rule,0⟩ = some (.nonterminal name) →
        contained (table.opening (numbering.number (.nonterminal name))) set = true := by
    intro rule inside index listed
    obtain ⟨own,first,-⟩ := checked.opened listed
    refine ⟨?_,fun name next => contained_trans (first name next) inside⟩
    rw [number,Nat.zero_mul,Nat.zero_add]
    exact testBit_of_contained inside own
  have both : ∀ item, grammar.Valid stack item → ∀ index, grammar.rules[index]? = some item.rule →
      set.testBit (table.number index item.dot) = true ∧
      ∀ name, item.next? = some (.nonterminal name) →
        contained (table.opening (numbering.number (.nonterminal name))) set = true := by
    intro item valid
    induction valid with
    | @start rule member lhs =>
      have inside := starts rfl
      rw [← lhs] at inside
      exact predicted inside
    | @predict stack item rule valid next member ih =>
      obtain ⟨index,listed⟩ := List.mem_iff_getElem?.mp valid.rule_mem
      exact predicted ((ih starts kernel index listed).2 _ next)
    | advance valid next _ => exact kernel _ _ _ rfl valid next
  exact fun item valid index listed => (both item valid index listed).1

private theorem covers_step (checked : table.CheckedFor lookaheads numbering grammar) {set : Nat} {stack : List Symbol}
    (covers : table.Covers grammar set stack) (symbol : Symbol) :
    table.Covers grammar (table.step set (numbering.number symbol)) (symbol :: stack) := by
  refine covers_of_kernel checked (by simp) ?_
  rintro item _ _ ⟨rfl,rfl⟩ valid next index listed
  have moved : ((set &&& table.before (numbering.number symbol)) <<< table.count).testBit
      (table.number index item.advance.dot) = true := by
    have member := testBit_moved (covers item valid index listed) (checked.next listed next).1
    rwa [number,Nat.add_right_comm,← Nat.succ_mul] at member
  refine ⟨testBit_close moved,fun name later => ?_⟩
  have advanced : grammar.rules[index]? = some item.advance.rule := listed
  obtain ⟨before,below,predicting,-⟩ := checked.next advanced later
  exact contained_close moved before predicting (numbering.nonterminal name) below

/-- The table allows every item that is valid together with a valid item. -/
theorem covers_of_valid (checked : table.CheckedFor lookaheads numbering grammar) {stack : List Symbol} {item : Item}
    (valid : grammar.Valid stack item) : table.Covers grammar (table.companions numbering item) stack := by
  induction valid with
  | @start rule member lhs =>
    obtain ⟨index,listed⟩ := List.mem_iff_getElem?.mp member
    have inside := (checked.opened listed).2.2
    refine covers_of_kernel checked (fun _ => ?_) (by simp)
    rw [← lhs]
    exact inside
  | @predict stack item rule valid next member ih =>
    obtain ⟨index,listed⟩ := List.mem_iff_getElem?.mp valid.rule_mem
    obtain ⟨-,-,-,inside⟩ := checked.next listed next
    exact fun other valid index listed => testBit_of_contained inside (ih other valid index listed)
  | @advance stack item symbol valid next ih =>
    rw [companions_advance table numbering next]
    exact covers_step checked ih symbol

/-! ### Clashes -/

private theorem not_quiet {set terminals n : Nat} {kind : TokenKind} (member : set.testBit n = true)
    (waiting : table.waiting.testBit n = true)
    (before : (table.before (numbering.number (.terminal kind))).testBit n = true)
    (follows : terminals.testBit (numbering.number (.terminal kind)) = true) : table.quiet set terminals = false := by
  have small := (numbering.terminal kind).1
  rw [isTerminal,Nat.blt_eq] at small
  rw [quiet,beq_inter_zero member waiting,Bool.false_or,List.all_eq_false]
  exact ⟨numbering.number (.terminal kind),List.mem_range.mpr small,by simp [follows,beq_inter_zero member before]⟩

private theorem index_of_number {count index index' dot dot' : Nat} (here : index < count) (there : index' < count)
    (same : dot * count + index = dot' * count + index') : index = index' := by
  have left : (dot * count + index) % count = index := by rw [Nat.mul_add_mod_self_right,Nat.mod_eq_of_lt here]
  have right : (dot' * count + index') % count = index' := by rw [Nat.mul_add_mod_self_right,Nat.mod_eq_of_lt there]
  rw [← left,same,right]

theorem CheckedFor.count (checked : table.CheckedFor lookaheads numbering grammar) :
    table.count = grammar.rules.length := by
  simp only [CheckedFor,ItemTable.checked,Bool.and_eq_true,List.length_map] at checked
  exact Nat.eq_of_beq_eq_true checked.1

/-- Among the items that the table allows with a complete item, no other one is complete. -/
theorem CheckedFor.index_eq (checked : table.CheckedFor lookaheads numbering grammar) {rule rule' : Rule}
    {index index' : Nat} (listed : grammar.rules[index]? = some rule) (listed' : grammar.rules[index']? = some rule')
    (together : (table.companions numbering ⟨rule,rule.rhs.length⟩).testBit (table.number index' rule'.rhs.length) = true) :
    index = index' := by
  obtain ⟨-,alone,-⟩ := checked.finished listed
  have complete := (checked.finished listed').1
  have only := testBit_of_contained alone (by rw [Nat.testBit_and,together,complete,Bool.and_self])
  rw [Nat.one_shiftLeft,Nat.testBit_two_pow,decide_eq_true_eq,number,number,checked.count] at only
  exact index_of_number (List.getElem?_eq_some_iff.mp listed).1 (List.getElem?_eq_some_iff.mp listed').1 only

/-- Tables that pass their checks show that no two valid items clash. -/
theorem apart_of_checked (closed : lookaheads.ClosedFor numbering grammar)
    (checked : table.CheckedFor lookaheads numbering grammar) : grammar.Apart := by
  intro stack first second valid valid' clash
  obtain ⟨done,choice⟩ := clash
  obtain ⟨index,listed⟩ := List.mem_iff_getElem?.mp valid.rule_mem
  obtain ⟨index',listed'⟩ := List.mem_iff_getElem?.mp valid'.rule_mem
  have last : first.dot = first.rule.rhs.length :=
    Nat.le_antisymm valid.dot_le (List.getElem?_eq_none_iff.mp done)
  have together := covers_of_valid checked valid second valid' index' listed'
  obtain ⟨-,-,quiet⟩ := checked.finished listed
  rw [← last] at quiet
  rcases choice with ⟨kind,next,follows⟩ | ⟨done',differ,-⟩
  · obtain ⟨before,waiting⟩ := checked.next listed' next
    rw [not_quiet together waiting before (lookaheads.testBit_follow closed follows)] at quiet
    exact Bool.noConfusion quiet
  · have last' : second.dot = second.rule.rhs.length :=
      Nat.le_antisymm valid'.dot_le (List.getElem?_eq_none_iff.mp done')
    rw [last'] at together
    obtain rfl := checked.index_eq listed listed' (by rw [← last]; exact together)
    exact differ (Option.some.inj (listed.symm.trans listed'))

/-- The table allows an item with itself, under each number that its rule has. -/
theorem testBit_companions (checked : table.CheckedFor lookaheads numbering grammar) {rule : Rule} {index dot : Nat}
    (listed : grammar.rules[index]? = some rule) (reached : dot ≤ rule.rhs.length) :
    (table.companions numbering ⟨rule,dot⟩).testBit (table.number index dot) = true := by
  induction dot with
  | zero =>
    obtain ⟨own,-,live⟩ := checked.opened listed
    rw [number,Nat.zero_mul,Nat.zero_add]
    exact testBit_of_contained live own
  | succ dot ih =>
    have item : grammar.rules[index]? = some (Item.rule ⟨rule,dot⟩) := listed
    have next : Item.next? ⟨rule,dot⟩ = some rule.rhs[dot] := List.getElem?_eq_getElem reached
    have moved := testBit_moved (ih (Nat.le_of_succ_le reached)) (checked.next item next).1
    rw [number,Nat.add_right_comm,← Nat.succ_mul] at moved
    have here := companions_advance table numbering next
    rw [Item.advance] at here
    rw [here]
    exact testBit_close moved

/-- A grammar with a table that passes its check has no rule twice. -/
theorem nodup_of_checked (checked : table.CheckedFor lookaheads numbering grammar) : grammar.rules.Nodup := by
  rw [List.nodup_iff_getElem?_ne_getElem?]
  intro index index' less inside same
  obtain ⟨rule,listed'⟩ : ∃ rule, grammar.rules[index']? = some rule := ⟨_,List.getElem?_eq_getElem inside⟩
  have listed := same.trans listed'
  have := checked.index_eq listed listed' (testBit_companions checked listed' (Nat.le_refl _))
  omega

/-! ### Finding a table -/

open Lookaheads (member addTo repeated)

/-- The items of rules that are not complete, each with the symbol it has next. -/
def positions (rules : List NumberedRule) : List (Nat × Nat) :=
  rules.zipIdx.flatMap fun ((_,rhs),index) => rhs.zipIdx.map fun (symbol,dot) => (symbol,dot * rules.length + index)

/-- Adds to what each nonterminal opens, the last rule first. -/
def openingPass (rules : List NumberedRule) (family : Nat) : Nat :=
  rules.zipIdx.foldr (fun ((lhs,rhs),index) family =>
    addTo rules.length (addTo rules.length family lhs (1 <<< index)) lhs (match rhs with
      | [] => 0
      | symbol :: _ => bif isTerminal symbol then 0 else member rules.length family symbol)) family

/-- The table without the items that can be valid where a nonterminal comes next. -/
def unlit (passes width : Nat) (rules : List NumberedRule) : ItemTable where
  count := rules.length
  bound := rules.foldl (fun bound (lhs,_) => max bound (lhs + 1)) 100
  before := member width ((positions rules).foldl (fun family (symbol,item) => addTo width family symbol (1 <<< item)) 0)
  predicting := (positions rules).foldl (fun set (symbol,item) => bif isTerminal symbol then set else set ||| 1 <<< item) 0
  waiting := (positions rules).foldl (fun set (symbol,item) => bif isTerminal symbol then set ||| 1 <<< item else set) 0
  complete := rules.zipIdx.foldl (fun set ((_,rhs),index) => set ||| 1 <<< (rhs.length * rules.length + index)) 0
  opening := member rules.length (repeated (openingPass rules) passes 0)
  live := fun _ => 0

/-- Carries the items of a set along a right-hand side and adds them where a nonterminal comes next. -/
def spread (table : ItemTable) (width : Nat) : List Nat → (set family : Nat) → Nat
  | [], _, family => family
  | symbol :: rest, set, family => table.spread width rest (table.step set symbol)
      (bif isTerminal symbol then family else addTo width family symbol set)

/-- Carries items along each rule, the first rule first. -/
def livePass (table : ItemTable) (width : Nat) (rules : List NumberedRule) (family : Nat) : Nat :=
  rules.foldl (fun family (lhs,rhs) => table.spread width rhs (member width family lhs) family) family

/-- A table for rules and a start symbol, found by passes over the rules. Whether the passes were enough and the
    width is large enough for all items is left to the check. -/
def ofRules (passes width : Nat) (rules : List NumberedRule) (start : Nat) : ItemTable :=
  let table := unlit passes width rules
  { table with live := member width (repeated (table.livePass width rules) passes (addTo width 0 start (table.opening start))) }

end ItemTable

end CFrontend.Grammar
