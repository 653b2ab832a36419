import CFrontend.Lexer.Basic

/-!
A buffer hands out the characters of a source one by one, each with its place. Characters that were
read too far are pushed back and handed out again, so that a reader may look as far ahead as it
needs. The end of the source is looked for only once.
-/
namespace CFrontend

/-- A character and its place. -/
structure PlacedChar where
  char : Char
  pos : Position
deriving DecidableEq, Repr

/-- A source that is being read. -/
structure Buffer where
  /-- The characters that were never handed out. -/
  unread : List Char
  /-- The place of the first of them. -/
  place : Position
  /-- The characters that were pushed back, the last one first. -/
  pushed : List PlacedChar
  /-- What the source fails with behind its last character, if it does not simply end there. -/
  behind : Option String
  /-- Whether the end was found. -/
  ended : Bool
  /-- The failure that was found at the end, until it is reported. -/
  failure : Option String
deriving Repr

namespace Buffer

/-- The buffer at the start of a source. -/
def start (source : Source) : Buffer := ⟨source.chars,.origin,[],source.failure,false,none⟩

/-- The characters from here on. -/
def remaining (buffer : Buffer) : List Char := buffer.pushed.map (·.char) ++ buffer.unread

/-- The place of the next character. -/
def position (buffer : Buffer) : Position :=
  match buffer.pushed with
  | c :: _ => c.pos
  | [] => buffer.place

/-- The next character, if there is one. -/
def next (buffer : Buffer) : Option PlacedChar × Buffer :=
  match buffer.pushed with
  | c :: pushed => (some c,{ buffer with pushed := pushed })
  | [] =>
    if buffer.ended then (none,buffer)
    else match buffer.unread with
      | [] => (none,{ buffer with ended := true,failure := buffer.behind })
      | c :: unread =>
        (some ⟨c,buffer.place⟩,{ buffer with unread := unread,place := buffer.place.after c })

/-- Pushes a character back. -/
def back (buffer : Buffer) (c : PlacedChar) : Buffer := { buffer with pushed := c :: buffer.pushed }

/-- Pushes characters back, the last one first. -/
def backAll (buffer : Buffer) (read : List PlacedChar) : Buffer :=
  read.reverse.foldl back buffer

/-- The next character, which stays the next one. -/
def peek (buffer : Buffer) : Option Char × Buffer :=
  match buffer.next with
  | (some c,after) => (some c.char,after.back c)
  | (none,after) => (none,after)

/-- Reads `count` characters behind those that were read already. With too few characters left all
    of them are pushed back. -/
def readCount (read : List PlacedChar) : (count : Nat) → Buffer → Option (List Char) × Buffer
  | 0, buffer => (some (read.map (·.char)),buffer)
  | count + 1, buffer => match buffer.next with
    | (some c,after) => readCount (read ++ [c]) count after
    | (none,after) => (none,after.backAll read)

/-- The number of characters from here on. -/
def size (buffer : Buffer) : Nat := buffer.pushed.length + buffer.unread.length

theorem size_next {buffer after : Buffer} {c : PlacedChar} (read : buffer.next = (some c,after)) :
    after.size + 1 = buffer.size := by
  unfold next at read
  split at read
  · obtain ⟨-,rfl⟩ := Prod.mk.inj read
    simp [size, *]
    omega
  · split at read
    · simp at read
    · split at read
      · simp at read
      · obtain ⟨-,rfl⟩ := Prod.mk.inj read
        simp [size, *]

theorem size_next_none {buffer after : Buffer} (read : buffer.next = (none,after)) :
    after.size = buffer.size := by
  unfold next at read
  split at read
  · simp at read
  · split at read
    · obtain ⟨-,rfl⟩ := Prod.mk.inj read
      rfl
    · split at read
      · obtain ⟨-,rfl⟩ := Prod.mk.inj read
        rfl
      · simp at read

@[simp] theorem size_back (buffer : Buffer) (c : PlacedChar) :
    (buffer.back c).size = buffer.size + 1 := by
  simp [size,back]
  omega

/-- Reads characters as long as they pass a test. -/
def readWhile (test : Char → Bool) (buffer : Buffer) : List Char × Buffer :=
  match _read : buffer.next with
  | (some c,after) =>
    if test c.char then
      let (others,last) := readWhile test after
      (c.char :: others,last)
    else ([],after.back c)
  | (none,after) => ([],after)
termination_by buffer.size
decreasing_by
  have := size_next _read
  omega

end Buffer

end CFrontend
