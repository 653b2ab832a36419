/-!
A byte text need not be well-formed UTF-8. Reading it gives fragments: each well-formed sequence
is a character, and each byte that belongs to none stands alone.
-/
namespace CFrontend.Text

/-- The character shown for what is not a character. -/
def replacement : Char := '\uFFFD'

/-- What a byte text is made of. -/
inductive Fragment where
  | char (c : Char)
  | stray (byte : UInt8)
deriving DecidableEq, Repr

/-- The UTF-8 bytes of a sequence of characters. -/
def encode (cs : List Char) : List UInt8 := cs.flatMap String.utf8EncodeChar

/-- The UTF-8 bytes of a string. -/
def bytesOf (text : String) : List UInt8 := encode text.toList

/-- The first byte of a text as the character with that number. -/
def firstByte (cs : List Char) : Char :=
  ((encode cs).head?.map fun byte => Char.ofNat byte.toNat).getD '\x00'

/-- The character with a code point, or nothing for a surrogate or a number out of range. -/
def scalar? (code : Nat) : Option Char :=
  if code.isValidChar then some (Char.ofNat code) else none

/-- The character with a code point; every other number stands for the replacement character. -/
def charOfCode (code : Int) : Char :=
  if code < 0 then replacement else (scalar? code.toNat).getD replacement

/-- The six payload bits of a continuation byte. -/
def continuation? (byte : UInt8) : Option Nat :=
  if 0x80 ≤ byte.toNat && byte.toNat ≤ 0xbf then some (byte.toNat - 0x80) else none

/-- The character that a byte text starts with and the number of its bytes. Overlong forms,
    surrogates and numbers above the last code point are not characters. -/
def leading? : List UInt8 → Option (Char × Nat)
  | [] => none
  | a :: rest =>
    let lead := a.toNat
    if lead < 0x80 then some (Char.ofNat lead,1)
    else if 0xc2 ≤ lead && lead ≤ 0xdf then
      match rest with
      | b :: _ => do
        let x ← continuation? b
        return (← scalar? ((lead - 0xc0) * 64 + x),2)
      | _ => none
    else if 0xe0 ≤ lead && lead ≤ 0xef then
      match rest with
      | b :: c :: _ => do
        let x ← continuation? b
        let y ← continuation? c
        let code := ((lead - 0xe0) * 64 + x) * 64 + y
        if code < 0x800 then none else return (← scalar? code,3)
      | _ => none
    else if 0xf0 ≤ lead && lead ≤ 0xf4 then
      match rest with
      | b :: c :: d :: _ => do
        let x ← continuation? b
        let y ← continuation? c
        let z ← continuation? d
        let code := (((lead - 0xf0) * 64 + x) * 64 + y) * 64 + z
        if code < 0x10000 then none else return (← scalar? code,4)
      | _ => none
    else none

/-- The fragments of a byte text, in order. -/
def fragments : List UInt8 → List Fragment
  | [] => []
  | byte :: rest =>
    match leading? (byte :: rest) with
    | some (c,length) => .char c :: fragments (rest.drop (length - 1))
    | none => .stray byte :: fragments rest
termination_by bytes => bytes.length
decreasing_by all_goals simp only [List.length_cons,List.length_drop]; omega

/-- A fragment as a character, a stray byte as the replacement character. -/
def Fragment.toChar : Fragment → Char
  | .char c => c
  | .stray _ => replacement

/-- The characters of a byte text, each stray byte as one replacement character. -/
def decode (bytes : List UInt8) : List Char := (fragments bytes).map Fragment.toChar

/-- The same characters as a string. -/
def display (bytes : List UInt8) : String := String.ofList (decode bytes)

/-- Whether a byte text is well-formed UTF-8. -/
def isWellFormed (bytes : List UInt8) : Bool :=
  (fragments bytes).all fun
    | .char _ => true
    | .stray _ => false

/-- The characters of a byte text, each run of stray bytes as one replacement character.
    `inRun` tells whether the fragment before was stray. -/
def collapseFrom (inRun : Bool) : List Fragment → List Char
  | [] => []
  | .char c :: rest => c :: collapseFrom false rest
  | .stray _ :: rest =>
    if inRun then collapseFrom true rest else replacement :: collapseFrom true rest

/-- Makes a byte text well formed: each run of stray bytes becomes one replacement character. -/
def collapse (bytes : List UInt8) : List UInt8 := encode (collapseFrom false (fragments bytes))

end CFrontend.Text
