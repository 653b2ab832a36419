import CFrontend.Proofs.EditorPlaces

/-!
How far a diagnostic reaches. It covers one code unit from its start, which is the character there unless this takes two
(`splitsPair_succ_iff`): then the diagnostic ends between the halves of a surrogate pair, one code unit before the next
character (`diagnose_stop`). It never starts there, since what stands before an error are whole characters.
-/
namespace CFrontend

/-! ### Surrogate pairs -/

/-- The offset lies between the two code units of a character of the line. -/
def SplitsPair (line : List Char) (offset : Nat) : Prop :=
  ∃ front c back, line = front ++ c :: back ∧ utf16Units front < offset ∧ offset < utf16Units front + utf16Length c

private theorem utf16Length_eq_one {c : Char} (plane : c.toNat < 0x10000) : utf16Length c = 1 := if_pos plane

private theorem utf16Length_eq_two {c : Char} (plane : 0x10000 ≤ c.toNat) : utf16Length c = 2 := if_neg (Nat.not_lt.mpr plane)

private theorem one_le_utf16Length (c : Char) : 1 ≤ utf16Length c := by
  by_cases plane : c.toNat < 0x10000
  · rw [utf16Length_eq_one plane]
  · rw [utf16Length_eq_two (Nat.not_lt.mp plane)]
    omega

private theorem utf16Units_concat (first : List Char) (c : Char) :
    utf16Units (first ++ [c]) = utf16Units first + utf16Length c := by
  rw [utf16Units_append,utf16Units_cons]
  rfl

/-- Behind whole characters no pair is split. -/
theorem not_splitsPair (first rest : List Char) : ¬ SplitsPair (first ++ rest) (utf16Units first) := by
  rintro ⟨front,c,back,same,after,before⟩
  rcases List.append_eq_append_iff.mp same with ⟨more,rfl,-⟩ | ⟨more,rfl,behind⟩
  · rw [utf16Units_append] at after
    omega
  · cases more with
    | nil =>
      rw [List.append_nil] at after
      omega
    | cons d more =>
      obtain ⟨rfl,-⟩ := List.cons.inj behind
      rw [utf16Units_append,utf16Units_cons] at before
      omega

/-- One code unit behind whole characters a pair is split when the next character is one. -/
theorem splitsPair_succ_iff (first rest : List Char) (c : Char) :
    SplitsPair (first ++ c :: rest) (utf16Units first + 1) ↔ 0x10000 ≤ c.toNat := by
  constructor
  · intro splits
    by_contra plane
    have whole := not_splitsPair (first ++ [c]) rest
    rw [utf16Units_concat,utf16Length_eq_one (by omega),List.append_assoc,List.singleton_append] at whole
    exact whole splits
  · intro plane
    refine ⟨first,c,rest,rfl,Nat.lt_succ_self _,?_⟩
    rw [utf16Length_eq_two plane]
    omega

/-! ### The next character -/

private theorem lastLine_concat {before : List Char} {c : Char} (inside : c ≠ '\n') :
    lastLine (before ++ [c]) = lastLine before ++ [c] := by
  simp [lastLine,inside]

/-- Behind a character that is no newline an editor is in the same line, as many code units later as the character takes. -/
theorem editorPosition_next {text : List UInt8} {before after : List Char} {c : Char}
    (split : Text.decode text = before ++ c :: after) (inside : c ≠ '\n') :
    editorPosition text (.behind (before ++ [c])) = ⟨(editorPosition text (.behind before)).line,
      (editorPosition text (.behind before)).character + .ofNat (utf16Length c)⟩ := by
  have next : Text.decode text = (before ++ [c]) ++ after := by rw [split,List.append_assoc,List.singleton_append]
  have lines : (before ++ [c]).count '\n' = before.count '\n' := by
    rw [List.count_append,List.count_singleton,if_neg (by simpa using inside)]
    rfl
  rw [editorPosition_behind next,editorPosition_behind split,lines,lastLine_concat inside,utf16Units_concat,UInt32.ofNat_add]

/-- One more is not two more, in 32 bits either. -/
theorem succ_eq_iff {c : Char} (offset : UInt32) : offset + 1 = offset + .ofNat (utf16Length c) ↔ c.toNat < 0x10000 := by
  constructor
  · intro same
    by_contra plane
    rw [utf16Length_eq_two (by omega),UInt32.add_right_inj] at same
    exact absurd same (by decide)
  · intro plane
    rw [utf16Length_eq_one plane]
    rfl

namespace Diagnostic

/-- The one diagnostic of a text that fails to parse at a character of a line. It starts at the place of the character and
    ends one code unit later. That is the place of the next character exactly when the character is of the first plane. Its
    start never falls inside a surrogate pair of the line, and its end does for every other character. -/
theorem diagnose_stop (grammar : Grammar) (options : Parser.Options) (text : List UInt8) (error : ParseError)
    (before after : List Char) (c : Char)
    (failed : Parser.parse grammar options (.ofSource ⟨Text.decode text,none⟩) = .error error)
    (split : Text.decode text = before ++ c :: after) (located : error.position? = some (.behind before))
    (inside : c ≠ '\n') :
    ∃ diagnostic, diagnose grammar options text = [diagnostic] ∧
      diagnostic.start = editorPosition text (.behind before) ∧
      diagnostic.stop = ⟨diagnostic.start.line,diagnostic.start.character + 1⟩ ∧
      editorPosition text (.behind (before ++ [c])) =
        ⟨diagnostic.start.line,diagnostic.start.character + .ofNat (utf16Length c)⟩ ∧
      (diagnostic.stop = editorPosition text (.behind (before ++ [c])) ↔ c.toNat < 0x10000) ∧
      (text.length < UInt32.size →
        ¬ SplitsPair (lastLine before ++ c :: after.takeWhile (· ≠ '\n')) diagnostic.start.character.toNat ∧
        (SplitsPair (lastLine before ++ c :: after.takeWhile (· ≠ '\n')) diagnostic.stop.character.toNat ↔
          0x10000 ≤ c.toNat)) := by
  have start : (ofError text error).start = editorPosition text (.behind before) := by
    rw [ofError,located]
    rfl
  have stop : (ofError text error).stop =
      ⟨(ofError text error).start.line,(ofError text error).start.character + 1⟩ := rfl
  have next := editorPosition_next split inside
  rw [← start] at next
  refine ⟨ofError text error,by rw [diagnose,failed],start,stop,next,?_,fun short => ?_⟩
  · rw [stop,next,EditorPosition.mk.injEq,succ_eq_iff]
    exact and_iff_right rfl
  · have bytes := utf16Units_decode_le text
    have line := utf16Units_lastLine_le before
    have unit := one_le_utf16Length c
    rw [split,utf16Units_append,utf16Units_cons] at bytes
    have first : (ofError text error).start.character.toNat = utf16Units (lastLine before) := by
      rw [start,editorPosition_behind split]
      exact UInt32.toNat_ofNat_of_lt (by omega)
    have last : (ofError text error).stop.character.toNat = utf16Units (lastLine before) + 1 := by
      have units : utf16Units (lastLine before) + 1 < 2 ^ 32 := by
        have size : UInt32.size = 2 ^ 32 := rfl
        omega
      rw [stop,UInt32.toNat_add,first]
      exact Nat.mod_eq_of_lt units
    rw [first,last]
    exact ⟨not_splitsPair _ _,splitsPair_succ_iff _ _ c⟩

/-- A plus sign. -/
def plusSign : Grammar := ⟨"S",[⟨"S",[.terminal .plus]⟩],by decide +kernel⟩

/-- A plus sign, and in the next line a name of one character beyond the first plane behind a comment. -/
def clefName : List UInt8 := [0x2b,0x0a,0x2f,0x2a,0xc3,0xa9,0x2a,0x2f,0xf0,0x9d,0x84,0x9e,0x3b]

/-- The diagnostic of the name ends one code unit behind its start, and the next character stands two behind it. -/
theorem diagnose_stop_clefName :
    Text.decode clefName = "+\n/*é*/".toList ++ '𝄞' :: [';'] ∧
    Parser.parse plusSign {} (.ofSource ⟨Text.decode clefName,none⟩) =
      .error (.unexpected { kind := .identifier,pos := ⟨2,6⟩,literal := [0xf0,0x9d,0x84,0x9e] } [] true) ∧
    ⟨2,6⟩ = Position.behind "+\n/*é*/".toList ∧
    ∃ diagnostic, diagnose plusSign {} clefName = [diagnostic] ∧ diagnostic.start = ⟨1,5⟩ ∧ diagnostic.stop = ⟨1,6⟩ ∧
      editorPosition clefName (.behind ("+\n/*é*/".toList ++ ['𝄞'])) = ⟨1,7⟩ ∧
      ¬ SplitsPair (lastLine "+\n/*é*/".toList ++ ['𝄞',';']) 5 ∧ SplitsPair (lastLine "+\n/*é*/".toList ++ ['𝄞',';']) 6 := by
  have split : Text.decode clefName = "+\n/*é*/".toList ++ '𝄞' :: [';'] := by
    decide +kernel
  have failed : Parser.parse plusSign {} (.ofSource ⟨Text.decode clefName,none⟩) =
      .error (.unexpected { kind := .identifier,pos := ⟨2,6⟩,literal := [0xf0,0x9d,0x84,0x9e] } [] true) := by
    cbv
  have place : (⟨2,6⟩ : Position) = .behind "+\n/*é*/".toList := by
    decide +kernel
  have found : editorPosition clefName (.behind "+\n/*é*/".toList) = ⟨1,5⟩ := by
    decide +kernel
  obtain ⟨diagnostic,only,start,stop,next,-,ends⟩ := diagnose_stop plusSign {} clefName _ "+\n/*é*/".toList [';'] '𝄞' failed
    split (congrArg some place) (by decide)
  obtain ⟨whole,splits⟩ := ends (by simp [clefName,UInt32.size])
  rw [start,found] at next stop whole
  rw [stop] at splits
  exact ⟨split,failed,place,diagnostic,only,start.trans found,stop,next,whole,splits.mpr (by decide)⟩

end Diagnostic

end CFrontend
