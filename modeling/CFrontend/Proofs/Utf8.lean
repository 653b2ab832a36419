import CFrontend.Text.Utf8

/-!
Reading UTF-8. What is read as a character at the start of a byte text is exactly the encoding of this character
(`leading_sound`), so that a text consists of such encodings and of bytes that belong to none (`fragments_induction`). A byte that continues
no character parts a text: what stands before it is read as it would be alone (`decode_append`). So texts are read one by one
where one of them starts or ends with a character of a single byte (`decode_append_of_head`, `decode_append_of_last`).
-/
namespace CFrontend.Text

private theorem toNat_ofNat {code : Nat} (valid : code.isValidChar) : (Char.ofNat code).toNat = code := by
  rw [Char.ofNat,dif_pos valid]
  rfl

private theorem toNat_of_scalar {code : Nat} {c : Char} (found : scalar? code = some c) : c.toNat = code := by
  unfold scalar? at found
  split at found
  · rename_i valid
    obtain rfl := Option.some.inj found
    exact toNat_ofNat valid
  · simp at found

private theorem continuation_spec {byte : UInt8} {bits : Nat} (found : continuation? byte = some bits) :
    byte.toNat = bits + 0x80 ∧ bits < 0x40 := by
  unfold continuation? at found
  split at found
  · rename_i range
    simp only [Bool.and_eq_true,decide_eq_true_eq] at range
    have := Option.some.inj found
    omega
  · simp at found

/-! ### The encoding of one character -/

private theorem ofNat_eq (byte : UInt8) {n : Nat} (same : n = byte.toNat) : UInt8.ofNat n = byte := by
  rw [same,UInt8.ofNat_toNat]

/-- A byte below 128 encodes itself. -/
theorem encodeChar_one {c : Char} {a : UInt8} (ascii : a.toNat < 0x80) (code : c.toNat = a.toNat) :
    String.utf8EncodeChar c = [a] := by
  unfold String.utf8EncodeChar
  rw [Char.toNat_val,code,if_pos (by omega),ofNat_eq a rfl]

private theorem encodeChar_two {c : Char} {a b : UInt8} {x : Nat} (lead : 0xc2 ≤ a.toNat ∧ a.toNat ≤ 0xdf)
    (second : b.toNat = x + 0x80 ∧ x < 0x40) (code : c.toNat = (a.toNat - 0xc0) * 64 + x) :
    String.utf8EncodeChar c = [a,b] := by
  unfold String.utf8EncodeChar
  rw [Char.toNat_val,code,if_neg (by omega),if_pos (by omega),ofNat_eq a (by omega),ofNat_eq b (by omega)]

private theorem encodeChar_three {c : Char} {a b d : UInt8} {x y : Nat} (lead : 0xe0 ≤ a.toNat ∧ a.toNat ≤ 0xef)
    (second : b.toNat = x + 0x80 ∧ x < 0x40) (third : d.toNat = y + 0x80 ∧ y < 0x40)
    (code : c.toNat = ((a.toNat - 0xe0) * 64 + x) * 64 + y) (long : 0x800 ≤ c.toNat) :
    String.utf8EncodeChar c = [a,b,d] := by
  unfold String.utf8EncodeChar
  rw [code] at long
  rw [Char.toNat_val,code,if_neg (by omega),if_neg (by omega),if_pos (by omega)]
  rw [ofNat_eq a (by omega),ofNat_eq b (by omega),ofNat_eq d (by omega)]

private theorem encodeChar_four {c : Char} {a b d e : UInt8} {x y z : Nat} (lead : 0xf0 ≤ a.toNat ∧ a.toNat ≤ 0xf4)
    (second : b.toNat = x + 0x80 ∧ x < 0x40) (third : d.toNat = y + 0x80 ∧ y < 0x40) (fourth : e.toNat = z + 0x80 ∧ z < 0x40)
    (code : c.toNat = (((a.toNat - 0xf0) * 64 + x) * 64 + y) * 64 + z) (long : 0x10000 ≤ c.toNat) :
    String.utf8EncodeChar c = [a,b,d,e] := by
  unfold String.utf8EncodeChar
  rw [code] at long
  rw [Char.toNat_val,code,if_neg (by omega),if_neg (by omega),if_neg (by omega)]
  rw [ofNat_eq a (by omega),ofNat_eq b (by omega),ofNat_eq d (by omega),ofNat_eq e (by omega)]

/-- A character that is read at the start of a byte text stands there in its encoding, of which every byte is taken. -/
theorem leading_sound {bytes : List UInt8} {c : Char} {length : Nat} (found : leading? bytes = some (c,length)) :
    String.utf8EncodeChar c <+: bytes ∧ length = (String.utf8EncodeChar c).length := by
  unfold leading? at found
  split at found
  · simp at found
  · rename_i a rest
    dsimp only at found
    split at found
    · rename_i ascii
      obtain ⟨rfl,rfl⟩ : Char.ofNat a.toNat = c ∧ 1 = length := by simpa using found
      rw [encodeChar_one ascii (toNat_ofNat (.inl (by omega)))]
      exact ⟨⟨rest,rfl⟩,rfl⟩
    · split at found
      · rename_i lead
        simp only [Bool.and_eq_true,decide_eq_true_eq] at lead
        split at found
        · rename_i b rest
          simp only [Option.bind_eq_bind,Option.bind_eq_some_iff,Option.pure_def,Option.some.injEq,Prod.mk.injEq] at found
          obtain ⟨x,second,_,code,rfl,rfl⟩ := found
          rw [encodeChar_two lead (continuation_spec second) (toNat_of_scalar code)]
          exact ⟨⟨rest,rfl⟩,rfl⟩
        · simp at found
      · split at found
        · rename_i lead
          simp only [Bool.and_eq_true,decide_eq_true_eq] at lead
          split at found
          · rename_i b d rest
            simp only [Option.bind_eq_bind,Option.bind_eq_some_iff,Option.pure_def,Option.ite_none_left_eq_some,
              Option.some.injEq,Prod.mk.injEq] at found
            obtain ⟨x,second,y,third,long,_,code,rfl,rfl⟩ := found
            have code := toNat_of_scalar code
            rw [encodeChar_three lead (continuation_spec second) (continuation_spec third) code (by omega)]
            exact ⟨⟨rest,rfl⟩,rfl⟩
          · simp at found
        · split at found
          · rename_i lead
            simp only [Bool.and_eq_true,decide_eq_true_eq] at lead
            split at found
            · rename_i b d e rest
              simp only [Option.bind_eq_bind,Option.bind_eq_some_iff,Option.pure_def,Option.ite_none_left_eq_some,
                Option.some.injEq,Prod.mk.injEq] at found
              obtain ⟨x,second,y,third,z,fourth,long,_,code,rfl,rfl⟩ := found
              have code := toNat_of_scalar code
              rw [encodeChar_four lead (continuation_spec second) (continuation_spec third) (continuation_spec fourth) code (by omega)]
              exact ⟨⟨rest,rfl⟩,rfl⟩
            · simp at found
          · simp at found

/-! ### Texts -/

theorem fragments_of_leading {c : Char} {rest : List UInt8}
    (found : leading? (String.utf8EncodeChar c ++ rest) = some (c,(String.utf8EncodeChar c).length)) :
    fragments (String.utf8EncodeChar c ++ rest) = .char c :: fragments rest := by
  cases code : String.utf8EncodeChar c with
  | nil => exact absurd code String.utf8EncodeChar_ne_nil
  | cons byte others =>
    rw [code] at found
    rw [List.cons_append] at found ⊢
    rw [fragments,found]
    simp

theorem fragments_of_stray {byte : UInt8} {rest : List UInt8} (stray : leading? (byte :: rest) = none) :
    fragments (byte :: rest) = .stray byte :: fragments rest := by
  rw [fragments,stray]

private theorem fragments_eq_nil {bytes : List UInt8} (none : fragments bytes = []) : bytes = [] := by
  cases bytes with
  | nil => rfl
  | cons byte rest =>
    rw [fragments] at none
    split at none <;> simp at none

/-- A byte text is built from the encodings of its characters and from stray bytes. -/
theorem fragments_induction {motive : List UInt8 → Prop} (nil : motive [])
    (char : ∀ c rest, leading? (String.utf8EncodeChar c ++ rest) = some (c,(String.utf8EncodeChar c).length) →
      motive rest → motive (String.utf8EncodeChar c ++ rest))
    (stray : ∀ byte rest, leading? (byte :: rest) = none → motive rest → motive (byte :: rest))
    (bytes : List UInt8) : motive bytes := by
  induction size : bytes.length using Nat.strongRecOn generalizing bytes with
  | ind size ih =>
    subst size
    cases bytes with
    | nil => exact nil
    | cons byte rest =>
      cases found : leading? (byte :: rest) with
      | none => exact stray byte rest found (ih rest.length (by simp) rest rfl)
      | some pair =>
        obtain ⟨c,length⟩ := pair
        obtain ⟨⟨others,same⟩,rfl⟩ := leading_sound found
        have shorter : others.length < (byte :: rest).length := by
          have some : 0 < (String.utf8EncodeChar c).length := List.length_pos_iff.mpr String.utf8EncodeChar_ne_nil
          rw [← same,List.length_append]
          omega
        rw [← same] at found ⊢
        exact char c others found (ih others.length shorter others rfl)

/-- A byte that continues no character is not looked at by what is read before it. -/
theorem leading_append {stop : UInt8} (apart : continuation? stop = none) {first : List UInt8} (some : first ≠ [])
    (rest : List UInt8) : leading? (first ++ stop :: rest) = leading? first := by
  match first with
  | [] => exact absurd rfl some
  | [a] => rcases rest with _ | ⟨r,_ | ⟨s,rest⟩⟩ <;> simp [leading?,apart]
  | [a,b] => cases rest <;> simp [leading?,apart]
  | [a,b,d] => simp [leading?,apart]
  | a :: b :: d :: e :: first => simp [leading?]

/-- Fragments are read on both sides of a byte that continues no character as they are alone. -/
theorem fragments_append {stop : UInt8} (apart : continuation? stop = none) (first rest : List UInt8) :
    fragments (first ++ stop :: rest) = fragments first ++ fragments (stop :: rest) := by
  induction first using fragments_induction with
  | nil => simp [fragments]
  | char c others found ih =>
    have whole : leading? (String.utf8EncodeChar c ++ (others ++ stop :: rest)) = some (c,(String.utf8EncodeChar c).length) := by
      rw [← List.append_assoc,leading_append apart (by simp [String.utf8EncodeChar_ne_nil]),found]
    rw [List.append_assoc,fragments_of_leading whole,fragments_of_leading found,ih,List.cons_append]
  | stray byte others found ih =>
    have whole : leading? (byte :: (others ++ stop :: rest)) = none := by
      rw [← List.cons_append,leading_append apart (List.cons_ne_nil byte others),found]
    rw [List.cons_append,fragments_of_stray whole,fragments_of_stray found,ih,List.cons_append]

/-- A byte that continues no character parts what is read of a text. -/
theorem decode_append {stop : UInt8} (apart : continuation? stop = none) (first rest : List UInt8) :
    decode (first ++ stop :: rest) = decode first ++ decode (stop :: rest) := by
  rw [decode,fragments_append apart,List.map_append]
  rfl

/-- An ASCII byte is read as its character. -/
theorem decode_ascii {byte : UInt8} (ascii : byte.toNat < 0x80) (rest : List UInt8) :
    decode (byte :: rest) = Char.ofNat byte.toNat :: decode rest := by
  have found : leading? (byte :: rest) = some (Char.ofNat byte.toNat,1) := by simp [leading?,ascii]
  simp [decode,fragments,found,Fragment.toChar]

private theorem continuation_of_ascii {byte : UInt8} (ascii : byte.toNat < 0x80) : continuation? byte = none := by
  simp [continuation?]
  omega

/-- An ASCII character is encoded in one byte, which is below 128 too. -/
theorem encodeChar_ascii {c : Char} (ascii : c.toNat < 0x80) :
    ∃ byte : UInt8, byte.toNat < 0x80 ∧ String.utf8EncodeChar c = [byte] := by
  have same : (UInt8.ofNat c.toNat).toNat = c.toNat := UInt8.toNat_ofNat_of_lt' (Nat.lt_of_lt_of_le ascii (by decide))
  exact ⟨UInt8.ofNat c.toNat,by omega,encodeChar_one (by omega) same.symm⟩

/-- An ASCII character in what is read is a byte of the text. -/
theorem mem_of_mem_decode {c : Char} (ascii : c.toNat < 0x80) {bytes : List UInt8} (member : c ∈ decode bytes) :
    UInt8.ofNat c.toNat ∈ bytes := by
  induction bytes using fragments_induction with
  | nil => simp [decode,fragments] at member
  | char d rest found ih =>
    rw [decode,fragments_of_leading found,List.map_cons] at member
    rcases List.mem_cons.mp member with same | later
    · obtain rfl : c = d := same
      obtain ⟨byte,small,code⟩ := encodeChar_ascii ascii
      have own : byte = UInt8.ofNat c.toNat := by
        unfold String.utf8EncodeChar at code
        rw [Char.toNat_val,if_pos (by omega)] at code
        exact (List.singleton_inj.mp code).symm
      simp [code,own]
    · exact List.mem_append_right _ (ih later)
  | stray byte rest found ih =>
    rw [decode,fragments_of_stray found,List.map_cons] at member
    rcases List.mem_cons.mp member with same | later
    · obtain rfl : c = replacement := same
      exact absurd ascii (by decide)
    · exact List.mem_cons_of_mem byte (ih later)

/-- An ASCII character has a byte in an encoded text only as itself, because all bytes of a longer encoding are above ASCII. -/
theorem mem_of_mem_encode {c : Char} (ascii : c.toNat < 0x80) {text : List Char} (member : UInt8.ofNat c.toNat ∈ encode text) :
    c ∈ text := by
  obtain ⟨d,own,inside⟩ := List.mem_flatMap.mp member
  have code : (UInt8.ofNat c.toNat).toNat = c.toNat := UInt8.toNat_ofNat_of_lt' (Nat.lt_of_lt_of_le ascii (by decide))
  -- the bytes of a longer encoding are all above ASCII
  have above {n : Nat} (high : 0x80 ≤ n % 256) : UInt8.ofNat c.toNat ≠ UInt8.ofNat n := by
    intro same
    have := congrArg UInt8.toNat same
    rw [code,UInt8.toNat_ofNat'] at this
    omega
  unfold String.utf8EncodeChar at inside
  dsimp only at inside
  split at inside
  · rename_i small
    have same := congrArg UInt8.toNat (List.mem_singleton.mp inside)
    rw [code,UInt8.toNat_ofNat_of_lt' (Nat.lt_of_le_of_lt small (by decide))] at same
    rwa [Char.toNat_inj.mp same]
  · split at inside
    · simp only [List.mem_cons,List.not_mem_nil,or_false] at inside
      rcases inside with same | same <;> exact absurd same (above (by omega))
    · split at inside
      · simp only [List.mem_cons,List.not_mem_nil,or_false] at inside
        rcases inside with same | same | same <;> exact absurd same (above (by omega))
      · simp only [List.mem_cons,List.not_mem_nil,or_false] at inside
        rcases inside with same | same | same | same <;> exact absurd same (above (by omega))

/-- Encoding and reading a text adds no ASCII character. -/
theorem mem_of_mem_decode_encode {c : Char} (ascii : c.toNat < 0x80) {text : List Char} (member : c ∈ decode (encode text)) : c ∈ text :=
  mem_of_mem_encode ascii (mem_of_mem_decode ascii member)

/-- A text that is read with an ASCII character at its start begins with one byte for it. -/
theorem exists_ascii_head {bytes : List UInt8} {chars : List Char} {c : Char} (head : decode bytes = c :: chars)
    (ascii : c.toNat < 0x80) : ∃ (byte : UInt8) (rest : List UInt8), bytes = byte :: rest ∧ byte.toNat < 0x80 := by
  induction bytes using fragments_induction with
  | nil => simp [decode,fragments] at head
  | char d rest found =>
    rw [decode,fragments_of_leading found,List.map_cons] at head
    obtain rfl : d = c := (List.cons.inj head).1
    obtain ⟨byte,small,code⟩ := encodeChar_ascii ascii
    exact ⟨byte,rest,by rw [code]; rfl,small⟩
  | stray byte rest found =>
    rw [decode,fragments_of_stray found,List.map_cons] at head
    obtain rfl : replacement = c := (List.cons.inj head).1
    simp [replacement] at ascii

/-- A text that is read with an ASCII character at its end stops with one byte for it. -/
theorem exists_ascii_last {bytes : List UInt8} {chars : List Char} {c : Char} (last : decode bytes = chars ++ [c])
    (ascii : c.toNat < 0x80) : ∃ (init : List UInt8) (byte : UInt8), bytes = init ++ [byte] ∧ byte.toNat < 0x80 := by
  induction bytes using fragments_induction generalizing chars with
  | nil => simp [decode,fragments] at last
  | char d rest found ih =>
    rw [decode,fragments_of_leading found,List.map_cons] at last
    cases chars with
    | nil =>
      obtain rfl : d = c := (List.cons.inj last).1
      obtain rfl : rest = [] := fragments_eq_nil (List.map_eq_nil_iff.mp (List.cons.inj last).2)
      obtain ⟨byte,small,code⟩ := encodeChar_ascii ascii
      exact ⟨[],byte,by rw [code]; rfl,small⟩
    | cons e chars =>
      obtain ⟨init,byte,rfl,small⟩ := ih (List.cons.inj last).2
      exact ⟨String.utf8EncodeChar d ++ init,byte,by simp,small⟩
  | stray stray rest found ih =>
    rw [decode,fragments_of_stray found,List.map_cons] at last
    cases chars with
    | nil =>
      obtain rfl : replacement = c := (List.cons.inj last).1
      simp [replacement] at ascii
    | cons e chars =>
      obtain ⟨init,byte,rfl,small⟩ := ih (List.cons.inj last).2
      exact ⟨stray :: init,byte,rfl,small⟩

/-- Two texts are read one by one if the second one starts with an ASCII character. -/
theorem decode_append_of_head {second : List UInt8} {chars : List Char} {c : Char} (head : decode second = c :: chars)
    (ascii : c.toNat < 0x80) (first : List UInt8) : decode (first ++ second) = decode first ++ decode second := by
  obtain ⟨byte,rest,rfl,small⟩ := exists_ascii_head head ascii
  exact decode_append (continuation_of_ascii small) first rest

/-- Two texts are read one by one if the first one ends with an ASCII character. -/
theorem decode_append_of_last {first : List UInt8} {chars : List Char} {c : Char} (last : decode first = chars ++ [c])
    (ascii : c.toNat < 0x80) (second : List UInt8) : decode (first ++ second) = decode first ++ decode second := by
  obtain ⟨init,byte,rfl,small⟩ := exists_ascii_last last ascii
  have apart := continuation_of_ascii small
  rw [List.append_assoc,List.singleton_append,decode_append apart,decode_append apart,decode_ascii small,decode_ascii small,
    List.append_assoc]
  simp [decode,fragments]

end CFrontend.Text
