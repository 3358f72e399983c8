import Mathlib.Data.List.TakeWhile
import Reckoner.Context.Parse
/-!
# Lines of characters

The tokens of a line are read from its bytes, and they are the same when they are read from its
characters. A character of ASCII is its byte. A character beyond ASCII has several bytes, and
whether they or the character itself are looked at, no token goes on with them and none starts
there, so reading stops in front of them. In the bytes of a text its first character can be told
from the others, and a zero comes from a NUL character alone.
-/

namespace Reckoner

/-- There are six blanks. -/
theorem eq_of_isBlank {c : Char} (blank : isBlank c) :
    c = ' ' ∨ c = '\t' ∨ c = '\n' ∨ c = '\x0b' ∨ c = '\x0c' ∨ c = '\r' := by
  simpa [isBlank, or_assoc] using blank

/-- The characters of names are of one byte. -/
theorem utf8Size_of_isNameChar {c : Char} (inName : isNameChar c = true) : c.utf8Size = 1 := by
  unfold isNameChar isLetter Char.isAlpha Char.isUpper Char.isLower Char.isDigit at inName
  simp only [Bool.or_eq_true, Bool.and_eq_true, decide_eq_true_eq, beq_iff_eq] at inName
  rw [Char.utf8Size_eq_one_iff]
  rcases inName with ((capital | small) | rfl) | digit
  · exact UInt32.le_trans capital.2 (by decide)
  · exact UInt32.le_trans small.2 (by decide)
  · decide
  · exact UInt32.le_trans digit.2 (by decide)

/-- No token goes on with the character, and it makes no name a function. -/
structure EndsToken (c : Char) : Prop where
  /-- It belongs to no name. -/
  noName : isNameChar c = false
  /-- It is no point, no sign and no opening parenthesis. -/
  noSymbol : c ∉ ['.', '+', '-', '(']

/-- A blank ends a token. -/
theorem endsToken_of_isBlank {c : Char} (blank : isBlank c) : EndsToken c := by
  rcases eq_of_isBlank blank with rfl | rfl | rfl | rfl | rfl | rfl <;>
    exact ⟨by decide, by decide⟩

/-- A character beyond ASCII ends a token. -/
theorem endsToken_of_utf8Size {c : Char} (beyond : c.utf8Size ≠ 1) : EndsToken c where
  noName := Bool.eq_false_iff.mpr (mt utf8Size_of_isNameChar beyond)
  noSymbol member := by
    obtain rfl | rfl | rfl | rfl : c = '.' ∨ c = '+' ∨ c = '-' ∨ c = '(' := by
      simpa using member
    all_goals exact beyond (by decide)

namespace Scan

/-! ### The steps of reading -/

/-- Nothing is read in blanks. -/
theorem ofText_of_blank {start : Nat} {text : List Char} (blank : text.dropWhile isBlank = []) :
    ofText start text = ⟨[], none⟩ := by
  rw [ofText]
  split
  · rfl
  · next first rest unread => simp [blank] at unread

/-- Reading stops at the first characters that are no token. -/
theorem ofText_of_error {start here : Nat} {text rest : List Char} {first : Char}
    {diagnosis : Diagnosis} (unread : text.dropWhile isBlank = first :: rest)
    (place : start + (text.takeWhile isBlank).length = here)
    (fault : (token here first rest).1 = .error diagnosis) :
    ofText start text = ⟨[], some diagnosis⟩ := by
  subst place
  rw [ofText]
  split
  · next blank => simp [blank] at unread
  · next other others same =>
    obtain ⟨rfl, rfl⟩ := List.cons.inj (same.symm.trans unread)
    simp only [fault]

/-- Reading goes on behind a token. -/
theorem ofText_of_ok {start here : Nat} {text rest : List Char} {first : Char} {found : Token}
    (unread : text.dropWhile isBlank = first :: rest)
    (place : start + (text.takeWhile isBlank).length = here)
    (read : (token here first rest).1 = .ok found) :
    ofText start text =
      ⟨found :: (ofText (found.stop + 1) (token here first rest).2).tokens,
        (ofText (found.stop + 1) (token here first rest).2).stop⟩ := by
  subst place
  rw [ofText]
  split
  · next blank => simp [blank] at unread
  · next other others same =>
    obtain ⟨rfl, rfl⟩ := List.cons.inj (same.symm.trans unread)
    simp only [read]

/-! ### What stands behind a token -/

section

variable {behind : List Char}

/-- A literal ends in front of what ends a token. -/
theorem runTail_of_endsToken {c : Char} (ends : EndsToken c) (hex afterExponent : Bool)
    (others : List Char) :
    Literal.runTail hex afterExponent (c :: others) = ⟨[], false, c :: others⟩ := by
  have inName := ends.noName
  have noUnit : ¬ (c == 'i') = true := by
    rw [beq_iff_eq]
    rintro rfl
    exact absurd inName (by decide)
  obtain ⟨noLetter, noDigit⟩ : isLetter c = false ∧ c.isDigit = false := by
    simpa [isNameChar] using inName
  obtain ⟨noPoint, noPlus, noMinus, _⟩ : c ≠ '.' ∧ c ≠ '+' ∧ c ≠ '-' ∧ c ≠ '(' := by
    simpa using ends.noSymbol
  simp [Literal.runTail, noUnit, noLetter, noDigit, noPoint, noPlus, noMinus]

/-- What ends a token does not belong to a literal in front of it. -/
theorem runTail_append (apart : ∀ c ∈ behind.head?, EndsToken c) (hex afterExponent : Bool)
    (text : List Char) :
    Literal.runTail hex afterExponent (text ++ behind) =
      { Literal.runTail hex afterExponent text with
        behind := (Literal.runTail hex afterExponent text).behind ++ behind } := by
  fun_induction Literal.runTail hex afterExponent text with
  | case1 =>
    cases behind with
    | nil => rfl
    | cons c others => exact runTail_of_endsToken (apart c rfl) _ _ others
  | case2 afterExponent c rest unit =>
    rw [List.cons_append, Literal.runTail, if_pos unit]
  | case3 afterExponent c rest plain digit ih =>
    rw [List.cons_append, Literal.runTail, if_neg plain, if_pos digit, ih]
    rfl
  | case4 afterExponent c rest plain noDigit signed ih =>
    rw [List.cons_append, Literal.runTail, if_neg plain, if_neg noDigit, if_pos signed, ih]
    rfl
  | case5 afterExponent c rest plain noDigit unsigned letter ih =>
    rw [List.cons_append, Literal.runTail, if_neg plain, if_neg noDigit, if_neg unsigned,
      if_pos letter, ih]
    rfl
  | case6 afterExponent c rest plain noDigit unsigned noLetter =>
    rw [List.cons_append, Literal.runTail, if_neg plain, if_neg noDigit, if_neg unsigned,
      if_neg noLetter]

/-- What ends a token is no such character behind a text as does not end one. -/
theorem head?_append_eq_iff (apart : ∀ c ∈ behind.head?, EndsToken c) {c : Char}
    (inside : ¬ EndsToken c) (text : List Char) :
    (text ++ behind).head? = some c ↔ text.head? = some c := by
  cases text with
  | cons first rest => rfl
  | nil =>
    constructor
    · intro same
      exact absurd (apart c same) inside
    · nofun

/-- What ends a token does not belong to a name in front of it. -/
theorem span_name_append (apart : ∀ c ∈ behind.head?, EndsToken c) (text : List Char) :
    (text ++ behind).takeWhile isNameChar = text.takeWhile isNameChar ∧
      (text ++ behind).dropWhile isNameChar = text.dropWhile isNameChar ++ behind := by
  induction text with
  | nil =>
    cases behind with
    | nil => exact ⟨rfl, rfl⟩
    | cons c others =>
      have outside : ¬ isNameChar c = true := Bool.eq_false_iff.mp (apart c rfl).noName
      constructor
      · rw [List.nil_append, List.takeWhile_cons_of_neg outside, List.takeWhile_nil]
      · rw [List.nil_append, List.dropWhile_cons_of_neg outside, List.dropWhile_nil,
          List.nil_append]
  | cons c rest ih =>
    by_cases inside : isNameChar c
    · simp [inside, ih]
    · simp [inside]

/-- What ends a token does not belong to the token in front of it. -/
theorem token_append (apart : ∀ c ∈ behind.head?, EndsToken c) (start : Nat) (first : Char)
    (rest : List Char) :
    token start first (rest ++ behind) =
      ((token start first rest).1, (token start first rest).2 ++ behind) := by
  unfold token
  split
  · have parenthesis : ¬ EndsToken '(' := fun ends => ends.noSymbol (by decide)
    obtain ⟨inside, further⟩ := span_name_append apart rest
    simp only [inside, further, name, head?_append_eq_iff apart parenthesis]
  · split
    · have marker : ¬ EndsToken 'x' := fun ends => absurd ends.noName (by decide)
      have hex : ((rest ++ behind).head? == some 'x') = (rest.head? == some 'x') := by
        rw [Bool.eq_iff_iff, beq_iff_eq, beq_iff_eq, head?_append_eq_iff apart marker]
      have run : Literal.run first (rest ++ behind) =
          { Literal.run first rest with
            behind := (Literal.run first rest).behind ++ behind } := by
        rw [Literal.run, hex, runTail_append apart]
        rfl
      simp only [run]
      rfl
    · split <;> rfl

/-- Further characters behind a text do not move its first character that is not blank. -/
theorem unread_append {text rest : List Char} {first : Char}
    (unread : text.dropWhile isBlank = first :: rest) (behind : List Char) :
    (text ++ behind).dropWhile isBlank = first :: (rest ++ behind) ∧
      (text ++ behind).takeWhile isBlank = text.takeWhile isBlank := by
  have split := List.takeWhile_append_dropWhile (p := isBlank) (l := text)
  have short : (text.takeWhile isBlank).length ≠ text.length := by
    intro same
    rw [← congrArg List.length split, List.length_append, unread] at same
    simp at same
  rw [List.dropWhile_append, List.takeWhile_append, unread, if_neg short]
  exact ⟨rfl, rfl⟩

end

/-! ### Characters beyond ASCII -/

/-- A character beyond ASCII starts no token. -/
theorem token_of_utf8Size {c : Char} (beyond : c.utf8Size ≠ 1) (start : Nat) (rest : List Char) :
    token start c rest = (.error ⟨.unknownCharacter, start⟩, rest) := by
  obtain ⟨noName, noSymbol⟩ := endsToken_of_utf8Size beyond
  obtain ⟨noLetter, noDigit⟩ : isLetter c = false ∧ c.isDigit = false := by
    simpa [isNameChar] using noName
  have noPoint : c ≠ '.' := by
    rintro rfl
    exact noSymbol (by decide)
  have noOperator : Operator.ofChar? c = none := by
    rw [Option.eq_none_iff_forall_ne_some]
    intro operator known
    rw [Operator.eq_symbol_of_ofChar? known] at beyond
    cases operator <;> exact beyond (by decide)
  have noMark : Mark.ofChar? c = none := by
    rw [Option.eq_none_iff_forall_ne_some]
    intro mark known
    rw [Mark.eq_symbol_of_ofChar? known] at beyond
    cases mark <;> exact beyond (by decide)
  simp [token, noLetter, noDigit, noPoint, noOperator, noMark]

/-- Reading stops at a character beyond ASCII, and it does not matter which one it is or what stands
behind it. -/
theorem exists_ofText_append_eq (start : Nat) (text : List Char) :
    ∃ scan, ∀ (c : Char) (behind : List Char), c.utf8Size ≠ 1 →
      ofText start (text ++ c :: behind) = scan := by
  have apart (c : Char) (behind : List Char) (beyond : c.utf8Size ≠ 1) :
      ∀ d ∈ (c :: behind).head?, EndsToken d := by
    rintro _ ⟨⟩
    exact endsToken_of_utf8Size beyond
  induction start, text using ofText.induct with
  | case1 start text blank =>
    refine ⟨⟨[], some ⟨.unknownCharacter, start + text.length⟩⟩, fun c behind beyond => ?_⟩
    have all : ∀ d ∈ text, isBlank d = true := List.dropWhile_eq_nil_iff.mp blank
    have visible : ¬ isBlank c = true := by
      intro hidden
      rcases eq_of_isBlank hidden with rfl | rfl | rfl | rfl | rfl | rfl <;>
        exact beyond (by decide)
    have unread : (text ++ c :: behind).dropWhile isBlank = c :: behind := by
      rw [List.dropWhile_append_of_pos all, List.dropWhile_cons_of_neg visible]
    have skipped : (text ++ c :: behind).takeWhile isBlank = text := by
      rw [List.takeWhile_append_of_pos all, List.takeWhile_cons_of_neg visible, List.append_nil]
    rw [ofText_of_error unread (by rw [skipped]) (by rw [token_of_utf8Size beyond])]
  | case2 start text first rest unread here diagnosis fault =>
    refine ⟨⟨[], some diagnosis⟩, fun c behind beyond => ?_⟩
    obtain ⟨further, same⟩ := unread_append unread (c :: behind)
    have also : (token here first (rest ++ c :: behind)).1 = .error diagnosis := by
      rw [token_append (apart c behind beyond), fault]
    exact ofText_of_error further (by rw [same]) also
  | case3 start text first rest unread here found read ih =>
    obtain ⟨others, all⟩ := ih
    refine ⟨⟨found :: others.tokens, others.stop⟩, fun c behind beyond => ?_⟩
    obtain ⟨further, same⟩ := unread_append unread (c :: behind)
    have also : (token here first (rest ++ c :: behind)).1 = .ok found := by
      rw [token_append (apart c behind beyond), read]
    rw [ofText_of_ok further (by rw [same]) also, token_append (apart c behind beyond),
      all c behind beyond]

end Scan

/-! ### Bytes and characters -/

/-- A text has as many bytes as its encoding. -/
theorem length_bytesOf (text : String) : (bytesOf text).length = text.utf8ByteSize := by
  have encoded : text.toByteArray = (bytesOf text).toByteArray := by
    rw [← String.ofList_toList (s := text), String.toByteArray_ofList, String.ofList_toList]
    rfl
  rw [String.utf8ByteSize, encoded, List.size_toByteArray]

/-- Texts behind each other have their bytes behind each other. -/
theorem bytesOf_append (front back : String) :
    bytesOf (front ++ back) = bytesOf front ++ bytesOf back := by
  rw [bytesOf, String.toList_append, List.flatMap_append]
  rfl

/-- The bytes that continue a character are those between two bounds. -/
theorem isContinuation_iff (byte : UInt8) :
    isContinuation byte = true ↔ 128 ≤ byte.toNat ∧ byte.toNat < 192 := by
  have each : ∀ number < 256, isContinuation (UInt8.ofNat number) = true ↔
      128 ≤ number ∧ number < 192 := by decide +kernel
  have known := each byte.toNat byte.toNat_lt
  rwa [UInt8.ofNat_toNat] at known

/-- A character is encoded by a byte that continues none and bytes that continue it. Beyond ASCII
the first byte is none of ASCII either. -/
theorem exists_utf8EncodeChar_eq (c : Char) : ∃ first others,
    String.utf8EncodeChar c = first :: others ∧ isContinuation first = false ∧
      (∀ byte ∈ others, isContinuation byte = true) ∧ (c.utf8Size ≠ 1 → 128 ≤ first.toNat) := by
  have begins {number : Nat} (low : 192 ≤ number) (high : number < UInt8.size) :
      isContinuation (UInt8.ofNat number) = false ∧ 128 ≤ (UInt8.ofNat number).toNat := by
    rw [Bool.eq_false_iff, ne_eq, isContinuation_iff, UInt8.toNat_ofNat_of_lt' high]
    omega
  have continues (numbers : List Nat) :
      ∀ byte ∈ numbers.map fun number => UInt8.ofNat (number % 64 + 128),
        isContinuation byte = true := by
    rw [List.forall_mem_map]
    intro number _
    have high : number % 64 + 128 < UInt8.size := by
      show _ < 256
      omega
    rw [isContinuation_iff, UInt8.toNat_ofNat_of_lt' high]
    omega
  have size : UInt8.size = 256 := rfl
  rw [ne_eq, Char.utf8Size_eq_one_iff, UInt32.le_iff_toNat_le]
  unfold String.utf8EncodeChar
  dsimp only
  split
  · next ascii =>
    refine ⟨_, _, rfl, ?_, List.forall_mem_nil _, fun beyond => absurd ascii beyond⟩
    rw [Bool.eq_false_iff, ne_eq, isContinuation_iff, UInt8.toNat_ofNat_of_lt' (by omega)]
    omega
  let code := c.val.toNat
  split
  · have tail := continues [code]
    refine ⟨_, _, rfl, (begins ?_ ?_).1, tail, fun _ => (begins ?_ ?_).2⟩ <;> omega
  split
  · have tail := continues [code / 64, code]
    refine ⟨_, _, rfl, (begins ?_ ?_).1, tail, fun _ => (begins ?_ ?_).2⟩ <;> omega
  · have tail := continues [code / 4096, code / 64, code]
    refine ⟨_, _, rfl, (begins ?_ ?_).1, tail, fun _ => (begins ?_ ?_).2⟩ <;> omega

namespace Scan

/-- What stands for a byte has its number. -/
theorem toNat_characterOf (byte : UInt8) : (characterOf byte).toNat = byte.toNat := by
  have bound := byte.toNat_lt
  have valid : byte.toNat.isValidChar := Or.inl (by omega)
  rw [characterOf, Char.ofNat, dif_pos valid]
  rfl

/-- A character of ASCII is its byte. -/
theorem map_characterOf_of_utf8Size {c : Char} (ascii : c.utf8Size = 1) :
    (String.utf8EncodeChar c).map characterOf = [c] := by
  have small : c.toNat ≤ 127 :=
    UInt32.le_iff_toNat_le.mp (Char.utf8Size_eq_one_iff.mp ascii)
  have encoded : String.utf8EncodeChar c = [UInt8.ofNat c.toNat] := if_pos small
  have number : (UInt8.ofNat c.toNat).toNat = c.toNat :=
    UInt8.toNat_ofNat_of_lt' (Nat.lt_of_le_of_lt small (by decide))
  rw [encoded, List.map_singleton, characterOf, number, Char.ofNat_toNat]

/-- What stands for a byte beyond ASCII is beyond ASCII. -/
theorem utf8Size_characterOf {byte : UInt8} (beyond : 128 ≤ byte.toNat) :
    (characterOf byte).utf8Size ≠ 1 := by
  rw [ne_eq, Char.utf8Size_eq_one_iff, UInt32.le_iff_toNat_le]
  have number : (characterOf byte).val.toNat = byte.toNat := toNat_characterOf byte
  rw [number]
  exact Nat.not_le.mpr beyond

/-- The tokens of a line are those of its characters. -/
theorem ofLine_eq (line : String) : ofLine line = ofText 0 line.toList := by
  have units (text : List Char) :
      (text.flatMap String.utf8EncodeChar).map characterOf = text ∨
      ∃ ascii first second firstBehind secondBehind, first.utf8Size ≠ 1 ∧ second.utf8Size ≠ 1 ∧
        (text.flatMap String.utf8EncodeChar).map characterOf =
          ascii ++ first :: firstBehind ∧ text = ascii ++ second :: secondBehind := by
    induction text with
    | nil => exact Or.inl rfl
    | cons c rest ih =>
      rw [List.flatMap_cons, List.map_append]
      by_cases ascii : c.utf8Size = 1
      · rw [map_characterOf_of_utf8Size ascii]
        rcases ih with same | ⟨front, first, second, others, further, beyond, also, bytes, rfl⟩
        · exact Or.inl (by rw [same]; rfl)
        · exact Or.inr ⟨c :: front, first, second, others, further, beyond, also,
            by rw [bytes]; rfl, rfl⟩
      · obtain ⟨byte, others, encoded, _, _, high⟩ := exists_utf8EncodeChar_eq c
        rw [encoded]
        exact Or.inr ⟨[], characterOf byte, c, _, rest, utf8Size_characterOf (high ascii), ascii,
          rfl, rfl⟩
  rw [ofLine, ofBytes, bytesOf]
  rcases units line.toList with same | ⟨ascii, _, _, _, _, beyond, also, bytes, text⟩
  · rw [same]
  · obtain ⟨scan, all⟩ := exists_ofText_append_eq 0 ascii
    rw [bytes, text, all _ _ beyond, all _ _ also]

end Scan

/-! ### Parts of bytes -/

/-- The byte zero comes from the NUL character alone. -/
theorem zero_mem_utf8EncodeChar {c : Char} : 0 ∈ String.utf8EncodeChar c ↔ c = '\x00' := by
  constructor
  · intro member
    by_cases ascii : c.utf8Size = 1
    · have shown := List.mem_map_of_mem (f := Scan.characterOf) member
      rw [Scan.map_characterOf_of_utf8Size ascii, List.mem_singleton] at shown
      exact shown.symm
    · obtain ⟨first, others, encoded, _, continues, high⟩ := exists_utf8EncodeChar_eq c
      rw [encoded, List.mem_cons] at member
      rcases member with rfl | further
      · exact absurd (high ascii) (by decide)
      · exact absurd (continues 0 further) (by decide)
  · rintro rfl
    decide

/-- A text has the byte zero exactly if it has a NUL character. -/
theorem zero_mem_bytesOf (text : String) : 0 ∈ bytesOf text ↔ '\x00' ∈ text.toList := by
  rw [bytesOf, List.mem_flatMap]
  constructor
  · rintro ⟨c, member, zero⟩
    rwa [← zero_mem_utf8EncodeChar.mp zero]
  · exact fun member => ⟨_, member, zero_mem_utf8EncodeChar.mpr rfl⟩

/-- Only the byte zero stands for the NUL character. -/
theorem Scan.zero_mem_of_nul_mem {span : Bytes} (member : '\x00' ∈ span.map characterOf) :
    0 ∈ span := by
  obtain ⟨byte, inside, same⟩ := List.mem_map.mp member
  have number := toNat_characterOf byte
  rw [same] at number
  rwa [show byte = 0 from UInt8.toNat_inj.mp number.symm] at inside

namespace Bytes

/-- Bytes without a zero are whole up to the first one. -/
theorem untilZero_of_not_mem {bytes : Bytes} (whole : 0 ∉ bytes) :
    Bytes.untilZero bytes = bytes := by
  rw [untilZero, List.takeWhile_eq_self_iff]
  intro byte member
  refine bne_iff_ne.mpr ?_
  rintro rfl
  exact whole member

/-- What stands in front of the first zero has none. -/
theorem not_mem_untilZero (bytes : Bytes) : 0 ∉ Bytes.untilZero bytes := by
  intro member
  have other := List.mem_takeWhile_imp member
  contradiction

/-- The character in front of some bytes is made of them. -/
theorem character_subset (bytes : Bytes) : character bytes ⊆ bytes := by
  cases bytes with
  | nil => exact List.Subset.refl _
  | cons first others =>
    exact List.cons_subset_cons first (List.takeWhile_prefix isContinuation).subset

/-- The character in front of the bytes of a text is the first one of the text, as a whole. -/
theorem character_encoded (c : Char) (text : List Char) :
    character ((c :: text).flatMap String.utf8EncodeChar) = String.utf8EncodeChar c := by
  obtain ⟨first, others, encoded, _, continues, _⟩ := exists_utf8EncodeChar_eq c
  have behind : (text.flatMap String.utf8EncodeChar).takeWhile isContinuation = [] := by
    cases text with
    | nil => rfl
    | cons d further =>
      obtain ⟨next, _, code, begins, _⟩ := exists_utf8EncodeChar_eq d
      rw [List.flatMap_cons, code, List.cons_append,
        List.takeWhile_cons_of_neg (Bool.eq_false_iff.mp begins)]
  rw [List.flatMap_cons, encoded, List.cons_append, character,
    List.takeWhile_append_of_pos continues, behind, List.append_nil]

end Bytes

namespace Context

variable (context : Context) (line : String)

/-- The tokens of a line are those that are read without a context, with their origins. -/
theorem scan_eq : context.scan line = (Scan.ofLine line).resolve context := rfl

/-- The tree of a line is that of its tokens. -/
theorem tree_eq : context.tree line = (context.scan line).tree line.utf8ByteSize := by
  rw [tree, treeBytes, length_bytesOf]
  rfl

/-- A line is parsed by building its tree and checking the names of the tree. -/
theorem parse_eq :
    context.parse line =
      (context.tree line >>= fun expr => context.check expr >>= fun _ => pure expr).mapError
        (Rejection.mk line) := rfl

end Context

end Reckoner
