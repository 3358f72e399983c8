import Reckoner.Diagnosis
import Reckoner.Token.Basic
/-!
# Reading a line into tokens

White space separates tokens and is skipped. A name reaches as far as letters and digits go, and it
is a function exactly if a parenthesis follows it directly. Everything else but a literal is one
character long. Reading stops at the first character or run that is no token; which names are
defined plays no part in it, so all names are unknown at first.

A line is bytes. The bytes of ASCII stand for their characters, and no other byte belongs to a
token or to white space, so every one may stand for a character beyond ASCII.
-/

namespace Reckoner

/-- The tokens of a line up to its end or to the first fault. -/
structure Scan where
  /-- The tokens in the order of the line. -/
  tokens : List Token
  /-- What stopped the reading in front of the end of the line. -/
  stop : Option Diagnosis
  deriving DecidableEq

namespace Scan

/-- The token of a run that starts at a byte. -/
def literal (start : Nat) (run : Literal.Run) : Except Diagnosis Token :=
  let stop := start + run.length - 1
  let spelling := Literal.spelled run.characters
  if Literal.valid spelling then
    .ok ⟨.number (String.ofList spelling) run.imaginary, start, stop⟩
  else
    let shown := if run.imaginary then spelling ++ ['i'] else spelling
    .error ⟨.brokenNumber (String.ofList shown), stop⟩

/-- The name of the letter `first` and the name characters `others`, in front of a text. -/
def name (start : Nat) (first : Char) (others behind : List Char) : Token :=
  let text := String.ofList (first :: others)
  ⟨if behind.head? = some '(' then .function .unknown text else .constant .unknown text,
    start, start + others.length⟩

/-- The token that starts with the character `first`, and the text behind it. -/
def token (start : Nat) (first : Char) (rest : List Char) : Except Diagnosis Token × List Char :=
  if isLetter first then
    let behind := rest.dropWhile isNameChar
    (.ok (name start first (rest.takeWhile isNameChar) behind), behind)
  else if first.isDigit || first == '.' then
    let run := Literal.run first rest
    (literal start run, run.behind)
  else
    match Operator.ofChar? first, Mark.ofChar? first with
    | some operator, _ => (.ok ⟨.operator operator, start, start⟩, rest)
    | none, some mark => (.ok ⟨.mark mark, start, start⟩, rest)
    | none, none => (.error ⟨.unknownCharacter, start⟩, rest)

theorem length_dropWhile_le (p : Char → Bool) (text : List Char) :
    (text.dropWhile p).length ≤ text.length :=
  (List.dropWhile_suffix p).length_le

theorem length_runTail_le (hex afterExponent : Bool) (text : List Char) :
    (Literal.runTail hex afterExponent text).behind.length ≤ text.length := by
  fun_induction Literal.runTail hex afterExponent text <;> grind [Literal.Run.cons]

/-- The text behind a token is shorter than the text the token starts. -/
theorem length_token_le (start : Nat) (first : Char) (rest : List Char) :
    (token start first rest).2.length ≤ rest.length := by
  unfold token
  split
  · exact length_dropWhile_le isNameChar rest
  · split
    · exact length_runTail_le _ _ rest
    · split <;> exact Nat.le_refl _

/-- The tokens of the text that starts at a byte of the line. -/
def ofText (start : Nat) (text : List Char) : Scan :=
  match _unread : text.dropWhile isBlank with
  | [] => ⟨[], none⟩
  | first :: rest =>
    let here := start + (text.takeWhile isBlank).length
    match (token here first rest).1 with
    | .error diagnosis => ⟨[], some diagnosis⟩
    | .ok found =>
      let further := ofText (found.stop + 1) (token here first rest).2
      ⟨found :: further.tokens, further.stop⟩
termination_by text.length
decreasing_by
  have shorter := length_token_le (start + (text.takeWhile isBlank).length) first rest
  have unreadLength : (first :: rest).length ≤ text.length :=
    _unread ▸ length_dropWhile_le isBlank text
  simp only [List.length_cons] at unreadLength
  omega

/-- The character that a byte stands for. -/
def characterOf (byte : UInt8) : Char := Char.ofNat byte.toNat

/-- The tokens of some bytes. -/
def ofBytes (line : Bytes) : Scan := ofText 0 (line.map characterOf)

/-- The tokens of a line. -/
def ofLine (line : String) : Scan := ofBytes (bytesOf line)

end Scan

end Reckoner
