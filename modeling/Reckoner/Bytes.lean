/-!
# Texts as bytes

A line and the report on it are bytes, which need not be those of any text. The bytes of a text are
its UTF-8 encoding, where a character is a first byte and the bytes that continue it.
-/

namespace Reckoner

/-- Some bytes. -/
abbrev Bytes := List UInt8

/-- The bytes of a text. -/
def bytesOf (text : String) : Bytes := text.toList.flatMap String.utf8EncodeChar

/-- The byte continues a character. -/
def isContinuation (byte : UInt8) : Bool := byte &&& 0xC0 == 0x80

namespace Bytes

/-- The text of some bytes; it is empty if they are those of no text. -/
def text (bytes : Bytes) : String := (String.fromUTF8? bytes.toByteArray).getD ""

/-- The character in front of some bytes: a byte and all those that continue it. -/
def character : Bytes → Bytes
  | [] => []
  | first :: others => first :: others.takeWhile isContinuation

/-- The bytes up to the first that is zero. -/
def untilZero (bytes : Bytes) : Bytes := bytes.takeWhile (· != 0)

end Bytes

end Reckoner
