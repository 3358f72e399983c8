import Reckoner.Context.Check
import Reckoner.Expr.Build
/-!
# Parsing a line

A line is read into tokens, whose names get the origins they have in the context, the tokens are
built into a tree, and the names of the tree are checked. This is done on the bytes of the line, and
it can be done on any bytes.
-/

namespace Reckoner

/-- The scan with the origins that its names have in a context. -/
def Scan.resolve (context : Context) (scan : Scan) : Scan :=
  { scan with tokens := scan.tokens.map (Token.resolve context) }

namespace Context

/-- The tokens of some bytes, with the origins of names in the context. -/
def scanBytes (context : Context) (line : Bytes) : Scan := (Scan.ofBytes line).resolve context

/-- The tree of some bytes in front of the check of its names. -/
def treeBytes (context : Context) (line : Bytes) : Except Diagnosis Expr :=
  (context.scanBytes line).tree line.length

/-- The checked tree of some bytes. -/
def parseBytes (context : Context) (line : Bytes) : Except Diagnosis Expr := do
  let expr ← context.treeBytes line
  context.check expr
  pure expr

/-- The tokens of a line, with the origins of names in the context. -/
def scan (context : Context) (line : String) : Scan := context.scanBytes (bytesOf line)

/-- The tree of a line in front of the check of its names. -/
def tree (context : Context) (line : String) : Except Diagnosis Expr :=
  context.treeBytes (bytesOf line)

/-- The checked tree of a line. -/
def parse (context : Context) (line : String) : Except Rejection Expr :=
  (context.parseBytes (bytesOf line)).mapError fun diagnosis => ⟨line, diagnosis⟩

end Context

end Reckoner
