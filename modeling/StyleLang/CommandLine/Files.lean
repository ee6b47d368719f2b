/-!
# Files as a command sees them

A path is a file with its bytes, a directory, or nothing. Text files are UTF-8; a return, with or
without a line feed after it, ends a line like a line feed.
-/

namespace StyleLang.CommandLine

inductive Entry where
  | file (bytes : ByteArray)
  | directory

/-- What is at a path. -/
abbrev Files := String → Option Entry

/-- The parts of a path that lead somewhere. -/
def components (path : String) : List String :=
  (path.splitOn "/").filter fun c => c ≠ "" ∧ c ≠ "."

/-- The last part of a path. -/
def baseName (path : String) : String := (components path).getLast?.getD ""

/-- Where a path begins: at the root or in the working directory. -/
def origin (path : String) : String := if path.startsWith "/" then "/" else ""

/-- A path without the parts that lead nowhere. -/
def direct (path : String) : String := origin path ++ "/".intercalate (components path)

/-- The paths that lead from one place along all parts but the last. -/
def passedFrom (here : String) : List String → List String
  | [] | [_] => []
  | c :: rest => (here ++ c) :: passedFrom (here ++ c ++ "/") rest

/-- What a path passes on its way, in order. -/
def passed (path : String) : List String := passedFrom (origin path) (components path)

/-- Whether a path holds the null character, which no name holds. -/
def holdsNull (path : String) : Bool := path.toList.contains '\x00'

/-- Names have at most 255 bytes. -/
def nameFits (name : String) : Bool := name.utf8ByteSize ≤ 255

/-- Paths have less than 4096 bytes. -/
def pathFits (path : String) : Bool := path.utf8ByteSize < 4096

/-- Returns as line feeds. -/
def unifyNewlines : List Char → List Char
  | '\r' :: '\n' :: rest => '\n' :: unifyNewlines rest
  | '\r' :: rest => '\n' :: unifyNewlines rest
  | c :: rest => c :: unifyNewlines rest
  | [] => []

/-- The text of a file, if its bytes are UTF-8. -/
def text? (bytes : ByteArray) : Option String :=
  (String.fromUTF8? bytes).map fun s => String.ofList (unifyNewlines s.toList)

end StyleLang.CommandLine
