import StyleLang.CommandLine.Execute

/-!
# The program

Looks at the paths that the command line mentions, carries the command out, and does to the outside
what the result says. A program that uses the memory up is ended from outside, so no result is left
for that.
-/

namespace StyleLang

open CommandLine

/-- What is at a path. What cannot be read as a file but is there counts as a directory. -/
def lookAt (path : String) : IO (Option Entry) := do
  if path = "" then return none
  try
    return some (.file (← IO.FS.readBinFile path))
  catch e =>
    match e with
    | .noFileOrDirectory .. => return none
    | _ => return some .directory

def lookAround (paths : List String) : IO Files := do
  let mut found : List (String × Option Entry) := []
  for path in paths do
    found := (path, ← lookAt path) :: found
  let seen := found
  return fun path => (seen.lookup path).join

def perform (result : Result) : IO UInt32 := do
  match result.written with
  | some (path, text) => IO.FS.writeFile path text
  | none => pure ()
  IO.print result.out
  IO.eprint result.err
  match result.crash with
  | some c => IO.eprintln c.message
  | none => pure ()
  return UInt32.ofNat result.code

end StyleLang

def main (words : List String) : IO UInt32 := do
  match StyleLang.CommandLine.readInvocation words with
  | .error u => StyleLang.perform (.misused u)
  | .ok i =>
    let files ← StyleLang.lookAround (i.paths)
    StyleLang.perform (StyleLang.CommandLine.execute ⟨files, fun _ _ _ _ => none⟩ i)
