/-!
# Options on a command line

A word that begins with a hyphen sets options. A long option stands alone, with its value after an
equals sign or as the next word; short options may stand together in one word, the last of them
perhaps with its value. After the word `--` nothing sets an option any more. Other words are
operands; where operands end the options, everything from the first of them on is an operand.
-/

namespace StyleLang.CommandLine

inductive Usage where
  | noSuchOption (word : String)
  | valueMissing (option : String)
  | valueUnexpected (option : String)
  | operandMissing
  | operandUnexpected (word : String)
  | commandMissing
  | noSuchCommand (word : String)
  | noInteger (word : String)
  | noSuchFile (word : String)
  | isDirectory (word : String)
  deriving DecidableEq

def Usage.message : Usage → String
  | noSuchOption word => "No such option: " ++ word
  | valueMissing option => "Option '" ++ option ++ "' requires an argument."
  | valueUnexpected option => "Option '" ++ option ++ "' does not take a value."
  | operandMissing => "Missing argument 'ICSSFILE'."
  | operandUnexpected word => "Got unexpected extra argument (" ++ word ++ ")"
  | commandMissing => "Missing command."
  | noSuchCommand word => "No such command '" ++ word ++ "'."
  | noInteger word => "'" ++ word ++ "' is not a valid integer."
  | noSuchFile word => "Path '" ++ word ++ "' does not exist."
  | isDirectory word => "File '" ++ word ++ "' is a directory."

/-- An option by its key, its names and whether it takes a value. -/
structure OptionSpec (κ : Type) where
  key : κ
  short : Option Char
  long : String
  takesValue : Bool

/-- An option that was set, with its value; a flag has an empty value. -/
structure Setting (κ : Type) where
  key : κ
  value : String
  deriving DecidableEq

/-- What the words set, in order, and the operands. -/
structure Parsed (κ : Type) where
  settings : List (Setting κ)
  operands : List String
  deriving DecidableEq

variable {κ : Type}

/-- What one word sets, and the option, if any, whose value is the next word. -/
abbrev WordSettings (κ : Type) := List (Setting κ) × Option (OptionSpec κ)

/-- Short options standing together. -/
def cluster (specs : List (OptionSpec κ)) : List Char → Except Usage (WordSettings κ)
  | [] => .ok ([], none)
  | c :: rest =>
    match specs.find? fun s => s.short = some c with
    | none => .error (.noSuchOption (String.ofList ['-', c]))
    | some spec =>
      if spec.takesValue then
        if rest.isEmpty then .ok ([], some spec)
        else .ok ([⟨spec.key, String.ofList rest⟩], none)
      else (cluster specs rest).map fun (others, pending) => (⟨spec.key, ""⟩ :: others, pending)

/-- What a word that begins with a hyphen sets. -/
def word (specs : List (OptionSpec κ)) (cs : List Char) : Except Usage (WordSettings κ) :=
  let name := String.ofList (cs.takeWhile (· ≠ '='))
  match specs.find? fun s => s.long = name with
  | some spec =>
    match cs.dropWhile (· ≠ '='), spec.takesValue with
    | _ :: value, true => .ok ([⟨spec.key, String.ofList value⟩], none)
    | _ :: _, false => .error (.valueUnexpected name)
    | [], true => .ok ([], some spec)
    | [], false => .ok ([⟨spec.key, ""⟩], none)
  | none =>
    match cs with
    | '-' :: '-' :: _ => .error (.noSuchOption name)
    | _ => cluster specs cs.tail

/-- Whether a word sets options, `--` apart. -/
def setsOptions (w : String) : Bool := w.startsWith "-" && w ≠ "-"

/-- Reads the words in order. Unless `mixed`, the first operand ends the options. -/
def readWords (specs : List (OptionSpec κ)) (mixed : Bool) :
    List String → Except Usage (Parsed κ)
  | [] => .ok ⟨[], []⟩
  | w :: rest =>
    if w = "--" then .ok ⟨[], rest⟩
    else if setsOptions w then
      match word specs w.toList with
      | .error u => .error u
      | .ok (found, none) =>
        (readWords specs mixed rest).map fun p => { p with settings := found ++ p.settings }
      | .ok (found, some spec) =>
        match rest with
        | [] => .error (.valueMissing spec.long)
        | value :: rest' =>
          (readWords specs mixed rest').map fun p =>
            { p with settings := found ++ ⟨spec.key, value⟩ :: p.settings }
    else if mixed then
      (readWords specs mixed rest).map fun p => { p with operands := w :: p.operands }
    else .ok ⟨[], w :: rest⟩

end StyleLang.CommandLine
