import StyleLang.Evaluation.Evaluate
import StyleLang.Node.Outline

/-!
# Transforms

Between checking and writing, a sheet goes through transforms: evaluation first, then any others. A
transform changes the sheet it gets or puts a new one in its place. Every one but evaluation notes
the outline of the sheet it gets.
-/

namespace StyleLang

inductive Transform where
  | evaluate
  /-- Leaves the sheet as it is. -/
  | keep
  /-- Puts an empty sheet in its place. -/
  | replace
  /-- Turns the order of the members round, in place. -/
  | reverse
  /-- Puts a sheet without the first member in its place. -/
  | dropFirst
  | fail
  deriving DecidableEq

namespace Transform

def name : Transform → String
  | evaluate => "evaluator"
  | keep => "keep"
  | replace => "replace"
  | reverse => "reverse"
  | dropFirst => "drop_first"
  | fail => "raise"

def all : List Transform := [evaluate, keep, replace, reverse, dropFirst, fail]

def ofName? (s : String) : Option Transform := all.find? (·.name = s)

end Transform

inductive TransformFault where
  | fault (cause : Fault)
  | raised
  deriving DecidableEq

def TransformFault.message : TransformFault → String
  | fault cause => cause.report.message
  | raised => "transform failed"

/-- Where a run of transforms stands. -/
structure Transforming where
  sheet : Sheet
  /-- Whether the sheet is still the one that the run began with. -/
  same : Bool
  /-- Who noted what. -/
  notes : List (String × List String)
  failure : Option TransformFault

namespace Transforming

def start (s : Sheet) : Transforming := ⟨s, true, [], none⟩

def stop (t : Transforming) (f : TransformFault) : Transforming := { t with failure := some f }

/-- Notes the outline of the sheet. -/
def note (t : Transforming) (name : String) : Transforming :=
  match t.sheet.outline with
  | .ok lines => { t with notes := t.notes ++ [(name, lines)] }
  | .error f => t.stop (.fault f)

def evaluate (t : Transforming) : Transforming :=
  let evaluated := t.sheet.evaluate
  match evaluated.result with
  | .ok () => { t with sheet := evaluated.tree }
  | .error f => { t with sheet := evaluated.tree, failure := some (.fault f) }

/-- What a transform other than evaluation does once it has made its note. -/
def apply (t : Transforming) : Transform → Transforming
  | .evaluate => t
  | .keep => t
  | .replace => { t with sheet := ⟨none, []⟩, same := false }
  | .reverse => { t with sheet := { t.sheet with members := t.sheet.members.reverse } }
  | .dropFirst => { t with sheet := ⟨none, t.sheet.members.tail⟩, same := false }
  | .fail => t.stop .raised

/-- Applies a transform, unless the run has failed. -/
def step (t : Transforming) (transform : Transform) : Transforming :=
  match t.failure with
  | some _ => t
  | none =>
    if transform = .evaluate then t.evaluate
    else
      let noted := t.note transform.name
      match noted.failure with
      | some _ => noted
      | none => noted.apply transform

end Transforming

/-- Sends a sheet through evaluation and then through the given transforms. -/
def Sheet.transform (custom : List Transform) (s : Sheet) : Transforming :=
  (Transform.evaluate :: custom).foldl Transforming.step (.start s)

end StyleLang
