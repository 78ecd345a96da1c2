import DocSchema.Path.Segments

/-!
# Positions

A segment after the first one may stand for the elements of an array: `$`, or a number. A path with
such a segment is read as a list of steps, where the segments between two positions stay together
as one dotted name.
-/

namespace DocSchema.Path

/-- Whether a segment stands for a position in an array: the sign for any position, or digits. -/
def isPosition (segment : String) : Bool :=
  segment = "$" || (!segment.toList.isEmpty && segment.toList.all Char.isDigit)

/-- Whether a path has a position after its first segment. -/
def isPositional (path : String) : Bool := (segments path).tail.any isPosition

/-- One step of a path through documents and arrays. -/
inductive Step where
  | field (name : String)
  | position
  deriving DecidableEq, Repr

/-- The step of the segments gathered so far, if there are any. -/
def stepOfRun : List String → List Step
  | [] => []
  | run => [.field (join run)]

/-- The steps of the segments after the gathered ones. -/
def stepsAfter (run : List String) : List String → List Step
  | [] => stepOfRun run
  | s :: rest =>
    if isPosition s then stepOfRun run ++ .position :: stepsAfter [] rest
    else stepsAfter (run ++ [s]) rest

/-- The steps of a path. Its first segment is a name even where it looks like a position. -/
def steps (path : String) : List Step :=
  match segments path with
  | [] => []
  | s :: rest => stepsAfter [s] rest

end DocSchema.Path
