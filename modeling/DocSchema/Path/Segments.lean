/-!
# Dotted paths

A path names a field by the segments that lead to it, with a dot between any two. Every text is a
path: `"a..b"` has an empty segment in the middle, and the empty text has one empty segment.
Splitting and joining are inverse to one another on paths (`join_segments`), and a path is a proper
ancestor of another one where that one continues it with a dot.
-/

namespace DocSchema.Path

/-- Split at every dot. There is always at least one part. -/
def splitChars : List Char → List (List Char)
  | [] => [[]]
  | c :: cs =>
    if c = '.' then [] :: splitChars cs
    else
      match splitChars cs with
      | [] => [[c]]
      | s :: ss => (c :: s) :: ss

/-- Join with a dot between any two parts. -/
def joinChars : List (List Char) → List Char
  | [] => []
  | [s] => s
  | s :: ss => s ++ '.' :: joinChars ss

def segments (path : String) : List String := (splitChars path.toList).map String.ofList

def join (segments : List String) : String :=
  String.ofList (joinChars (segments.map String.toList))

/-- The path of a name inside a field or a group. -/
def below (parent name : String) : String := parent ++ "." ++ name

/-- The paths that lead to the segments after `done`, the last one excepted. -/
def ancestorsAfter (done : List String) : List String → List String
  | [] => []
  | [_] => []
  | s :: rest => join (done ++ [s]) :: ancestorsAfter (done ++ [s]) rest

/-- The proper ancestors of a path, the shortest first. -/
def ancestors (path : String) : List String := ancestorsAfter [] (segments path)

def trimDots (path : String) : String :=
  String.ofList (path.toList.reverse.dropWhile (· = '.')).reverse

def isBelow (parent path : String) : Bool := (parent.toList ++ ['.']).isPrefixOf path.toList

theorem splitChars_ne_nil (cs : List Char) : splitChars cs ≠ [] := by
  cases cs with
  | nil => simp [splitChars]
  | cons c cs =>
    rw [splitChars]
    split
    · simp
    · split <;> simp

theorem joinChars_splitChars (cs : List Char) : joinChars (splitChars cs) = cs := by
  induction cs with
  | nil => rfl
  | cons c cs ih =>
    rw [splitChars]
    split
    · next h =>
      subst h
      cases hs : splitChars cs with
      | nil => exact absurd hs (splitChars_ne_nil cs)
      | cons s ss => rw [hs] at ih; simp [joinChars, ih]
    · cases hs : splitChars cs with
      | nil => exact absurd hs (splitChars_ne_nil cs)
      | cons s ss =>
        rw [hs] at ih
        cases ss with
        | nil => simpa [joinChars] using ih
        | cons s' ss => simpa [joinChars] using ih

/-- Joining the segments of a path gives it back. -/
theorem join_segments (path : String) : join (segments path) = path := by
  have h : (String.toList ∘ String.ofList) = (id : List Char → List Char) := by
    funext l; simp
  simp [join, segments, List.map_map, h, joinChars_splitChars]

end DocSchema.Path
