import DocSchema.Text.CaseTable

/-!
# Upper and lower case

Case mappings of whole texts, for every script. A character may have several characters as its
other case. One mapping looks around: a capital sigma becomes the final small sigma at the end of a
word, that is, after a letter and not before one, where characters such as apostrophes and combining
marks are passed over.
-/

namespace DocSchema.Text

/-- The case of a character after a table of shifts and a table of expansions. -/
private def mapCase (shifts : List Shift) (expansions : List (Nat × List Nat)) (c : Char) :
    List Char :=
  match expansions.lookup c.toNat with
  | some ns => ns.map Char.ofNat
  | none =>
    match shifts.findSome? (·.image? c.toNat) with
    | some n => [Char.ofNat n]
    | none => [c]

def upperChar (c : Char) : List Char := mapCase upperShifts upperExpansions c

/-- The lower case of a character, wherever it stands. -/
def lowerChar (c : Char) : List Char := mapCase lowerShifts lowerExpansions c

/-- Whether the next letter is reached by passing over ignorable characters only. -/
def meetsLetter (cs : List Char) : Bool :=
  match cs.dropWhile caseIgnorable.has with
  | [] => false
  | c :: _ => cased.has c

/-- The lower case of a text that stands after the text whose reverse is `before`. -/
def lowerAfter (before : List Char) : List Char → List Char
  | [] => []
  | c :: rest =>
    let lowered :=
      if c = 'Σ' then (if meetsLetter before && !meetsLetter rest then ['ς'] else ['σ'])
      else lowerChar c
    lowered ++ lowerAfter (c :: before) rest

def lower (cs : List Char) : List Char := lowerAfter [] cs

def capitalize : List Char → List Char
  | [] => []
  | c :: rest => upperChar c ++ rest

/-- Lower case of the letters `A` to `Z` only. -/
def lowerAscii (cs : List Char) : List Char := cs.map Char.toLower

end DocSchema.Text
