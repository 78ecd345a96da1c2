import DocSchema.Text.Case

/-!
# English plurals

A word gets its plural from the first rule that applies to it. Most rules look at the end of the
word: a stem that stays, an ending that is dropped, and what takes its place. Letters are compared
without regard to case, where the long s counts as an `s` and the Kelvin sign as a `k`; the stem
keeps the letters of the word.
-/

namespace DocSchema.Collection

/-- Words that keep their form in the plural. -/
def uncountables : List String := [
  "advice", "cooperation", "deer", "digestion", "energy", "equipment", "excretion", "expertise",
  "fish", "health", "information", "justice", "labour", "machinery", "media", "money", "moose",
  "news", "paper", "pollution", "rain", "rice", "series", "sewage", "sheep", "species", "status"]

/-- The letter that stands for a character when case is disregarded. -/
def foldCase (c : Char) : Char :=
  if c.toNat = 0x17f then 's' else if c.toNat = 0x212a then 'k' else c.toLower

inductive CharTest where
  | oneOf (letters : List Char)
  | noneOf (letters : List Char)

/-- Whether a character fulfils a condition, whatever its case. -/
def CharTest.accepts : CharTest → Char → Bool
  | .oneOf letters, c => letters.contains (foldCase c)
  | .noneOf letters, c => !letters.contains (foldCase c)

def exactly (word : String) : List CharTest := word.toList.map fun c => .oneOf [c]

/-- Whether a text starts with characters that fulfil the conditions in turn. -/
def startsLike : List CharTest → List Char → Bool
  | [], _ => true
  | _ :: _, [] => false
  | t :: ts, c :: cs => t.accepts c && startsLike ts cs

def endsLike (tests : List CharTest) (cs : List Char) : Bool :=
  decide (tests.length ≤ cs.length) && startsLike tests (cs.drop (cs.length - tests.length))

/-- A rule gives the plural of the words it applies to. -/
abbrev PluralRule := List Char → Option (List Char)

namespace PluralRule

/-- Replace an ending after one of the given stems. -/
def ending (stems : List (List CharTest)) (dropped added : String) : PluralRule := fun cs =>
  if stems.any fun stem => endsLike (stem ++ exactly dropped) cs then
    some (cs.take (cs.length - dropped.length) ++ added.toList)
  else none

/-- Append to one given word. -/
def whole (word added : String) : PluralRule := fun cs =>
  if cs.length = word.length && startsLike (exactly word) cs then some (cs ++ added.toList)
  else none

/-- Replace the letters after the first occurrence of one of the given stems, wherever it is. -/
def firstWithin (stems : List String) (dropped added : String) : PluralRule
  | [] => none
  | c :: cs =>
    match stems.find? fun stem => startsLike (exactly (stem ++ dropped)) (c :: cs) with
    | some stem =>
      some ((c :: cs).take stem.length ++ added.toList ++
        (c :: cs).drop (stem.length + dropped.length))
    | none => (firstWithin stems dropped added cs).map (c :: ·)

def orElse (first second : PluralRule) : PluralRule := fun cs => (first cs).or (second cs)

/-- Keep a word whose last character is no small Latin letter. -/
def keepUnlessLetter : PluralRule := fun cs =>
  match cs.getLast? with
  | some c => if 'a' ≤ c ∧ c ≤ 'z' then none else some cs
  | none => none

def all : List PluralRule := [
  ending [exactly "m"] "an" "en",
  ending [exactly "pe"] "rson" "ople",
  ending [exactly "child"] "" "ren",
  whole "ox" "en",
  ending [exactly "ax", exactly "test"] "is" "es",
  ending [exactly "octop", exactly "vir"] "us" "i",
  ending [exactly "alias", exactly "status"] "" "es",
  ending [exactly "bu"] "s" "ses",
  ending [exactly "buffal", exactly "tomat", exactly "potat"] "o" "oes",
  ending [[.oneOf ['t', 'i']]] "um" "a",
  ending [[]] "sis" "ses",
  orElse (ending [[.noneOf ['f']]] "fe" "ves") (ending [[.oneOf ['l', 'r']]] "f" "ves"),
  ending [exactly "hive"] "" "s",
  ending [[.noneOf ['a', 'e', 'i', 'o', 'u', 'y']], exactly "qu"] "y" "ies",
  ending [exactly "x", exactly "ch", exactly "ss", exactly "sh"] "" "es",
  orElse (firstWithin ["matr", "vert", "ind"] "ix" "ices") (ending [[]] "ex" "ices"),
  ending [[.oneOf ['m', 'l']]] "ouse" "ice",
  ending [exactly "kn", exactly "w", exactly "l"] "ife" "ives",
  ending [exactly "quiz"] "" "zes",
  ending [[]] "s" "s",
  keepUnlessLetter,
  ending [[]] "" "s"]

end PluralRule

def plural (cs : List Char) : List Char :=
  if uncountables.contains (String.ofList (Text.lower cs)) then cs
  else (PluralRule.all.findSome? (· cs)).getD cs

def pluralize (word : String) : String := String.ofList (plural word.toList)

end DocSchema.Collection
