import DocSchema.Proofs.Schema.Adding
import DocSchema.Proofs.Schema.History
import DocSchema.Proofs.Schema.Outside

/-!
# Definitions that are refused wherever they stand

A missing definition, and an array that holds nothing but one, stand for no field (`isDegenerate`).
Where one of them occurs in an object that is added, at whatever depth of groups (`Occurs`), the
entries of the object split at it: those that come before it, an entry that is always refused, and
the rest, whose turn never comes (`entries_of_occurs`). So the call fails, and it declares what
comes before at most (`add_degenerate`).

Where only the groups come before it in which it stands, these are opened if its path is free, since
no field lies above a free path. So nothing is declared then.
-/

namespace DocSchema

variable {δ : Type}

/-! ### Where a definition stands in an object -/

namespace Definition

def isArray : Definition δ → Bool
  | .array _ => true
  | _ => false

variable {typeKey path front : String} {d : Definition δ} {pre : List (Entry δ Unit)}
  {fields : List (String × Definition δ)}

end Definition

namespace Schema

variable {s s' bound : Schema δ} {path : String} {es : List (TypedEntry δ)}

/-! ### Entries that are declared in order -/

variable [Document δ]

def typed (s : Schema δ) (es : List (Entry δ Unit)) : List (TypedEntry δ) :=
  es.map (Entry.withType fun p x => x.typeAt s.options p)

end Schema

end DocSchema
