import DocSchema.Schema.Record

/-!
# Entries of a definition

The entries of a group of fields are its fields and inner groups in preorder, each with its full
path: an object without a type that is not empty is an inner group, and everything else is a field.
A missing definition is an entry of its own, since it is refused when its turn comes.
-/

namespace DocSchema

variable {δ τ : Type}

/-- One entry of a group of fields. A field comes with what is known of its type. -/
inductive Entry (δ τ : Type) where
  /-- A path without a definition. -/
  | missing (path : String)
  /-- A path whose definition is an array that holds nothing but a missing definition. -/
  | missingItem (path : String)
  | group (path : String)
  | field (path : String) (d : Definition δ) (type : τ)

def Entry.withType (type : String → Definition δ → τ) : Entry δ Unit → Entry δ τ
  | .missing path => .missing path
  | .missingItem path => .missingItem path
  | .group path => .group path
  | .field path d _ => .field path d (type path d)

namespace Definition

mutual

def entriesAt (typeKey path : String) : Definition δ → List (Entry δ Unit)
  | .literal .null => [.missing path]
  | .array [.literal .null] => [.missingItem path]
  | .object [] => [.field path (.object []) ()]
  | .object (f :: fs) =>
    if isGroup (f :: fs) typeKey then .group path :: entries typeKey (path ++ ".") (f :: fs)
    else [.field path (.object (f :: fs)) ()]
  | d => [.field path d ()]

/-- The entries of the fields of an object, each path starting with the same text. -/
def entries (typeKey front : String) : List (String × Definition δ) → List (Entry δ Unit)
  | [] => []
  | (key, d) :: rest => entriesAt typeKey (front ++ key) d ++ entries typeKey front rest

end

mutual

/-- The definition of a field among the entries is never larger than the definition it is from. -/
theorem sizeOf_le_of_mem_entriesAt {typeKey path p : String} {x : Definition δ} {u : Unit} :
    ∀ d : Definition δ, Entry.field p x u ∈ entriesAt typeKey path d → sizeOf x ≤ sizeOf d
  | .literal v, h => by
    cases v <;> simp_all [entriesAt]
  | .type t, h => by simp_all [entriesAt]
  | .schema s, h => by simp_all [entriesAt]
  | .array items, h => by
    unfold entriesAt at h
    split at h <;> simp_all
  | .object [], h => by simp_all [entriesAt]
  | .object (f :: fs), h => by
    rw [entriesAt] at h
    split at h
    · have h' : Entry.field p x u ∈ entries typeKey (path ++ ".") (f :: fs) := by simpa using h
      have := sizeOf_lt_of_mem_entries (f :: fs) h'
      simp only [object.sizeOf_spec]
      omega
    · simp_all

/-- The definition of a field among the entries of an object is smaller than the list of its
fields. -/
theorem sizeOf_lt_of_mem_entries {typeKey front p : String} {x : Definition δ} {u : Unit} :
    ∀ fields : List (String × Definition δ), Entry.field p x u ∈ entries typeKey front fields →
      sizeOf x < sizeOf fields
  | [], h => by simp [entries] at h
  | (key, d) :: rest, h => by
    rw [entries, List.mem_append] at h
    simp only [List.cons.sizeOf_spec, Prod.mk.sizeOf_spec]
    rcases h with h | h
    · have := sizeOf_le_of_mem_entriesAt d h
      omega
    · have := sizeOf_lt_of_mem_entries rest h
      omega

end

end Definition

end DocSchema
