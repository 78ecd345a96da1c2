import DocSchema.Proofs.Json.Renaming
import DocSchema.Proofs.Schema.TypeNames

/-!
# Types spelled with another key

Which key holds the type of a field is a matter of spelling. A value may be spelled with another key
if the old one stands for types wherever it is used (`Json.TypedBy`) and the new one is not used at
all. Its definition is then read with the new key as it was with the old one: it has the same
entries, its records have the same shape, and their settings are the same.

Settings that have no place of their own are kept as they are shown, so they are renamed where they
use the key themselves. What becomes of them is a parameter of all that follows: nothing, if they do
not use the key, and the renaming otherwise.
-/

namespace DocSchema

/-! ### Values that are typed by a key -/

namespace Json

mutual

/-- Whether a key stands for types wherever it is used in a value. An object that has the key is a
record: it holds something there, and the key is not used in its options but for the elements of an
array. What the record holds under further names may be restricted. -/
def TypedBy (key : String) (other : Json → Prop) : Json → Prop
  | .arr items => ItemsTypedBy key other items
  | .obj fields =>
    if Table.contains fields key then RecordTypedBy key other fields
    else FieldsTypedBy key other fields
  | _ => True

def ItemsTypedBy (key : String) (other : Json → Prop) : List Json → Prop
  | [] => True
  | v :: vs => TypedBy key other v ∧ ItemsTypedBy key other vs

def FieldsTypedBy (key : String) (other : Json → Prop) : List (String × Json) → Prop
  | [] => True
  | (_, v) :: fs => TypedBy key other v ∧ FieldsTypedBy key other fs

/-- Whether a key stands for types wherever it is used in the entries of a record. -/
def RecordTypedBy (key : String) (other : Json → Prop) : List (String × Json) → Prop
  | [] => True
  | (name, v) :: fs =>
    (if name = key then v ≠ .null ∧ v ≠ .bool false ∧ TypedBy key other v
      else if name = "cast" then TypedBy key other v
      else if name ∈ Settings.optionKeys then Lacks key v
      else other v) ∧ RecordTypedBy key other fs

end

end Json

/-! ### Definitions with a key renamed -/

variable {δ : Type}

namespace Definition

mutual

/-- A definition with one key renamed. -/
def rename (old new : String) : Definition δ → Definition δ
  | .array items => .array (renameItems old new items)
  | .object fields => .object (renameFields old new fields)
  | d => d

def renameItems (old new : String) : List (Definition δ) → List (Definition δ)
  | [] => []
  | d :: ds => rename old new d :: renameItems old new ds

def renameFields (old new : String) : List (String × Definition δ) → List (String × Definition δ)
  | [] => []
  | (key, d) :: fs => (Table.renameKey old new key, rename old new d) :: renameFields old new fs

end

variable {old new key path : String} {d : Definition δ} {fields : List (String × Definition δ)}

theorem renameItems_eq (items : List (Definition δ)) :
    renameItems old new items = items.map (rename old new) := by
  induction items with
  | nil => rfl
  | cons d items ih => rw [renameItems, ih, List.map_cons]

theorem renameFields_eq (fields : List (String × Definition δ)) :
    renameFields old new fields = Table.rename old new (rename old new) fields := by
  induction fields with
  | nil => rfl
  | cons e fields ih =>
    obtain ⟨key, d⟩ := e
    rw [renameFields, ih, Table.rename_cons]

mutual

theorem ofJson_rename : ∀ v : Json,
    (ofJson (v.rename old new) : Definition δ) = (ofJson v).rename old new
  | .null => rfl
  | .bool _ => rfl
  | .num _ => rfl
  | .str _ => rfl
  | .arr items => by rw [Json.rename, ofJson, ofJson, rename, ofItems_rename items]
  | .obj fields => by rw [Json.rename, ofJson, ofJson, rename, ofFields_rename fields]

theorem ofItems_rename : ∀ vs : List Json,
    (ofItems (Json.renameItems old new vs) : List (Definition δ)) =
      renameItems old new (ofItems vs)
  | [] => rfl
  | v :: vs => by
    rw [Json.renameItems, ofItems, ofItems, renameItems, ofJson_rename v, ofItems_rename vs]

theorem ofFields_rename : ∀ fs : List (String × Json),
    (ofFields (Json.renameFields old new fs) : List (String × Definition δ)) =
      renameFields old new (ofFields fs)
  | [] => rfl
  | (key, v) :: fs => by
    rw [Json.renameFields, ofFields, ofFields, renameFields, ofJson_rename v, ofFields_rename fs]

end

@[simp] theorem isUnset_rename (d : Definition δ) : (d.rename old new).isUnset = d.isUnset := by
  cases d with
  | literal v => rfl
  | _ => rfl

theorem get?_renameFields_of_ne (notOld : key ≠ old) (notNew : key ≠ new) :
    Table.get? (renameFields old new fields) key =
      (Table.get? fields key).map (rename old new) := by
  rw [renameFields_eq, Table.get?_rename_of_ne notOld notNew]

theorem get?_renameFields_new (unused : ∀ e ∈ fields, e.1 = new → e.1 = old) :
    Table.get? (renameFields old new fields) new =
      (Table.get? fields old).map (rename old new) := by
  rw [renameFields_eq, Table.get?_rename_new unused]

/-- What a record holds under the type key is renamed with it. -/
theorem statedType?_rename (unused : ∀ e ∈ fields, e.1 = new → e.1 = old) :
    statedType? (renameFields old new fields) new =
      (statedType? fields old).map (rename old new) := by
  rw [statedType?, statedType?, get?_renameFields_new unused, Option.filter_map]
  simp [Function.comp_def]

theorem isGroup_rename (unused : ∀ e ∈ fields, e.1 = new → e.1 = old) :
    isGroup (renameFields old new fields) new = isGroup fields old := by
  rw [isGroup, isGroup, statedType?_rename unused, Option.isNone_map]

/-! ### Definitions that may be spelled with another key -/

/-- Whether the entries of a record beside its type are kept when a key is renamed. -/
def SettingsKept (old new : String) (keep : Json → Json) (fields : List (String × Definition δ)) :
    Prop :=
  ∀ e ∈ fields, e.1 ≠ old → e.1 ≠ "cast" →
    (e.2.rename old new).toJson = keep e.2.toJson ∧
      (e.1 ∈ Settings.optionKeys → e.2.rename old new = e.2)

/-- Whether a definition may be spelled with another type key. -/
inductive Spelled (old new : String) (keep : Json → Json) : Definition δ → Prop where
  | literal (v : Json) : Spelled old new keep (.literal v)
  | type (t : TypeName) : Spelled old new keep (.type t)
  | array {items : List (Definition δ)} (inner : ∀ d ∈ items, Spelled old new keep d) :
      Spelled old new keep (.array items)
  | group {fields : List (String × Definition δ)} (apart : ∀ e ∈ fields, e.1 ≠ old ∧ e.1 ≠ new)
      (inner : ∀ e ∈ fields, Spelled old new keep e.2) : Spelled old new keep (.object fields)
  | record {fields : List (String × Definition δ)} {x : Definition δ}
      (stated : statedType? fields old = some x) (unused : ∀ e ∈ fields, e.1 = new → e.1 = old)
      (typed : ∀ e ∈ fields, e.1 = old ∨ e.1 = "cast" → Spelled old new keep e.2)
      (settings : SettingsKept old new keep fields) : Spelled old new keep (.object fields)

variable {keep : Json → Json}

theorem Spelled.unused (h : Spelled old new keep (.object fields)) :
    ∀ e ∈ fields, e.1 = new → e.1 = old := by
  cases h with
  | group apart inner => exact fun e there isNew => absurd isNew (apart e there).2
  | record stated unused typed settings => exact unused

/-- Whether the record of a field may be spelled with another type key. -/
structure SpelledRecord (old new : String) (keep : Json → Json) (record : Table (Definition δ)) :
    Prop where
  unused : ∀ e ∈ record, e.1 = new → e.1 = old
  typed : ∀ e ∈ record, e.1 = old ∨ e.1 = "cast" → Spelled old new keep e.2
  settings : SettingsKept old new keep record

/-! ### Definitions from JSON -/

theorem unused_ofFields {key : String} : ∀ {fs : List (String × Json)}, Json.FieldsLack key fs →
    ∀ e ∈ (ofFields fs : List (String × Definition δ)), e.1 ≠ key
  | [], _, _, there => absurd there List.not_mem_nil
  | (name, v) :: fs, ⟨first, _, others⟩, e, there => by
    rw [ofFields, List.mem_cons] at there
    rcases there with rfl | there
    · exact first
    · exact unused_ofFields others e there

theorem keys_ofFields (fs : List (String × Json)) :
    Table.keys (ofFields fs : List (String × Definition δ)) = Table.keys fs := by
  induction fs with
  | nil => rfl
  | cons e fs ih =>
    obtain ⟨name, v⟩ := e
    rw [ofFields, Table.keys_cons, Table.keys_cons, ih]

section

variable {other : Json → Prop}

/-- A record that is typed by a key holds something there. -/
theorem statedType?_ofFields : ∀ {fs : List (String × Json)}, Table.contains fs old = true →
    Json.RecordTypedBy old other fs →
    ∃ x, statedType? (ofFields fs : List (String × Definition δ)) old = some x
  | [], present, _ => absurd present (by simp [Table.contains])
  | (name, v) :: fs, present, ⟨first, others⟩ => by
    by_cases isOld : name = old
    · subst isOld
      rw [if_pos rfl] at first
      refine ⟨ofJson v, statedType?_of_get? (by simp [ofFields, Table.get?]) ?_⟩
      obtain ⟨notNull, notFalse, -⟩ := first
      cases v with
      | bool b =>
        cases b with
        | false => exact absurd rfl notFalse
        | true => rfl
      | null => exact absurd rfl notNull
      | _ => rfl
    · have present : Table.contains fs old = true := by
        simpa [Table.contains, Table.get?, isOld] using present
      obtain ⟨x, stated⟩ := statedType?_ofFields present others
      refine ⟨x, ?_⟩
      rw [statedType?] at stated ⊢
      simpa [ofFields, Table.get?, isOld] using stated

/-- Whether a change of values is the renaming of a key on the settings that may use it. -/
structure KeptAs (old new : String) (other : Json → Prop) (keep : Json → Json) : Prop where
  lacking : ∀ v : Json, v.Lacks old → keep v = v
  beside : ∀ v : Json, other v → v.rename old new = keep v

theorem settingsKept_ofFields (kept : KeptAs old new other keep) :
    ∀ {fs : List (String × Json)}, Json.RecordTypedBy old other fs →
    SettingsKept old new keep (ofFields fs : List (String × Definition δ))
  | [], _, _, there => absurd there List.not_mem_nil
  | (name, v) :: fs, ⟨first, others⟩, e, there => by
    rw [ofFields, List.mem_cons] at there
    rcases there with rfl | there
    · intro notOld notCast
      rw [if_neg notOld, if_neg notCast] at first
      rw [← ofJson_rename, toJson_ofJson, toJson_ofJson]
      by_cases isOption : name ∈ Settings.optionKeys
      · rw [if_pos isOption] at first
        rw [Json.rename_of_lacks v first]
        exact ⟨(kept.lacking v first).symm, fun _ => rfl⟩
      · rw [if_neg isOption] at first
        exact ⟨kept.beside v first, fun h => absurd h isOption⟩
    · exact settingsKept_ofFields kept others e there

mutual

/-- A value that is typed by a key may be spelled with a key that it does not use. -/
theorem spelled_ofJson (kept : KeptAs old new other keep) :
    ∀ v : Json, v.TypedBy old other → v.Lacks new → Spelled old new keep (ofJson v : Definition δ)
  | .null, _, _ => .literal _
  | .bool _, _, _ => .literal _
  | .num _, _, _ => .literal _
  | .str _, _, _ => .literal _
  | .arr items, typed, unused => .array (spelled_ofItems kept items typed unused)
  | .obj fields, typed, unused => by
    rw [Json.TypedBy] at typed
    split at typed
    · next present =>
      obtain ⟨x, stated⟩ := statedType?_ofFields present typed
      exact .record stated (fun e there isNew => absurd isNew (unused_ofFields unused e there))
        (spelled_ofRecord kept fields typed unused) (settingsKept_ofFields kept typed)
    · next absent =>
      refine .group (fun e there => ⟨?_, unused_ofFields unused e there⟩)
        (spelled_ofFields kept fields typed unused)
      rintro rfl
      have present : e.1 ∈ Table.keys (ofFields fields : List (String × Definition δ)) :=
        List.mem_map_of_mem there
      rw [keys_ofFields, ← Table.contains_iff_mem_keys] at present
      exact absent present

theorem spelled_ofItems (kept : KeptAs old new other keep) :
    ∀ vs : List Json, Json.ItemsTypedBy old other vs → Json.ItemsLack new vs →
    ∀ d ∈ (ofItems vs : List (Definition δ)), Spelled old new keep d
  | [], _, _, _, there => absurd there List.not_mem_nil
  | v :: vs, ⟨first, others⟩, ⟨unused, unused'⟩, d, there => by
    rw [ofItems, List.mem_cons] at there
    rcases there with rfl | there
    · exact spelled_ofJson kept v first unused
    · exact spelled_ofItems kept vs others unused' d there

theorem spelled_ofFields (kept : KeptAs old new other keep) :
    ∀ fs : List (String × Json), Json.FieldsTypedBy old other fs → Json.FieldsLack new fs →
    ∀ e ∈ (ofFields fs : List (String × Definition δ)), Spelled old new keep e.2
  | [], _, _, _, there => absurd there List.not_mem_nil
  | (name, v) :: fs, ⟨first, others⟩, ⟨_, unused, unused'⟩, e, there => by
    rw [ofFields, List.mem_cons] at there
    rcases there with rfl | there
    · exact spelled_ofJson kept v first unused
    · exact spelled_ofFields kept fs others unused' e there

theorem spelled_ofRecord (kept : KeptAs old new other keep) :
    ∀ fs : List (String × Json), Json.RecordTypedBy old other fs → Json.FieldsLack new fs →
    ∀ e ∈ (ofFields fs : List (String × Definition δ)),
      e.1 = old ∨ e.1 = "cast" → Spelled old new keep e.2
  | [], _, _, _, there => absurd there List.not_mem_nil
  | (name, v) :: fs, ⟨first, others⟩, ⟨_, unused, unused'⟩, e, there => by
    rw [ofFields, List.mem_cons] at there
    rcases there with rfl | there
    · intro isTyped
      refine spelled_ofJson kept v ?_ unused
      by_cases isOld : name = old
      · rw [if_pos isOld] at first
        exact first.2.2
      · have isCast : name = "cast" := isTyped.resolve_left isOld
        rwa [if_neg isOld, if_pos isCast] at first
    · exact spelled_ofRecord kept fs others unused' e there

end

end

end Definition

end DocSchema
