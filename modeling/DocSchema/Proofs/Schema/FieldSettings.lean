import DocSchema.Document.Memory
import DocSchema.Proofs.Outcomes
import DocSchema.Proofs.Schema.Reachable
import DocSchema.Proofs.Schema.TypeNames

/-!
# Settings that are written beside a type

The keys of a record are taken one after the other, and every part of the settings is written by one
key only. So what a record says under a key is what the settings have in the end (`part_takeAll`),
and nothing that is written beside the type of a field is lost, whatever the type is
(`nothingLost_typeAt`).

The record that counts is the inner one where a record is wrapped in another. What the outer record
says beside it is not looked at (`typeAt_of_wrapped`), so it is lost (`lost_required`).
-/

namespace DocSchema

variable {δ : Type}

/-! ### What is written -/

/-- What a definition says of a requirement: that there is one, its message, or both in an array. -/
inductive Required.Stated : Definition δ → Required → Prop where
  | yes : Stated (.literal (.bool true)) {}
  | message (m : String) : Stated (.literal (.str m)) { message := some m }
  | array {rest : List (Definition δ)} (no_message : ∀ m, rest.head? ≠ some (.literal (.str m))) :
      Stated (.array (.literal (.bool true) :: rest)) {}
  | arrayMessage (m : String) (rest : List (Definition δ)) :
      Stated (.array (.literal (.bool true) :: .literal (.str m) :: rest)) { message := some m }

theorem Required.Stated.ofDefinition?_eq {d : Definition δ} {r : Required} (h : Stated d r) :
    ofDefinition? d = some r := by
  cases h with
  | yes => rfl
  | message m => rfl
  | arrayMessage m rest => rfl
  | @array rest no_message =>
    unfold ofDefinition?
    split
    · cases ‹_ = _›
    · cases ‹_ = _›
    · next m _ same =>
      obtain ⟨-, rfl⟩ := List.cons.inj (Definition.array.inj same)
      exact absurd rfl (no_message m)
    · rfl
    · next other => exact absurd rfl (other rest)

/-- That a record has a definition under a key, beside the type. -/
structure Beside (typeKey : String) (record : Table (Definition δ)) (key : String)
    (d : Definition δ) : Prop where
  beside : key ≠ typeKey
  there : Table.get? record key = some d

/-- Whether some settings have everything that a record says beside the type. -/
structure NothingLost (typeKey : String) (record : Table (Definition δ)) (s : Settings) : Prop where
  required : ∀ {d r}, Beside typeKey record "required" d → Required.Stated d r →
    s.required = some r
  defaultValue : ∀ {d}, Beside typeKey record "default" d → s.defaultValue = some d.toJson
  reference : ∀ {target}, Beside typeKey record "ref" (.literal (.str target)) →
    s.reference = some target
  select : ∀ {b}, Beside typeKey record "select" (.literal (.bool b)) → s.select = some b
  auto : ∀ {b}, Beside typeKey record "auto" (.literal (.bool b)) → s.auto = b
  extra : ∀ {key d}, Beside typeKey record key d → key ∉ Settings.optionKeys →
    Table.get? s.extra key = some d.toJson

namespace Settings

variable {typeKey key : String} {record : Table (Definition δ)} {d : Definition δ} {s : Settings}

/-! ### What a key writes -/

/-- Whether two settings differ in the part that belongs to a key only. -/
structure SameBut (key : String) (s s' : Settings) : Prop where
  required : key ≠ "required" → s'.required = s.required
  defaultValue : key ≠ "default" → s'.defaultValue = s.defaultValue
  reference : key ≠ "ref" → s'.reference = s.reference
  select : key ≠ "select" → s'.select = s.select
  auto : key ≠ "auto" → s'.auto = s.auto
  extra : ∀ other, key ≠ other → Table.get? s'.extra other = Table.get? s.extra other

theorem sameBut_keep (s : Settings) (key : String) (d : Definition δ) :
    SameBut key s (s.keep key d) := by
  refine ⟨fun _ => rfl, fun _ => rfl, fun _ => rfl, fun _ => rfl, fun _ => rfl, ?_⟩
  intro other ne
  exact Table.get?_insert_of_ne s.extra d.toJson ne.symm

theorem sameBut_take (s : Settings) (key : String) (d : Definition δ) :
    SameBut key s (s.take key d) := by
  have kept := sameBut_keep s key d
  unfold take
  repeat' split
  -- a key either has no place of its own, or writes the one place that is not claimed here
  all_goals first
    | exact kept
    | constructor <;> intros <;> first | rfl | contradiction

/-- A key that is no option is kept. -/
theorem take_of_not_option (s : Settings) (d : Definition δ) (other : key ∉ optionKeys) :
    s.take key d = s.keep key d := by
  have ne (option : String) (known : option ∈ optionKeys) : key ≠ option := by
    rintro rfl
    exact other known
  unfold take
  rw [if_neg (ne "required" (by decide)), if_neg (ne "default" (by decide)),
    if_neg (ne "ref" (by decide)), if_neg (ne "select" (by decide)),
    if_neg (ne "auto" (by decide))]

/-! ### One key after the other -/

section

variable {α : Type} {f : Settings → α}

/-- A part that belongs to a key stays as it is where the key is not. -/
theorem part_takeAll_of_not_mem (part : ∀ {k s s'}, SameBut k s s' → k ≠ key → f s' = f s)
    (absent : key ∉ Table.keys record) : f (takeAll typeKey s record) = f s := by
  induction record generalizing s with
  | nil => rfl
  | cons e record ih =>
    obtain ⟨k, x⟩ := e
    obtain ⟨ne, absent⟩ := not_or.1 (mt List.mem_cons.2 absent)
    rw [takeAll, ih absent]
    split
    · rfl
    · exact part (sameBut_take s k x) (Ne.symm ne)

/-- A part that belongs to a key is in the end what stands under the key. -/
theorem part_takeAll (part : ∀ {k s s'}, SameBut k s s' → k ≠ key → f s' = f s)
    (distinct : (Table.keys record).Nodup) (written : Beside typeKey record key d)
    (not_read : key ∉ "cast" :: indexKeys) {a : α} (writes : ∀ s : Settings, f (s.take key d) = a) :
    f (takeAll typeKey s record) = a := by
  obtain ⟨beside, there⟩ := written
  have taken : isStructural typeKey key = false := by simp_all [isStructural]
  induction record generalizing s with
  | nil => cases there
  | cons e record ih =>
    obtain ⟨k, x⟩ := e
    obtain ⟨absent, distinct⟩ := List.nodup_cons.1 distinct
    rw [Table.get?] at there
    rw [takeAll]
    split at there
    · next same =>
      -- the keys are distinct, so nothing after this one writes the part
      obtain rfl := same
      obtain rfl := Option.some.inj there
      rw [part_takeAll_of_not_mem part absent, taken]
      exact writes s
    · exact ih distinct there

end

/-- The settings of a record have everything that it says beside the type. -/
theorem nothingLost_ofRecord (distinct : (Table.keys record).Nodup) (scalar : Option Scalar) :
    NothingLost typeKey record (ofRecord record typeKey scalar) := by
  constructor
  case required =>
    intro d r written stated
    exact part_takeAll SameBut.required distinct written (by decide)
      fun _ => stated.ofDefinition?_eq
  case defaultValue =>
    intro d written
    exact part_takeAll SameBut.defaultValue distinct written (by decide) fun _ => rfl
  case reference =>
    intro target written
    exact part_takeAll SameBut.reference distinct written (by decide) fun _ => rfl
  case select =>
    intro b written
    exact part_takeAll SameBut.select distinct written (by decide) fun _ => rfl
  case auto =>
    intro b written
    exact part_takeAll SameBut.auto distinct written (by decide) fun _ => rfl
  case extra =>
    intro key d written other
    have read : ∀ k ∈ "cast" :: indexKeys, k ∈ optionKeys := by decide
    have not_read : key ∉ "cast" :: indexKeys := fun there => other (read key there)
    have kept (s : Settings) : Table.get? (s.take key d).extra key = some d.toJson := by
      rw [take_of_not_option s d other]
      exact Table.get?_insert_self s.extra key d.toJson
    exact part_takeAll (fun same ne => same.extra key ne) distinct written not_read kept

end Settings

/-! ### Types -/

namespace Definition

variable [Document δ] {o : Options} {path : String} {fields inner : Table (Definition δ)}

/-- Whatever the type of a field is, its settings have everything that its record says beside the
type. -/
theorem nothingLost_typeAt {t : FieldType δ}
    (distinct : (Table.keys (unwrapped o.typeKey fields)).Nodup)
    (resolved : (object fields).typeAt o path = .ok t) :
    NothingLost o.typeKey (unwrapped o.typeKey fields) t.settings := by
  obtain ⟨kind, rfl, -⟩ := typeAt_cases resolved
  exact Settings.nothingLost_ofRecord distinct kind.scalar?

def tagsRecord : Table (Definition MemoryDocument) :=
  [("type", .array [.literal (.str "String")]),
    ("required", .array [.literal (.bool true), .literal (.str "There are no tags.")]),
    ("default", .array []), ("ref", .literal (.str "Tag")), ("select", .literal (.bool false)),
    ("auto", .literal (.bool true)), ("label", .literal (.str "Tags"))]

theorem nothingLost_typeAt_tags : ∃ t : FieldType MemoryDocument,
    (object tagsRecord).typeAt {} "tags" = .ok t ∧ NothingLost "type" tagsRecord t.settings := by
  obtain ⟨t, resolved, -⟩ := exists_ok_of_any (p := fun _ => true)
    (x := (object tagsRecord).typeAt {} "tags") (by decide +kernel)
  exact ⟨t, resolved, nothingLost_typeAt (by decide +kernel) resolved⟩

/-! ### Records that are wrapped -/

/-- A record that is wrapped makes the same field whatever is written around it. -/
theorem typeAt_of_wrapped {fields' : Table (Definition δ)}
    (some_type : isGroup inner o.typeKey = false)
    (wrapped : statedType? fields o.typeKey = some (.object inner))
    (wrapped' : statedType? fields' o.typeKey = some (.object inner)) :
    (object fields).typeAt o path = (object fields').typeAt o path := by
  have same : (object fields).record o.typeKey = (object fields').record o.typeKey := by
    rw [record, record, unwrapped, unwrapped, wrapped, wrapped']
    simp only [some_type]
    rfl
  apply typeAt_congr
  · rw [same]
  · intro scalar
    rw [same]

/-- The requirement that is written around a record of a name. -/
def wrappedRecord : Table (Definition MemoryDocument) :=
  [("type", .object [("type", .literal (.str "String"))]), ("required", .literal (.bool true))]

/-- A requirement that is written around a record is lost, and so is one that is an array of JSON
and not an array of definitions. -/
theorem lost_required :
    (∃ t : FieldType MemoryDocument, (object wrappedRecord).typeAt {} "name" = .ok t ∧
      ¬ NothingLost "type" wrappedRecord t.settings) ∧
    ∃ t : FieldType MemoryDocument,
      (object [("type", .literal (.str "String")),
        ("required", .literal (.arr [.bool true, .str "There is no name."]))]).typeAt {} "name" =
          .ok t ∧ t.settings.required = none := by
  have lost (x : Except SchemaError (FieldType MemoryDocument))
      (h : (x.toOption.any fun t => t.settings.required.isNone) = true) :
      ∃ t, x = .ok t ∧ t.settings.required = none := by
    obtain ⟨t, resolved, none⟩ := exists_ok_of_any h
    exact ⟨t, resolved, Option.isNone_iff_eq_none.1 none⟩
  refine ⟨?_, lost _ (by decide +kernel)⟩
  obtain ⟨t, resolved, none⟩ := lost ((object wrappedRecord).typeAt {} "name") (by decide +kernel)
  refine ⟨t, resolved, ?_⟩
  intro kept
  have there := kept.required ⟨by decide, rfl⟩ .yes
  rw [none] at there
  cases there

end Definition

end DocSchema
