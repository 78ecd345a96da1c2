import DocSchema.Document.Memory
import DocSchema.Proofs.Schema.Agreement
import DocSchema.Proofs.Schema.Fingerprints
import DocSchema.Registry.Basic

/-!
# Overwriting models

A registry that is asked for a model has it, or it makes it and binds the name, or it refuses and
stays as it is (`model_cases`). So a name that a registry has bound stays bound to the same model,
whatever is asked of the registry (`get?_models_later`). Given another schema under this name, the
registry answers with the model it has exactly if the two schemas have one fingerprint
(`takenFor_iff`).

Schemas with one fingerprint are shown alike. If they were compiled from definitions without
compiled schemas and without dots in their keys, they agree, so that no such definition is lost
without an error (`no_silent_overwrite`). Other definitions are shown as what they are not: a
compiled schema as a group of fields, a key with dots as the record of a field (`Mistaken`).
-/

namespace DocSchema

open Definition Schema

variable {δ : Type}

namespace Registry

variable {r r' : Registry δ} {name : String} {schema : Option (Schema δ)} {wanted : Option String}
  {m m' : Model δ} {s s' : Schema δ}

/-! ### One request for a model -/

/-- What becomes of a registry that is asked for a model: nothing, or the model is new and is bound
to its name. -/
inductive ModelCase (r : Registry δ) (name : String) (schema : Option (Schema δ))
    (wanted : Option String) : Prop where
  | known {m : Model δ} (there : Table.get? r.models name = some m)
      (run : r.model name schema wanted = (r, fetch m schema wanted))
  | refused {e : RegistryError} (free : Table.get? r.models name = none)
      (run : r.model name schema wanted = (r, .error e))
  | new {s : Schema δ} {m : Model δ} (free : Table.get? r.models name = none)
      (given : schema = some s) (built : r.build name s wanted = .ok m)
      (run : r.model name schema wanted =
        ({ r with models := Table.insert r.models name m }, .ok m))

theorem model_cases (r : Registry δ) (name : String) (schema : Option (Schema δ))
    (wanted : Option String) : ModelCase r name schema wanted := by
  cases there : Table.get? r.models name with
  | some m => exact .known there (by simp only [model, there])
  | none =>
    cases schema with
    | none =>
      have run : r.model name none wanted = (r, .error (.missingSchema name)) := by
        simp only [model, there]
      exact .refused there run
    | some s =>
      cases built : r.build name s wanted with
      | error e =>
        have run : r.model name (some s) wanted = (r, .error e) := by
          simp only [model, there, built]
        exact .refused there run
      | ok m => exact .new there rfl built (by simp only [model, there, built])

/-- A request that is refused changes nothing. -/
theorem model_of_error {e : RegistryError} (refused : (r.model name schema wanted).2 = .error e) :
    (r.model name schema wanted).1 = r := by
  cases model_cases r name schema wanted with
  | known there run => rw [run]
  | refused free run => rw [run]
  | new free given built run =>
    rw [run] at refused
    cases refused

/-- A model that is new has the schema that the plugins made of the given one, and the fingerprint
of the given one. -/
theorem build_ok (built : r.build name s wanted = .ok m) :
    m.name = name ∧ m.fingerprint = s.fingerprint ∧ r.prepare s = .ok m.schema ∧
      m.collection = collectionFor name m.schema wanted := by
  unfold build at built
  split at built
  · cases built
  · next prepared run =>
    cases built
    exact ⟨rfl, rfl, run, rfl⟩

/-! ### Models that are there -/

inductive Step : Registry δ → Registry δ → Prop
  | set (r : Registry δ) (key : String) (v : Json) : Step r (r.set key v)
  | plugin (r : Registry δ) (p : Plugin δ) (options : Json) : Step r (r.plugin p options)
  | model (r : Registry δ) (name : String) (schema : Option (Schema δ)) (wanted : Option String) :
      Step r (r.model name schema wanted).1

/-- Whether a registry is what another one becomes. -/
abbrev Later : Registry δ → Registry δ → Prop := Relation.ReflTransGen Step

/-- Asking for a model leaves the models alone that are there. -/
theorem get?_models_model (known : Table.get? r.models name = some m) (other : String)
    (schema : Option (Schema δ)) (wanted : Option String) :
    Table.get? (r.model other schema wanted).1.models name = some m := by
  cases model_cases r other schema wanted with
  | known _ run => rwa [run]
  | refused _ run => rwa [run]
  | new free _ _ run =>
    have apart : name ≠ other := by
      rintro rfl
      cases known.symm.trans free
    rw [run]
    exact (Table.get?_insert_of_ne _ _ apart).trans known

theorem get?_models_step (known : Table.get? r.models name = some m) (step : Step r r') :
    Table.get? r'.models name = some m := by
  cases step with
  | set key v => exact known
  | plugin p options => exact known
  | model other schema wanted => exact get?_models_model known other schema wanted

/-- A name stays bound to the same model. -/
theorem get?_models_later (known : Table.get? r.models name = some m) (later : Later r r') :
    Table.get? r'.models name = some m := by
  induction later with
  | refl => exact known
  | tail _ last ih => exact get?_models_step ih last

/-- A new model is bound to its name, and its fingerprint is that of the schema it was given. -/
theorem model_of_free (free : Table.get? r.models name = none)
    (run : r.model name (some s) wanted = (r', .ok m)) :
    Table.get? r'.models name = some m ∧ m.fingerprint = s.fingerprint := by
  cases model_cases r name (some s) wanted with
  | known there _ => cases free.symm.trans there
  | refused _ refused => cases refused.symm.trans run
  | new _ given built answer =>
    cases given
    cases answer.symm.trans run
    exact ⟨Table.get?_insert_self _ _ _, (build_ok built).2.1⟩

/-- A model that is there is the answer to the schemas with its fingerprint. -/
theorem model_of_known (known : Table.get? r.models name = some m) (s : Schema δ)
    (wanted : Option String) :
    (∃ m', (r.model name (some s) wanted).2 = .ok m') ↔ s.fingerprint = m.fingerprint := by
  rw [model, known]
  by_cases same : s.fingerprint = m.fingerprint <;> simp [fetch, same]

/-- A registry with a plugin that puts the options of a schema aside. -/
def lenient : Registry δ :=
  new.plugin { run := fun _ s => ({ s with options := {} }, .ok ()) } .null

/-- With that plugin there is a model for every schema, whatever its options are. -/
theorem build_lenient (name : String) (s : Schema δ) :
    ∃ m, (lenient : Registry δ).build name s none = .ok m := by
  have plugged : (lenient : Registry δ).prepare s = lenient.settlePlural { s with options := {} } :=
    rfl
  have set : ({ s with options := {} } : Schema δ).setOption pluralization (.bool true) =
      ({ s with options := { pluralization := some true } }, .ok ()) := rfl
  have unset : ({} : Options).get pluralization = none := rfl
  have prepared : (lenient : Registry δ).prepare s =
      .ok { s with options := { pluralization := some true } } := by
    rw [plugged, settlePlural, unset]
    dsimp only
    rw [show (lenient : Registry δ).wantsPlural = true from rfl, set]
  rw [build, prepared]
  exact ⟨_, rfl⟩

/-! ### Schemas that are taken for others -/

/-- Whether a registry that was given a schema under some name may answer with its model when it is
given another one under this name. -/
inductive TakenFor (s s' : Schema δ) : Prop
  | intro {r r₁ r₂ : Registry δ} {name : String} {wanted wanted' : Option String} {m m' : Model δ}
      (free : Table.get? r.models name = none)
      (first : r.model name (some s) wanted = (r₁, .ok m)) (later : Later r₁ r₂)
      (second : (r₂.model name (some s') wanted').2 = .ok m') : TakenFor s s'

theorem takenFor_iff : TakenFor s s' ↔ s.fingerprint = s'.fingerprint := by
  constructor
  · rintro ⟨free, first, later, second⟩
    obtain ⟨known, own⟩ := model_of_free free first
    exact own.symm.trans ((model_of_known (get?_models_later known later) _ _).1 ⟨_, second⟩).symm
  · intro same
    -- the lenient registry does
    obtain ⟨m, built⟩ := build_lenient "Model" s
    have free : Table.get? (lenient : Registry δ).models "Model" = none := rfl
    have first : (lenient : Registry δ).model "Model" (some s) none =
        ({ lenient with models := Table.insert lenient.models "Model" m }, .ok m) := by
      rw [model, free, built]
    obtain ⟨known, own⟩ := model_of_free free first
    obtain ⟨m', second⟩ := (model_of_known known s' none).2 (same.symm.trans own.symm)
    exact ⟨free, first, .refl, second⟩

theorem takenFor_of_bytes (same : s.fingerprintBytes = s'.fingerprintBytes) : TakenFor s s' := by
  rw [takenFor_iff, fingerprint, fingerprint, same]

/-- No definition is taken for one that is shown in another way, unless the hash collides. Without
compiled schemas and without dots in keys, none is taken for one that it does not agree with. -/
theorem no_silent_overwrite [Document δ] {o : Options} {d d' : Definition δ}
    (compiled : compile o d = .ok s) (compiled' : compile o d' = .ok s')
    (no_collision : Sha256.hash s.fingerprintBytes = Sha256.hash s'.fingerprintBytes →
      s.fingerprintBytes = s'.fingerprintBytes)
    (taken : s.fingerprint = s'.fingerprint ∨ TakenFor s s') :
    Json.Reordered s.treeJson s'.treeJson ∧ (Simple d → Simple d' → s.Agrees s') := by
  have same : s.fingerprint = s'.fingerprint := taken.elim id takenFor_iff.1
  obtain ⟨shown, -⟩ := fingerprintBytes_inj.1 (no_collision (Fingerprint.mk.inj same))
  exact ⟨Json.reordered_of_sorted shown,
    fun simple simple' => agrees_of_treeJson simple simple' compiled compiled' shown⟩

theorem no_silent_overwrite_person : ∃ s s' : Schema MemoryDocument,
    compile bareOptions (ofJson (.obj personFields)) = .ok s ∧
      compile bareOptions (ofJson (.obj agedPersonFields)) = .ok s' ∧
        TakenFor s s' ∧ Json.Reordered s.treeJson s'.treeJson ∧ s.Agrees s' := by
  obtain ⟨s, compiled, -⟩ := exists_ok_of_any (p := fun _ => true)
    (x := compile (δ := MemoryDocument) bareOptions (ofJson (.obj personFields)))
    (by decide +kernel)
  obtain ⟨s', compiled', bytes⟩ := fingerprintBytes_of_form tidy_personFields
    tidy_agedPersonFields (reordered_person.sorted_eq tidy_personFields) compiled
  have taken := takenFor_of_bytes bytes
  obtain ⟨shown, agrees⟩ := no_silent_overwrite compiled compiled' (fun _ => bytes) (.inr taken)
  exact ⟨s, s', compiled, compiled', taken, shown,
    agrees (simple_ofJson tidy_personFields) (simple_ofJson tidy_agedPersonFields)⟩

/-! ### Definitions that are mistaken for others -/

/-- Whether the schemas of two definitions are hashed from the same bytes, so that the one is taken
for the other, and yet are apart. -/
def Mistaken (d d' : Definition MemoryDocument) (apart : Schema MemoryDocument →
    Schema MemoryDocument → Bool) : Prop :=
  ∃ s s', compile bareOptions d = .ok s ∧ compile bareOptions d' = .ok s' ∧
    s.fingerprintBytes = s'.fingerprintBytes ∧ TakenFor s s' ∧ apart s s' = true

theorem mistaken_of_text {d d' : Definition MemoryDocument}
    {apart : Schema MemoryDocument → Schema MemoryDocument → Bool}
    (h : ((compile bareOptions d).toOption.any fun s =>
      (compile bareOptions d').toOption.any fun s' =>
        decide (s.fingerprintText = s'.fingerprintText) && apart s s') = true) :
    Mistaken d d' apart := by
  obtain ⟨s, compiled, h⟩ := exists_ok_of_any h
  obtain ⟨s', compiled', h⟩ := exists_ok_of_any h
  obtain ⟨text, apart⟩ := Bool.and_eq_true_iff.1 h
  have bytes : s.fingerprintBytes = s'.fingerprintBytes := by
    rw [fingerprintBytes, fingerprintBytes, of_decide_eq_true text]
  exact ⟨s, s', compiled, compiled', bytes, takenFor_of_bytes bytes, apart⟩

/-- Objects that differ by the order of keys are mistaken for one another. -/
theorem mistaken_of_reordered {fs fs' : List (String × Json)} (tidy : (Json.obj fs).Tidy)
    (tidy' : (Json.obj fs').Tidy) (reordered : Json.Reordered (.obj fs) (.obj fs'))
    {apart : Schema MemoryDocument → Schema MemoryDocument → Bool}
    (h : ((compile bareOptions (ofJson (.obj fs))).toOption.any fun s =>
      (compile bareOptions (ofJson (.obj fs'))).toOption.any (apart s)) = true) :
    Mistaken (ofJson (.obj fs)) (ofJson (.obj fs')) apart := by
  obtain ⟨s, compiled, h⟩ := exists_ok_of_any h
  obtain ⟨s', compiled', apart⟩ := exists_ok_of_any h
  obtain ⟨s'', compiled'', bytes⟩ :=
    fingerprintBytes_of_form tidy tidy' (reordered.sorted_eq tidy) compiled
  cases compiled'.symm.trans compiled''
  exact ⟨s, s', compiled, compiled', bytes, takenFor_of_bytes bytes, apart⟩

def textField : Definition MemoryDocument := .literal (.str "String")

def addressFields : List (String × Definition MemoryDocument) := [("city", textField)]

/-- Whether one of two schemas has a field for an address and the other one has none. -/
def addressApart (s s' : Schema MemoryDocument) : Bool :=
  Table.contains s.fields "address" != Table.contains s'.fields "address"

def indexedField : Json := .obj [("type", .str "String"), ("index", .bool true)]

/-- Whether the indexes of two schemas differ, or their order does. -/
def indexesApart (s s' : Schema MemoryDocument) : Bool :=
  s.indexes.map IndexEntry.fields != s'.indexes.map IndexEntry.fields

/-- A compiled schema is mistaken for a group of fields, and a key with dots for the record of a
field. The order of indexes is not told. -/
theorem mistaken_definitions :
    (∃ c, compile bareOptions (.object addressFields) = .ok c ∧
      Mistaken (.object [("address", .schema c)]) (.object [("address", .object addressFields)])
        addressApart) ∧
    Mistaken (.object [("address.type", textField)])
      (.object [("address", .object [("type", textField)])]) addressApart ∧
    Mistaken (ofJson (.obj [("name", indexedField), ("town", indexedField)]))
      (ofJson (.obj [("town", indexedField), ("name", indexedField)])) indexesApart := by
  refine ⟨?_, mistaken_of_text (by decide +kernel), ?_⟩
  · have embedded : ((compile bareOptions (.object addressFields)).toOption.any fun c =>
        (compile bareOptions (.object [("address", .schema c)])).toOption.any fun s =>
        (compile bareOptions
          (.object [("address", .object addressFields)])).toOption.any fun s' =>
          decide (s.fingerprintText = s'.fingerprintText) && addressApart s s') = true := by
      decide +kernel
    obtain ⟨c, compiled, h⟩ := exists_ok_of_any embedded
    exact ⟨c, compiled, mistaken_of_text h⟩
  · have swapped : Json.Reordered (.obj [("name", indexedField), ("town", indexedField)])
        (.obj [("town", indexedField), ("name", indexedField)]) :=
      .obj (.cons (.refl _) (.cons (.refl _) .nil)) (.swap _ _ _)
    exact mistaken_of_reordered
      (by simp [indexedField, Json.Tidy, Json.TidyFields, Table.keys])
      (by simp [indexedField, Json.Tidy, Json.TidyFields, Table.keys]) swapped (by decide +kernel)

end Registry

end DocSchema
