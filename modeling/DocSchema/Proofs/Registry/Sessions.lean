import Mathlib.Data.List.Induction
import DocSchema.Proofs.Registry.Overwriting

/-!
# Sessions with a registry

A registry that starts without models is asked for things one after the other. The first request
that is granted under a name binds the name, with the schema as the plugins left it and with the
fingerprint of the schema as it was given. From then on every answer for this name follows from the
model that was given first (`BoundTo`), whatever else is asked for in between: other plugins, other
options, other names, or the same name with another schema or collection.

A request that is refused changes nothing (`model_of_error`), so the names of a registry are those
that were granted, in the order in which this first happened (`names_runAll`).
-/

namespace DocSchema

open Schema

variable {δ : Type}

inductive Request (δ : Type) where
  | set (key : String) (v : Json)
  | plugin (p : Plugin δ) (options : Json)
  | model (name : String) (schema : Option (Schema δ)) (wanted : Option String)

namespace Request

def run (r : Registry δ) : Request δ → Registry δ
  | .set key v => r.set key v
  | .plugin p options => r.plugin p options
  | .model name schema wanted => (r.model name schema wanted).1

/-- The name under which a request gets a model, if it gets one. -/
def granted (r : Registry δ) : Request δ → List String
  | .model name schema wanted => if (r.model name schema wanted).2.isOk then [name] else []
  | _ => []

end Request

/-- A text that is added at the end stays there only if it is new. -/
theorem eraseDups_snoc (names : List String) (name : String) :
    (names ++ [name]).eraseDups = addName names.eraseDups name := by
  rw [List.eraseDups_append, addName]
  by_cases there : name ∈ names
  · have kept : name ∈ names.eraseDups := List.mem_eraseDups.2 there
    simp [there, kept, List.removeAll]
  · have new : name ∉ names.eraseDups := fun h => there (List.mem_eraseDups.1 h)
    simp [there, new, List.removeAll, List.eraseDups_cons]

namespace Registry

/-- Make requests in order, whether they are granted or not. -/
def runAll (r : Registry δ) (requests : List (Request δ)) : Registry δ :=
  requests.foldl Request.run r

/-- The names under which requests that are made in order get models. -/
def granted (r : Registry δ) : List (Request δ) → List String
  | [] => []
  | q :: qs => q.granted r ++ granted (q.run r) qs

variable {r : Registry δ} {name : String} {schema : Option (Schema δ)} {wanted : Option String}
  {s : Schema δ} {m : Model δ}

theorem runAll_append (r : Registry δ) (qs later : List (Request δ)) :
    r.runAll (qs ++ later) = (r.runAll qs).runAll later := List.foldl_append

theorem granted_append (r : Registry δ) (qs later : List (Request δ)) :
    r.granted (qs ++ later) = r.granted qs ++ (r.runAll qs).granted later := by
  induction qs generalizing r with
  | nil => rfl
  | cons q qs ih =>
    show q.granted r ++ (q.run r).granted (qs ++ later) = _
    rw [ih, ← List.append_assoc]
    rfl

/-! ### The names of a registry -/

/-- A name under which a model was got is there from then on, behind those that were there. -/
theorem names_model_of_ok (got : (r.model name schema wanted).2 = .ok m) :
    (r.model name schema wanted).1.names = addName r.names name := by
  cases model_cases r name schema wanted with
  | known there run =>
    have old : name ∈ r.names :=
      (Table.contains_iff_mem_keys _ _).1 ((Table.contains_iff_get? _ _).2 ⟨_, there⟩)
    rw [run, addName, if_pos (List.contains_iff_mem.2 old)]
  | refused free run =>
    rw [run] at got
    cases got
  | new free given built run =>
    have free := (Table.get?_eq_none_iff _ _).1 free
    have new : name ∉ r.names := by
      intro there
      rw [(Table.contains_iff_mem_keys _ _).2 there] at free
      cases free
    rw [run, addName, if_neg (by simpa using new)]
    exact Table.keys_insert_of_not_contains _ _ free

/-- A request that gets a model adds its name, and no other request changes the names. -/
theorem names_run (r : Registry δ) (q : Request δ) :
    (q.granted r = [] ∧ (q.run r).names = r.names) ∨
      ∃ name, q.granted r = [name] ∧ (q.run r).names = addName r.names name := by
  cases q with
  | set key v => exact .inl ⟨rfl, rfl⟩
  | plugin p options => exact .inl ⟨rfl, rfl⟩
  | model name schema wanted =>
    cases got : (r.model name schema wanted).2 with
    | error e =>
      refine .inl ⟨?_, ?_⟩
      · rw [Request.granted, got]
        rfl
      · rw [Request.run, model_of_error got]
    | ok m =>
      refine .inr ⟨name, ?_, names_model_of_ok got⟩
      rw [Request.granted, got]
      rfl

/-- The names of a registry that started without models are those that were granted, each where it
first was. -/
theorem names_runAll (start : r.models = []) (requests : List (Request δ)) :
    (r.runAll requests).names = (r.granted requests).eraseDups := by
  induction requests using List.reverseRecOn with
  | nil =>
    show Table.keys r.models = _
    rw [start]
    rfl
  | append_singleton qs q ih =>
    rw [runAll_append, granted_append]
    show (q.run (r.runAll qs)).names = (r.granted qs ++ (q.granted (r.runAll qs) ++ [])).eraseDups
    rw [List.append_nil]
    obtain ⟨none, same⟩ | ⟨name, one, added⟩ := names_run (r.runAll qs) q
    · rw [none, List.append_nil, same, ih]
    · rw [one, added, ih, eraseDups_snoc]

/-- A name that was not granted is free. -/
theorem free_of_not_granted (start : r.models = []) {requests : List (Request δ)}
    (new : name ∉ r.granted requests) : Table.get? (r.runAll requests).models name = none := by
  apply Table.get?_eq_none_of_not_mem
  show name ∉ (r.runAll requests).names
  rw [names_runAll start]
  exact fun there => new (List.mem_eraseDups.1 there)

/-! ### A name that is bound -/

theorem later_runAll (r : Registry δ) (requests : List (Request δ)) :
    Later r (r.runAll requests) := by
  induction requests generalizing r with
  | nil => exact .refl
  | cons q qs ih =>
    have first : Step r (q.run r) := by
      cases q with
      | set key v => exact .set r key v
      | plugin p options => exact .plugin r p options
      | model name schema wanted => exact .model r name schema wanted
    exact .head first (ih (q.run r))

/-- Whether a registry answers for a name with a model that was made of a schema, for whoever knows
the schema or has none in mind, and refuses other schemas. -/
structure BoundTo (r : Registry δ) (name : String) (s : Schema δ) (m : Model δ) : Prop where
  unasked : ∀ wanted, r.model name none wanted =
    (r, .ok { m with collection := wanted.getD m.collection })
  same : ∀ (s' : Schema δ) wanted, s'.fingerprint = s.fingerprint →
    r.model name (some s') wanted = (r, .ok { m with collection := wanted.getD m.collection })
  other : ∀ (s' : Schema δ) wanted, s'.fingerprint ≠ s.fingerprint →
    r.model name (some s') wanted = (r, .error (.overwriteModel name))

theorem boundTo_of_known (known : Table.get? r.models name = some m) (named : m.name = name)
    (own : m.fingerprint = s.fingerprint) : BoundTo r name s m where
  unasked wanted := by
    rw [model, known]
    rfl
  same s' wanted equal := by
    rw [model, known]
    show (r, fetch m (some s') wanted) = _
    rw [fetch, own]
    simp [equal]
  other s' wanted differ := by
    rw [model, known]
    show (r, fetch m (some s') wanted) = _
    rw [fetch, own, named]
    simp [differ]

/-- The first model that is granted for a name binds the name, whatever is asked for later. -/
theorem boundTo_of_first (free : Table.get? r.models name = none)
    (got : (r.model name schema wanted).2 = .ok m) (later : List (Request δ)) :
    ∃ s, schema = some s ∧ m.fingerprint = s.fingerprint ∧ r.prepare s = .ok m.schema ∧
      BoundTo ((r.model name schema wanted).1.runAll later) name s m := by
  cases model_cases r name schema wanted with
  | known there run =>
    rw [free] at there
    cases there
  | refused free run =>
    rw [run] at got
    cases got
  | new free given built run =>
    rw [run] at got ⊢
    cases got
    obtain ⟨named, own, prepared, -⟩ := build_ok built
    have bound : Table.get? (Table.insert r.models name m) name = some m :=
      Table.get?_insert_self _ _ _
    exact ⟨_, given, own, prepared,
      boundTo_of_known (get?_models_later bound (later_runAll _ later)) named own⟩

/-! ### Whole sessions -/

structure Session (r : Registry δ) (requests : List (Request δ)) : Prop where
  names : (r.runAll requests).names = (r.granted requests).eraseDups
  refused : ∀ pre later name schema wanted e, requests = pre ++ .model name schema wanted :: later →
    ((r.runAll pre).model name schema wanted).2 = .error e →
      ((r.runAll pre).model name schema wanted).1 = r.runAll pre
  /-- The first model of a name has the schema that the plugins of the time made of the given one,
  and it is the answer to all later requests. -/
  first : ∀ pre later name schema wanted m,
    requests = pre ++ .model name schema wanted :: later → name ∉ r.granted pre →
      ((r.runAll pre).model name schema wanted).2 = .ok m →
        ∃ s, schema = some s ∧ m.fingerprint = s.fingerprint ∧
          (r.runAll pre).prepare s = .ok m.schema ∧ BoundTo (r.runAll requests) name s m

/-- Whatever is asked of a registry that starts without models, its names are those that were
granted, refused requests change nothing, and a name stays bound to its first model. -/
theorem session (start : r.models = []) (requests : List (Request δ)) : Session r requests where
  names := names_runAll start requests
  refused pre later name schema wanted e _ refused := model_of_error refused
  first pre later name schema wanted m split new got := by
    subst split
    rw [runAll_append]
    exact boundTo_of_first (free_of_not_granted start new) got later

/-- A session in which a person is registered, and then a visit once a plugin rejects all
schemas. -/
def personSession (s : Schema MemoryDocument) : List (Request MemoryDocument) :=
  [.model "Person" none none, .set pluralization (.bool false), .model "Person" (some s) none,
    .plugin (.ofCalls fun _ => [.fail (.invalidPath "person" false)]) .null,
    .model "Visit" (some s) none, .model "Person" none (some "guests")]

theorem session_person : ∃ s : Schema MemoryDocument,
    compile bareOptions (Definition.ofJson (.obj personFields)) = .ok s ∧
      (new.runAll (personSession s)).names = ["Person"] ∧ Session new (personSession s) := by
  have h : ((compile bareOptions (Definition.ofJson (.obj personFields) :
      Definition MemoryDocument)).toOption.any fun s =>
        decide ((new.runAll (personSession s)).names = ["Person"])) = true := by
    decide +kernel
  obtain ⟨s, compiled, names⟩ := exists_ok_of_any h
  exact ⟨s, compiled, of_decide_eq_true names, session rfl (personSession s)⟩

end Registry

end DocSchema
