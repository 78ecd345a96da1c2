import DocSchema.Proofs.Schema.Reachable

/-!
# The history of a run

A plugin makes calls of its own, and a call whose failure is not passed on makes the one it wraps.
`history` lists the calls that are left once all of these are opened up, in the order in which they
are made, each with the schema that it is made on. What a whole run brings about is then said of its
history, and shown by looking at one plain call at a time (`run_induct`).

A call that declares fields does so entry by entry. `turns` lists the entries whose turn comes, each
with the schema that it meets. Only the last one can fail, since a failure ends the call.
-/

namespace DocSchema

variable {δ : Type}

/-! ### Entries -/

namespace Schema

/-- An entry whose turn comes, with the schema that it meets. -/
abbrev Turn (δ : Type) := Schema δ × TypedEntry δ

/-- Whether the entry is refused. -/
def Turn.Fails (t : Turn δ) : Prop := (t.1.register t.2).2 ≠ .ok ()

/-- The entries whose turn comes where entries are declared in order. -/
def turns (s : Schema δ) : List (TypedEntry δ) → List (Turn δ)
  | [] => []
  | e :: es =>
    (s, e) ::
      match s.register e with
      | (s, .ok _) => s.turns es
      | (_, .error _) => []

variable {s s' : Schema δ} {e : TypedEntry δ} {es : List (TypedEntry δ)}

theorem turns_of_ok (run : s.register e = (s', .ok ())) :
    s.turns (e :: es) = (s, e) :: s'.turns es := by
  rw [turns, run]

theorem turns_of_error {err : SchemaError} (run : s.register e = (s', .error err)) :
    s.turns (e :: es) = [(s, e)] := by
  rw [turns, run]

theorem registerAll_of_ok (run : s.register e = (s', .ok ())) :
    s.registerAll (e :: es) = s'.registerAll es := by
  rw [registerAll, run]

theorem registerAll_of_error {err : SchemaError} (run : s.register e = (s', .error err)) :
    s.registerAll (e :: es) = (s', .error err) := by
  rw [registerAll, run]

/-- Declaring entries fails exactly if one of them is refused when its turn comes. -/
theorem registerAll_ok_iff : (s.registerAll es).2 = .ok () ↔ ∀ t ∈ s.turns es, ¬ t.Fails := by
  induction es generalizing s with
  | nil => simp [registerAll, turns]
  | cons e es ih =>
    rcases run : s.register e with ⟨s', err | u⟩
    · rw [registerAll_of_error run, turns_of_error run]
      simp [Turn.Fails, run]
    · rw [registerAll_of_ok run, turns_of_ok run]
      simp [Turn.Fails, run, ih]

variable [Document δ]

def typedEntries (s : Schema δ) (front : String) (fields : List (String × Definition δ)) :
    List (TypedEntry δ) :=
  (Definition.entries s.options.typeKey front fields).map
    (Entry.withType fun p x => x.typeAt s.options p)

end Schema

/-! ### Calls -/

namespace Call

open Schema

/-- Whether a call makes no other calls. -/
def IsPlain : Call δ → Prop
  | .plugin _ => False
  | .attempt _ => False
  | _ => True

variable [Document δ]

/-- What a plain call does to the names of a schema. -/
inductive NameCall (s : Schema δ) : Call δ → Prop where
  | add (d : Definition δ) (front : String) : NameCall s (.add d front)
  | declare (path : String) (d : Definition δ) : NameCall s (.declare path d)
  | virtual (path : String) (options : List (String × Json)) (getters : List Getter)
      (setters : List Setter) : NameCall s (.virtual path options getters setters)
  | other {c : Call δ} (same : SameNames s (c.run s).1) : NameCall s c

/-- Names are declared by three sorts of calls. -/
theorem IsPlain.names {c : Call δ} (plain : c.IsPlain) (s : Schema δ) : NameCall s c := by
  cases c with
  | add d front => exact .add d front
  | declare path d => exact .declare path d
  | virtual path options getters setters => exact .virtual path options getters setters
  | lookup path => exact .other (sameNames_lookup s path)
  | classify path => exact .other (sameNames_classify s path)
  | requiredPaths anew => exact .other (sameNames_requiredPaths s anew)
  | index fields options => exact .other (sameNames_addIndex s fields options)
  | indexedPaths => exact .other (sameNames_indexedPaths s)
  | queue name args => exact .other ⟨rfl, rfl, rfl, rfl, rfl, rfl⟩
  | pre event hook => exact .other (sameNames_addHook s _)
  | post event hook => exact .other (sameNames_addHook s _)
  | postWithNext event hook => exact .other (sameNames_addHook s _)
  | method name m => exact .other ⟨rfl, rfl, rfl, rfl, rfl, rfl⟩
  | static name f => exact .other ⟨rfl, rfl, rfl, rfl, rfl, rfl⟩
  | set key v => exact .other (sameNames_setOption s key v)
  | compile o d => exact .other (.refl s)
  | fail e => exact .other (.refl s)
  | plugin calls => cases plain
  | attempt c => cases plain

/-- The entries whose turn comes where a call declares fields. -/
def turns (s : Schema δ) : Call δ → List (Turn δ)
  | .add (.object fields) front => s.turns (s.typedEntries front fields)
  | .declare path d => [(s, .field path d (d.typeAt s.options path))]
  | _ => []

def allTurns (past : List (Schema δ × Call δ)) : List (Turn δ) :=
  past.flatMap fun e => e.2.turns e.1

theorem allTurns_snoc (past : List (Schema δ × Call δ)) (s : Schema δ) (c : Call δ) :
    allTurns (past ++ [(s, c)]) = allTurns past ++ c.turns s := by
  simp [allTurns]

mutual

/-- The plain calls that a call makes, each with the schema that it is made on. -/
def history (s : Schema δ) : Call δ → List (Schema δ × Call δ)
  | .plugin calls => historyUntilError s calls
  | .attempt c => history s c
  | c => [(s, c)]

/-- The plain calls that are made where calls end at the first one that fails. -/
def historyUntilError (s : Schema δ) : List (Call δ) → List (Schema δ × Call δ)
  | [] => []
  | c :: cs =>
    history s c ++
      match run s c with
      | (s, .ok _) => historyUntilError s cs
      | (_, .error _) => []

end

def historyAll (s : Schema δ) : List (Call δ) → List (Schema δ × Call δ)
  | [] => []
  | c :: cs => history s c ++ historyAll (run s c).1 cs

variable {P : List (Schema δ × Call δ) → Schema δ → Prop}

mutual

/-- What every plain call keeps, with what was called before it in view, every call keeps. -/
theorem run_induct
    (plain : ∀ past s c, IsPlain c → P past s → P (past ++ [(s, c)]) (run s c).1) (c : Call δ)
    (past : List (Schema δ × Call δ)) (s : Schema δ) (h : P past s) :
    P (past ++ history s c) (run s c).1 := by
  cases c with
  | plugin calls => exact runUntilError_induct plain calls past s h
  | attempt c => exact run_induct plain c past s h
  | _ => exact plain past s _ trivial h

theorem runUntilError_induct
    (plain : ∀ past s c, IsPlain c → P past s → P (past ++ [(s, c)]) (run s c).1)
    (cs : List (Call δ)) (past : List (Schema δ × Call δ)) (s : Schema δ) (h : P past s) :
    P (past ++ historyUntilError s cs) (runUntilError s cs).1 := by
  match cs with
  | [] => simpa [historyUntilError, runUntilError] using h
  | c :: cs =>
    have first := run_induct plain c past s h
    rw [historyUntilError, runUntilError]
    rcases hr : run s c with ⟨s', e | u⟩
    · rw [hr] at first
      simpa using first
    · rw [hr] at first
      rw [← List.append_assoc]
      exact runUntilError_induct plain cs _ s' first

end

/-- What every plain call keeps, with what was called before it in view, every run keeps. -/
theorem runAll_induct
    (plain : ∀ past s c, IsPlain c → P past s → P (past ++ [(s, c)]) (run s c).1)
    (cs : List (Call δ)) (past : List (Schema δ × Call δ)) (s : Schema δ) (h : P past s) :
    P (past ++ historyAll s cs) (runAll s cs) := by
  induction cs generalizing past s with
  | nil => simpa [historyAll, runAll] using h
  | cons c cs ih =>
    have first := run_induct plain c past s h
    rw [historyAll, ← List.append_assoc]
    exact ih _ _ first

end Call

end DocSchema
