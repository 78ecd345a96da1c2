import DocSchema.Proofs.Schema.Reachable

/-!
# Calls without the look-ups among them

A look-up changes nothing but what the schema remembers of earlier look-ups, and no other call reads
that. So a run of calls and the same run without its look-ups lead to the same schema, up to what is
remembered (`run_unasked`).
-/

namespace DocSchema

variable {δ : Type}

namespace Schema

/-- A schema that remembers no look-ups. -/
def unasked (s : Schema δ) : Schema δ := { s with located := [] }

theorem unasked_remember (s : Schema δ) (path : String) :
    (s.remember path).1.unasked = s.unasked := by
  unfold remember
  split <;> rfl

theorem unasked_lookup (s : Schema δ) (path : String) : (s.lookup path).1.unasked = s.unasked := by
  rw [lookup_fst]
  split
  · exact unasked_remember s path
  · rfl

theorem unasked_classify (s : Schema δ) (path : String) :
    (s.classify path).1.unasked = s.unasked := by
  unfold classify
  split
  · rfl
  · split
    · rfl
    · split
      · rfl
      · split
        · rfl
        · split
          · exact unasked_remember s path
          · rfl

/-! ### Calls that are no look-ups -/

theorem place_unasked (s : Schema δ) (path : String) (d : Definition δ) :
    s.unasked.place path d = (s.place path d).map unasked := by
  have taken : s.unasked.isTaken path = s.isTaken path := rfl
  have conflict (parent : String) : s.unasked.conflict path parent = s.conflict path parent := rfl
  have tree : s.unasked.tree = s.tree := rfl
  unfold place
  rw [taken, conflict]
  split
  · rfl
  · split
    · rfl
    · rw [tree]
      cases Tree.insertField (Path.segments path) d s.tree with
      | error blocking => rfl
      | ok tree => rfl

/-- Storing a field forgets all look-ups, so it does not matter whether there were any. -/
theorem adopt_unasked (s : Schema δ) (path : String) (t : FieldType δ) :
    s.unasked.adopt path t = (s.adopt path t).unasked := by
  unfold adopt
  split <;> rfl

theorem declareAs_unasked (s : Schema δ) (path : String) (d : Definition δ)
    (type : Except SchemaError (FieldType δ)) : s.unasked.declareAs path d type =
      ((s.declareAs path d type).1.unasked, (s.declareAs path d type).2) := by
  unfold declareAs
  rw [place_unasked]
  cases s.place path d with
  | error e => rfl
  | ok s' =>
    cases type with
    | error e => rfl
    | ok t =>
      show (s'.unasked.adopt path t, _) = _
      rw [adopt_unasked]

theorem register_unasked (s : Schema δ) (e : TypedEntry δ) :
    s.unasked.register e = ((s.register e).1.unasked, (s.register e).2) := by
  cases e with
  | missing path => rfl
  | missingItem path => rfl
  | group path =>
    have fields : s.unasked.fields = s.fields := rfl
    rw [register, register, fields]
    cases Table.get? s.fields path with
    | some t => rfl
    | none => rfl
  | field path d type =>
    rw [register, register, declareAs_unasked]
    rcases s.declareAs path d type with ⟨s', e | t⟩ <;> rfl

theorem registerAll_unasked (s : Schema δ) (es : List (TypedEntry δ)) :
    s.unasked.registerAll es = ((s.registerAll es).1.unasked, (s.registerAll es).2) := by
  induction es generalizing s with
  | nil => rfl
  | cons e es ih =>
    rw [registerAll, registerAll, register_unasked]
    rcases s.register e with ⟨s', err | u⟩
    · rfl
    · exact ih s'

theorem extendVirtual_unasked (s : Schema δ) (path : String) (options : Table Json)
    (getters : List Getter) (setters : List Setter) :
    s.unasked.extendVirtual path options getters setters =
      ((s.extendVirtual path options getters setters).1.unasked,
        (s.extendVirtual path options getters setters).2) := by
  have same : s.unasked.virtual path options =
      ((s.virtual path options).1.unasked, (s.virtual path options).2) := by
    have virtuals : s.unasked.virtuals = s.virtuals := rfl
    have tree : s.unasked.tree = s.tree := rfl
    unfold virtual
    rw [virtuals, tree]
    cases Table.get? s.virtuals path with
    | some v => rfl
    | none =>
      cases Tree.insertVirtual (Path.segments path) s.tree with
      | error blocking => rfl
      | ok tree => rfl
  unfold extendVirtual
  rw [same]
  rcases s.virtual path options with ⟨s', e | v⟩ <;> rfl

theorem addHook_unasked (s : Schema δ) (entry : HookEntry δ) :
    s.unasked.addHook entry = (s.addHook entry).unasked := by
  unfold addHook
  split <;> rfl

theorem requiredPaths_unasked (s : Schema δ) (anew : Bool) :
    (s.unasked.requiredPaths anew).1 = (s.requiredPaths anew).1.unasked := by
  have known : s.unasked.knownRequired = s.knownRequired := rfl
  unfold requiredPaths
  rw [known]
  split
  · split <;> rfl
  · rfl

theorem indexedPaths_unasked (s : Schema δ) :
    s.unasked.indexedPaths.1 = s.indexedPaths.1.unasked := by
  cases s with
  | mk _ _ _ _ _ _ _ _ _ _ _ _ _ _ known => cases known <;> rfl

theorem addIndex_unasked (s : Schema δ) (fields options : Json) :
    s.unasked.addIndex fields options =
      ((s.addIndex fields options).1.unasked, (s.addIndex fields options).2) := by
  unfold addIndex
  split <;> rfl

theorem setOption_unasked (s : Schema δ) (key : String) (v : Json) : s.unasked.setOption key v =
    ((s.setOption key v).1.unasked, (s.setOption key v).2) := by
  have options : s.unasked.options = s.options := rfl
  unfold setOption
  rw [options]
  split <;> rfl

variable [Document δ]

theorem add_unasked (s : Schema δ) (d : Definition δ) (front : String) :
    s.unasked.add d front = ((s.add d front).1.unasked, (s.add d front).2) := by
  unfold add
  split
  · exact registerAll_unasked s _
  · rfl

end Schema

/-! ### Leaving look-ups out -/

namespace Call

open Schema

mutual

/-- What is left of a call without look-ups, also without those that a plugin makes. -/
def declarations : Call δ → List (Call δ)
  | .lookup _ => []
  | .classify _ => []
  | .plugin calls => [.plugin (allDeclarations calls)]
  | .attempt c => [.attempt (.plugin (declarations c))]
  | c => [c]

def allDeclarations : List (Call δ) → List (Call δ)
  | [] => []
  | c :: cs => declarations c ++ allDeclarations cs

end

variable [Document δ]

theorem runUntilError_singleton (s : Schema δ) (c : Call δ) : runUntilError s [c] = run s c := by
  rw [runUntilError]
  rcases run s c with ⟨s', e | u⟩ <;> rfl

theorem runUntilError_append (s : Schema δ) (cs cs' : List (Call δ)) :
    runUntilError s (cs ++ cs') =
      match runUntilError s cs with
      | (s', .ok _) => runUntilError s' cs'
      | (s', .error e) => (s', .error e) := by
  induction cs generalizing s with
  | nil => rfl
  | cons c cs ih =>
    rw [List.cons_append, runUntilError, runUntilError]
    rcases run s c with ⟨s', e | u⟩
    · rfl
    · exact ih s'

mutual

/-- A call, and what is left of it without look-ups, do the same to a schema up to what is
remembered of look-ups. -/
theorem run_unasked (c : Call δ) (s : Schema δ) :
    runUntilError s.unasked (declarations c) = ((run s c).1.unasked, (run s c).2) := by
  cases c with
  | lookup path => exact Prod.ext (unasked_lookup s path).symm rfl
  | classify path => exact Prod.ext (unasked_classify s path).symm rfl
  | plugin calls =>
    rw [declarations, runUntilError_singleton, run, run]
    exact runUntilError_unasked calls s
  | attempt c =>
    rw [declarations, runUntilError_singleton, run, run, run, run_unasked c s]
  | add d front => exact (runUntilError_singleton _ _).trans (add_unasked s d front)
  | declare path d =>
    refine (runUntilError_singleton _ _).trans ?_
    show forget (s.unasked.declareAs path d _) = _
    rw [declareAs_unasked]
    rfl
  | requiredPaths anew =>
    exact (runUntilError_singleton _ _).trans (Prod.ext (requiredPaths_unasked s anew) rfl)
  | index fields options =>
    exact (runUntilError_singleton _ _).trans (addIndex_unasked s fields options)
  | indexedPaths =>
    exact (runUntilError_singleton _ _).trans (Prod.ext (indexedPaths_unasked s) rfl)
  -- all other calls are made as they are, and they do not read what is remembered
  | virtual path options getters setters =>
    refine (runUntilError_singleton _ _).trans ?_
    rw [run, extendVirtual_unasked]
    rfl
  | queue name args => rfl
  | pre event hook =>
    exact (runUntilError_singleton _ _).trans (Prod.ext (addHook_unasked s _) rfl)
  | post event hook =>
    exact (runUntilError_singleton _ _).trans (Prod.ext (addHook_unasked s _) rfl)
  | postWithNext event hook =>
    exact (runUntilError_singleton _ _).trans (Prod.ext (addHook_unasked s _) rfl)
  | method name m => rfl
  | static name f => rfl
  | set key v => exact (runUntilError_singleton _ _).trans (setOption_unasked s key v)
  | compile o d => exact runUntilError_singleton _ _
  | fail e => rfl

theorem runUntilError_unasked (cs : List (Call δ)) (s : Schema δ) :
    runUntilError s.unasked (allDeclarations cs) =
      ((runUntilError s cs).1.unasked, (runUntilError s cs).2) := by
  match cs with
  | [] => rfl
  | c :: cs =>
    rw [allDeclarations, runUntilError_append, run_unasked c s, runUntilError]
    rcases run s c with ⟨s', e | u⟩
    · rfl
    · exact runUntilError_unasked cs s'

end

end Call

end DocSchema
