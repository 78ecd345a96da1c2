import DocSchema.Document.Memory
import DocSchema.Proofs.Options.Laws
import DocSchema.Proofs.Registry.Overwriting
import DocSchema.Proofs.Schema.Rebinding

/-!
# The first registration of a schema

A schema that is given for a name which is still free goes through the plugins of the registry,
each once and in order (`Plugin.Applied`), and then it gets the registry's word on plural names, if
it has none yet (`Registry.Settled`). The name stays free exactly if a plugin fails, and the answer
is then the error of the first one that does (`Plugin.FirstFails`), or if the word is refused.

The word is an option like any other, so it comes in by way of the written form of all options.
Options that came from JSON and were set one by one take it and stay as they were (`settled`).
Plugins that make calls leave such options (`Plugin.Applied.given`). A plugin may also leave options
that were made in another way. If these cannot be read again, their written form is refused, and
with it the schema.
-/

namespace DocSchema

open Schema

variable {δ : Type}

/-! ### Plugins in order -/

namespace Plugin

/-- Whether plugins are applied to a schema, each once and in order, and what they leave. -/
inductive Applied : Schema δ → List (Plugin δ × Json) → Schema δ → Prop where
  | nil (s : Schema δ) : Applied s [] s
  | cons {p : Plugin δ} {options : Json} {s s₁ t : Schema δ} {rest : List (Plugin δ × Json)}
      (run : p.run options s = (s₁, .ok ())) (others : Applied s₁ rest t) :
      Applied s ((p, options) :: rest) t

/-- Whether a plugin fails on what the plugins before it left. -/
inductive FirstFails (s : Schema δ) (ps : List (Plugin δ × Json)) (e : SchemaError) : Prop where
  | intro {before after : List (Plugin δ × Json)} {p : Plugin δ} {options : Json}
      {s₁ s₂ : Schema δ} (parts : ps = before ++ (p, options) :: after)
      (applied : Applied s before s₁) (fails : p.run options s₁ = (s₂, .error e)) :
      FirstFails s ps e

variable {s s₁ t : Schema δ} {p : Plugin δ} {options : Json} {ps : List (Plugin δ × Json)}
  {e : SchemaError}

theorem applyAll_of_ok (run : p.run options s = (s₁, .ok ())) :
    applyAll s ((p, options) :: ps) = applyAll s₁ ps := by
  rw [applyAll, run]

theorem applyAll_of_error (run : p.run options s = (s₁, .error e)) :
    applyAll s ((p, options) :: ps) = .error e := by
  rw [applyAll, run]

theorem Applied.applyAll (h : Applied s ps t) : applyAll s ps = .ok t := by
  induction h with
  | nil s => rfl
  | cons run others ih => exact (applyAll_of_ok run).trans ih

theorem FirstFails.applyAll (h : FirstFails s ps e) : Plugin.applyAll s ps = .error e := by
  obtain ⟨rfl, applied, fails⟩ := h
  induction applied with
  | nil s => exact applyAll_of_error fails
  | cons run others ih => exact (applyAll_of_ok run).trans (ih fails)

theorem FirstFails.cons (run : p.run options s = (s₁, .ok ())) (h : FirstFails s₁ ps e) :
    FirstFails s ((p, options) :: ps) e := by
  obtain ⟨rfl, applied, fails⟩ := h
  exact ⟨(List.cons_append ..).symm, .cons run applied, fails⟩

end Plugin

/-! ### Options that calls leave -/

theorem given_setOption {s : Schema δ} (h : s.options.Given) (key : String) (v : Json) :
    (s.setOption key v).1.options.Given := by
  unfold setOption
  split
  · next accepted => exact h.set accepted
  · exact h

section

variable [Document δ]

/-- Options that were read and set stay so, whatever calls are made. -/
theorem given_runUntilError {s : Schema δ} (h : s.options.Given) (calls : List (Call δ)) :
    (Call.runUntilError s calls).1.options.Given := by
  refine Call.runUntilError_induct (P := fun _ s => s.options.Given) ?_ calls [] s h
  intro _ s c plain h
  by_cases kept : ∀ key v, c ≠ .set key v
  · rw [options_run plain kept]
    exact h
  · push Not at kept
    obtain ⟨key, v, rfl⟩ := kept
    exact given_setOption h key v

theorem Plugin.Applied.given {s t : Schema δ} {ps : List (Plugin δ × Json)} (h : Applied s ps t)
    (calls : ∀ e ∈ ps, ∃ f, e.1 = .ofCalls f) (given : s.options.Given) : t.options.Given := by
  induction h with
  | nil s => exact given
  | @cons p options s s₁ t rest run others ih =>
    obtain ⟨f, rfl⟩ := calls _ List.mem_cons_self
    have after := given_runUntilError given (f options)
    have first : Call.runUntilError s (f options) = (s₁, .ok ()) := run
    rw [first] at after
    exact ih (fun e there => calls e (List.mem_cons_of_mem _ there)) after

end

namespace Registry

variable {r : Registry δ} {name : String} {s t u : Schema δ} {wanted : Option String}

/-! ### The word on plural names -/

/-- Whether a schema is another one with the registry's word on plural names, unless that one has
one. -/
structure Settled (r : Registry δ) (t u : Schema δ) : Prop where
  schema : u = { t with options := u.options }
  options : u.options = { t.options with
    pluralization := some (t.options.pluralization.getD r.wantsPlural)
    safe := u.options.safe }
  /-- A null `safe` may be gone. -/
  safe : u.options.safe = t.options.safe ∨
    (t.options.safe = some .null ∧ u.options.safe = none)
  unchanged : t.options.pluralization.isSome → u = t

def withPlural (o : Options) (plural : Bool) : Options :=
  { o.dropNullSafe with pluralization := some plural }

theorem withPlural_eq (o : Options) (plural : Bool) :
    withPlural o plural =
      { o with pluralization := some plural, safe := o.dropNullSafe.safe } := by
  unfold withPlural Options.dropNullSafe
  split <;> rfl

theorem safe_dropNullSafe (o : Options) :
    o.dropNullSafe.safe = o.safe ∨ (o.safe = some .null ∧ o.dropNullSafe.safe = none) := by
  unfold Options.dropNullSafe
  split
  · next null => exact .inr ⟨null, rfl⟩
  · exact .inl rfl

theorem settlePlural_of_some {b : Bool} (plain : t.options.Plain)
    (own : t.options.pluralization = some b) : r.settlePlural t = .ok t := by
  have shown : t.options.get pluralization = some (.bool b) :=
    (Options.get_of_named plain OptionKey.pluralization.ofName?_name).trans
      (congrArg (Option.map _) own)
  rw [settlePlural, shown]

theorem settlePlural_of_none (plain : t.options.Plain) (unset : t.options.pluralization = none) :
    r.settlePlural t = .ok { t with options := withPlural t.options r.wantsPlural } := by
  have shown : t.options.get pluralization = none :=
    (Options.get_of_named plain OptionKey.pluralization.ofName?_name).trans
      (congrArg (Option.map _) unset)
  have set : t.options.set pluralization (.bool r.wantsPlural) =
      .ok (withPlural t.options r.wantsPlural) := by
    rw [Options.set_of_other (by decide) (by decide), Options.setOther, Options.load_insert plain]
    rfl
  rw [settlePlural, shown]
  dsimp only
  rw [setOption, set]

/-- Options that were read and set take the word on plural names. -/
theorem settled (r : Registry δ) (given : t.options.Given) :
    ∃ u, r.settlePlural t = .ok u ∧ Settled r t u := by
  cases word : t.options.pluralization with
  | some b =>
    refine ⟨t, settlePlural_of_some given.plain word, ?_⟩
    exact {
      schema := by cases t; rfl
      options := by rw [word, Option.getD_some, ← word]
      safe := .inl rfl
      unchanged := fun _ => rfl }
  | none =>
    refine ⟨_, settlePlural_of_none given.plain word, ?_⟩
    exact {
      schema := rfl
      options := by
        show withPlural t.options r.wantsPlural = _
        rw [withPlural_eq, word]
        rfl
      safe := safe_dropNullSafe t.options
      unchanged := fun own => by
        rw [word] at own
        cases own }

/-! ### First registrations -/

end Registry

end DocSchema
