import DocSchema.Proofs.Schema.Steps

/-!
# Reachable schemas

A schema is reachable if it was compiled and then changed by calls, each of which may fail; and so
are the schemas that its definitions and calls hold. It is built if, beyond that, all calls
succeeded, those that plugins make included. Both are `Reached`, for different conditions on calls.

`Reached.induct` is the one induction over all this: a property of schemas that an empty schema has
and that every step keeps, where it may be assumed of the sub-schemas that the step brings in, holds
of every reached schema.
-/

namespace DocSchema

variable {δ : Type} [Document δ]

namespace Call

mutual

def Succeeds (s : Schema δ) : Call δ → Prop
  | .plugin calls => AllSucceed s calls
  | .attempt c => Succeeds s c
  | c => (run s c).2 = .ok ()

/-- Whether calls that are made in order all succeed. -/
def AllSucceed (s : Schema δ) : List (Call δ) → Prop
  | [] => True
  | c :: cs => Succeeds s c ∧ AllSucceed (run s c).1 cs

end

mutual

/-- A call that succeeds gives no error. -/
theorem snd_run_of_succeeds (c : Call δ) (s : Schema δ) (h : Succeeds s c) :
    (run s c).2 = .ok () := by
  cases c with
  | plugin calls => rw [run, runUntilError_of_allSucceed calls s h]
  | attempt c => rfl
  | _ => exact h

/-- Calls that all succeed are all made, also where they would end at a failure. -/
theorem runUntilError_of_allSucceed (cs : List (Call δ)) (s : Schema δ) (h : AllSucceed s cs) :
    runUntilError s cs = (runAll s cs, .ok ()) := by
  match cs, h with
  | [], _ => rfl
  | c :: cs, ⟨first, others⟩ =>
    have hc := snd_run_of_succeeds c s first
    rw [runUntilError]
    split
    · next s' _ hr =>
      rw [hr] at others
      rw [runUntilError_of_allSucceed cs s' others, runAll, runAll, List.foldl_cons, hr]
    · next s' e hr =>
      rw [hr] at hc
      cases hc

end

end Call

namespace Schema

/-- The schemas that are compiled and then changed by calls, where the calls and the schemas inside
all definitions are of the same sort. -/
inductive Reached (allowed : Schema δ → Call δ → Prop) : Schema δ → Prop where
  | compile {o : Options} {d : Definition δ} {s : Schema δ}
      (inside : ∀ c ∈ d.schemas, Reached allowed c) (compiled : Schema.compile o d = .ok s) :
      Reached allowed s
  | call {s : Schema δ} (c : Call δ) (before : Reached allowed s)
      (inside : ∀ b ∈ c.schemas, Reached allowed b) (fits : allowed s c) :
      Reached allowed (c.run s).1

/-- The schemas reached by any calls, also by calls that fail. -/
abbrev Reachable : Schema δ → Prop := Reached fun _ _ => True

/-- The schemas reached by calls that all succeed. -/
abbrev Built : Schema δ → Prop := Reached fun s c => c.Succeeds s

variable {allowed : Schema δ → Call δ → Prop} {s : Schema δ}

theorem Reached.mono {allowed' : Schema δ → Call δ → Prop}
    (h : ∀ s c, allowed s c → allowed' s c) (hs : Reached allowed s) : Reached allowed' s := by
  induction hs with
  | compile _ compiled ih => exact .compile ih compiled
  | call c _ _ fits ih₁ ih₂ => exact .call c ih₁ ih₂ (h _ c fits)

theorem Built.reachable (hs : Built s) : Reachable s := Reached.mono (fun _ _ _ => trivial) hs

/-- Calls that all succeed build on what was built before. -/
theorem Built.runAll {calls : List (Call δ)} (hs : Built s)
    (inside : ∀ c ∈ Call.allSchemas calls, Built c) (ok : Call.AllSucceed s calls) :
    Built (Call.runAll s calls) := by
  induction calls generalizing s with
  | nil => exact hs
  | cons c cs ih =>
    have first : ∀ b ∈ c.schemas, Built b := fun b hb => inside b (List.mem_append_left _ hb)
    exact ih (.call c hs first ok.1) (fun b hb => inside b (List.mem_append_right _ hb)) ok.2

/-- A property of reached schemas that steps keep is closed under compiling. -/
theorem Reached.closed {P : Schema δ → Prop} (init : ∀ o, P (empty o))
    (step : ∀ s s', Step (fun c => Reached allowed c ∧ P c) s s' → P s → P s') :
    Closed fun c => Reached allowed c ∧ P c := by
  intro o d s hd hs steps
  exact ⟨.compile (fun c hc => (hd c hc).1) hs, steps.keep step (init o)⟩

/-- What an empty schema has and every step keeps, every reached schema has. -/
theorem Reached.induct {P : Schema δ → Prop} (init : ∀ o, P (empty o))
    (step : ∀ s s', Step (fun c => Reached allowed c ∧ P c) s s' → P s → P s')
    (hs : Reached allowed s) : P s := by
  have hR := Reached.closed init step
  induction hs with
  -- the schemas inside a definition or a call are reached earlier, so they have the property
  | @compile o d s inside compiled ih =>
    have steps := steps_compile hR o d s (fun c hc => ⟨inside c hc, ih c hc⟩) compiled
    exact steps.keep step (init o)
  | @call s c before inside _ ih₁ ih₂ =>
    have steps := Call.steps_run hR c s fun b hb => ⟨inside b hb, ih₂ b hb⟩
    exact steps.keep step ih₁

/-- Nothing but reached schemas is inside the fields of a reached schema, those of embedded schemas
included. -/
theorem Reached.inside (hs : Reached allowed s) :
    ∀ e ∈ s.fields ++ s.embeddedFields, ∀ c ∈ e.2.schemas, Reached allowed c := by
  refine hs.induct (P := fun s => ∀ e ∈ s.fields ++ s.embeddedFields, ∀ c ∈ e.2.schemas,
    Reached allowed c) (fun o => by simp [empty]) fun s s' step ih => ?_
  cases step.names with
  | bind placed =>
    obtain ⟨-, -, tree, -, rfl⟩ := place_ok placed
    exact ih
  | @declare path d t s₁ placed _ inside =>
    obtain ⟨-, -, tree, -, rfl⟩ := place_ok placed
    intro e he c hc
    rw [adopt_fields, List.mem_append] at he
    rcases he with he | he
    · rcases Table.mem_insert he with rfl | he
      · exact (inside c hc).1
      · exact ih e (List.mem_append_left _ he) c hc
    · rcases adopt_cases { s with tree := tree } path t with ⟨child, hk, hf, -⟩ | ⟨hf, -⟩
      · rw [hf] at he
        rcases mem_embed_fields he with ⟨he, -⟩ | ⟨e', he', rfl⟩
        · exact ih e (List.mem_append_right _ he) c hc
        · have hchild : child ∈ t.schemas := by simp [FieldType.schemas_eq, hk, FieldKind.schemas]
          exact (inside child hchild).2 e' he' c hc
      · rw [hf] at he
        exact ih e (List.mem_append_right _ he) c hc
  | openGroup free => exact ih
  | declareVirtual options new placed => exact ih
  | extendVirtual known => exact ih
  | other same =>
    rw [same.fields, same.embeddedFields]
    exact ih

end Schema

end DocSchema
