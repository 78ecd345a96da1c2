import Mathlib.Data.List.Forall2
import DocSchema.Proofs.Path.Positions

/-!
# Positions in place of other positions

The steps of a path do not say how a position is spelled. So two paths that differ in the spelling
of positions only have the same steps (`Alike.steps_eq`), and positions at the end of a path add
nothing but their number to its steps (`steps_extend`).
-/

namespace DocSchema.Path

/-! ### Other spellings -/

/-- Whether two segments are the same, or both positions. -/
def AlikeSegment (m n : String) : Prop := m = n ∨ isPosition m = true ∧ isPosition n = true

/-- Whether two paths have as many segments, the first one in common, and differ only where both
have a position. -/
structure Alike (p q : String) : Prop where
  first : (segments p).head? = (segments q).head?
  others : List.Forall₂ AlikeSegment (segments p).tail (segments q).tail

theorem AlikeSegment.isPosition_eq {m n : String} (h : AlikeSegment m n) :
    isPosition m = isPosition n := by
  rcases h with rfl | ⟨hm, hn⟩
  · rfl
  · rw [hm, hn]

theorem stepsAfter_alike {rest rest' : List String} (h : List.Forall₂ AlikeSegment rest rest')
    (run : List String) : stepsAfter run rest = stepsAfter run rest' := by
  induction h generalizing run with
  | nil => rfl
  | @cons m n rest rest' same others ih =>
    rw [stepsAfter, stepsAfter, ← same.isPosition_eq]
    rcases same with rfl | ⟨hm, hn⟩
    · rw [ih [], ih (run ++ [m])]
    · -- the run ends at either of the two, and neither is gathered
      rw [if_pos hm, if_pos hm, ih []]

variable {p q : String}

/-- However positions are spelled, the steps are the same. -/
theorem Alike.steps_eq (h : Alike p q) : steps p = steps q := by
  obtain ⟨s, rest, hp⟩ := exists_segments_eq p
  obtain ⟨s', rest', hq⟩ := exists_segments_eq q
  obtain ⟨first, others⟩ := h
  rw [hp, hq] at first others
  obtain rfl : s = s' := Option.some.inj first
  rw [steps, steps, hp, hq]
  exact stepsAfter_alike others [s]

theorem Alike.isPositional_eq (h : Alike p q) : isPositional p = isPositional q := by
  rw [isPositional, isPositional]
  have others := h.others
  generalize (segments p).tail = rest, (segments q).tail = rest' at others
  induction others with
  | nil => rfl
  | cons same others ih => rw [List.any_cons, List.any_cons, same.isPosition_eq, ih]

/-- Two paths that are alike are the same, or both have positions. -/
theorem Alike.eq_or_positional (h : Alike p q) :
    p = q ∨ isPositional p = true ∧ isPositional q = true := by
  have same := h.isPositional_eq
  cases hp : isPositional p with
  | true => exact .inr ⟨rfl, same ▸ hp⟩
  | false =>
    -- a path without positions is its only step
    have steps_p := steps_of_not_isPositional hp
    have steps_q := steps_of_not_isPositional (same ▸ hp)
    have one : [Step.field p] = [.field q] := by rw [← steps_p, h.steps_eq, steps_q]
    exact .inl (Step.field.inj (List.cons.inj one).1)

/-! ### Positions at the end -/

/-- The first step of a path is a name. -/
theorem exists_steps_eq (path : String) : ∃ head rest, steps path = .field head :: rest := by
  cases hp : isPositional path with
  | true =>
    obtain ⟨head, rest, there, -⟩ := steps_of_isPositional hp
    exact ⟨head, _, there⟩
  | false => exact ⟨path, [], steps_of_not_isPositional hp⟩

def endsAtPosition (path : String) : Bool := (segments path).tail.getLast?.any isPosition

def extend (path : String) (names : List String) : String := names.foldl below path

theorem stepsAfter_positions {positions : List String}
    (all : ∀ i ∈ positions, isPosition i = true) :
    stepsAfter [] positions = List.replicate positions.length .position := by
  induction positions with
  | nil => rfl
  | cons i positions ih =>
    have others : ∀ j ∈ positions, isPosition j = true :=
      fun j hj => all j (List.mem_cons_of_mem i hj)
    rw [stepsAfter, if_pos (all i List.mem_cons_self), ih others]
    rfl

theorem stepsAfter_append_positions {positions : List String}
    (all : ∀ i ∈ positions, isPosition i = true) :
    ∀ (rest run : List String), stepsAfter run (rest ++ positions) =
      stepsAfter run rest ++ List.replicate positions.length .position
  | [], run => by
    cases positions with
    | nil => rw [List.append_nil, List.length_nil, List.replicate_zero, List.append_nil]
    | cons i positions =>
      have others : ∀ j ∈ positions, isPosition j = true :=
        fun j hj => all j (List.mem_cons_of_mem i hj)
      rw [List.nil_append, stepsAfter, stepsAfter, if_pos (all i List.mem_cons_self),
        stepsAfter_positions others]
      rfl
  | s :: rest, run => by
    rw [List.cons_append, stepsAfter, stepsAfter]
    split
    · rw [stepsAfter_append_positions all rest [], List.append_assoc, List.cons_append]
    · exact stepsAfter_append_positions all rest (run ++ [s])

theorem segments_extend {path : String} {positions : List String}
    (all : ∀ i ∈ positions, isPosition i = true) :
    segments (extend path positions) = segments path ++ positions := by
  induction positions generalizing path with
  | nil => rw [List.append_nil]; rfl
  | cons i positions ih =>
    have others : ∀ j ∈ positions, isPosition j = true :=
      fun j hj => all j (List.mem_cons_of_mem i hj)
    show segments (extend (below path i) positions) = _
    rw [ih others, segments_below, segments_of_isPosition (all i List.mem_cons_self),
      List.append_assoc, List.singleton_append]

/-- Of positions at the end, the steps only tell how many there are. -/
theorem steps_extend {path : String} {positions : List String}
    (all : ∀ i ∈ positions, isPosition i = true) :
    steps (extend path positions) = steps path ++ List.replicate positions.length .position := by
  obtain ⟨s, rest, hs⟩ := exists_segments_eq path
  rw [steps, steps, segments_extend all, hs]
  exact stepsAfter_append_positions all rest [s]

theorem isPositional_extend {path : String} {positions : List String} (some : positions ≠ [])
    (all : ∀ i ∈ positions, isPosition i = true) :
    isPositional (extend path positions) = true := by
  obtain ⟨s, rest, hs⟩ := exists_segments_eq path
  obtain ⟨i, others, rfl⟩ := List.exists_cons_of_ne_nil some
  rw [isPositional, segments_extend all, hs, List.cons_append, List.tail_cons, List.any_append,
    List.any_cons, all i List.mem_cons_self]
  simp

/-- A path that ends at a position is an extension of a path by it. -/
theorem exists_extend_of_endsAtPosition {path : String} (h : endsAtPosition path = true) :
    ∃ parent i, isPosition i = true ∧ path = extend parent [i] := by
  obtain ⟨s, rest, hs⟩ := exists_segments_eq path
  rw [endsAtPosition, hs, List.tail_cons] at h
  obtain ⟨i, last, position⟩ := (Option.any_eq_true _ _).1 h
  obtain ⟨front, rfl⟩ := List.getLast?_eq_some_iff.1 last
  have single : join [i] = i := by
    calc join [i] = join (segments i) := by rw [segments_of_isPosition position]
      _ = i := join_segments i
  refine ⟨join (s :: front), i, position, ?_⟩
  calc path = join (segments path) := (join_segments path).symm
    _ = join (s :: front ++ [i]) := by rw [hs, List.cons_append]
    _ = below (join (s :: front)) (join [i]) := join_append (by simp) (by simp)
    _ = below (join (s :: front)) i := by rw [single]

theorem stepsAfter_of_last :
    ∀ (rest run : List String), run ≠ [] ∨ rest ≠ [] → rest.getLast?.any isPosition = false →
      ∃ front name, stepsAfter run rest = front ++ [.field name]
  | [], run, nonempty, _ => by
    obtain ⟨r, run, rfl⟩ := List.exists_cons_of_ne_nil (nonempty.resolve_right (by simp))
    exact ⟨[], join (r :: run), rfl⟩
  | s :: rest, run, _, last => by
    have last' : rest.getLast?.any isPosition = false := by
      cases rest with
      | nil => rfl
      | cons s' rest => rwa [List.getLast?_cons_cons] at last
    rw [stepsAfter]
    split
    · next hs =>
      -- this position is not the last segment
      have more : rest ≠ [] := by
        rintro rfl
        simp [hs] at last
      obtain ⟨front, name, there⟩ := stepsAfter_of_last rest [] (.inr more) last'
      exact ⟨stepOfRun run ++ .position :: front, name, by rw [there]; simp⟩
    · exact stepsAfter_of_last rest (run ++ [s]) (.inl (by simp)) last'

/-- The last step of any other path is a name. -/
theorem steps_of_not_endsAtPosition {path : String} (h : endsAtPosition path = false) :
    ∃ front name, steps path = front ++ [.field name] := by
  obtain ⟨s, rest, hs⟩ := exists_segments_eq path
  rw [endsAtPosition, hs, List.tail_cons] at h
  rw [steps, hs]
  exact stepsAfter_of_last rest [s] (.inl (List.cons_ne_nil s [])) h

end DocSchema.Path
