import DocSchema.Path.Position
import DocSchema.Proofs.Path.Below

/-!
# The steps of a path with positions

Where a path is read as steps, the names between two positions are runs of segments of which none
stands for a position. So the names that are looked up on the way have no positions themselves
(`isPositional_of_mem_steps`), and the first one lies above the path (`steps_of_isPositional`).
Below a path without positions, only the first name changes (`steps_below`), and below a position in
it the steps are those of the rest (`steps_element`).
-/

namespace DocSchema.Path

/-- A segment has no dot in it. -/
theorem not_mem_splitChars : ∀ (cs : List Char), ∀ s ∈ splitChars cs, '.' ∉ s
  | [], s, hs => by
    obtain rfl := List.mem_singleton.1 hs
    exact List.not_mem_nil
  | c :: cs, s, hs => by
    have ih := not_mem_splitChars cs
    rw [splitChars] at hs
    split at hs
    · rcases List.mem_cons.1 hs with rfl | hs
      · exact List.not_mem_nil
      · exact ih s hs
    · next hc =>
      cases hsplit : splitChars cs with
      | nil => exact absurd hsplit (splitChars_ne_nil cs)
      | cons t ts =>
        rw [hsplit] at hs ih
        rcases List.mem_cons.1 hs with rfl | hs
        · rw [List.mem_cons, not_or]
          exact ⟨Ne.symm hc, ih t List.mem_cons_self⟩
        · exact ih s (List.mem_cons_of_mem _ hs)

theorem not_mem_of_mem_segments {path n : String} (h : n ∈ segments path) : '.' ∉ n.toList := by
  obtain ⟨s, hs, rfl⟩ := List.mem_map.1 h
  rw [String.toList_ofList]
  exact not_mem_splitChars _ s hs

/-- A run of segments that are gathered into a name: none has a dot, and no segment after the first
one is a position. -/
structure Run (names : List String) : Prop where
  no_dots : ∀ n ∈ names, '.' ∉ n.toList
  no_positions : names.tail.any isPosition = false

theorem Run.append {run : List String} {s : String} (h : Run run) (dots : '.' ∉ s.toList)
    (pos : isPosition s = false) : Run (run ++ [s]) := by
  refine ⟨fun n hn => ?_, ?_⟩
  · rcases List.mem_append.1 hn with hn | hn
    · exact h.no_dots n hn
    · rw [List.mem_singleton.1 hn]
      exact dots
  · cases run with
    | nil => rfl
    | cons r run =>
      have := h.no_positions
      simp_all

theorem Run.segments_join {run : List String} (h : Run run) (hn : run ≠ []) :
    segments (join run) = run :=
  Path.segments_join run hn h.no_dots

/-- The name of a run has no positions. -/
theorem Run.isPositional {run : List String} (h : Run run) (hn : run ≠ []) :
    isPositional (join run) = false := by
  rw [Path.isPositional, h.segments_join hn]
  exact h.no_positions

theorem mem_stepOfRun {run : List String} {name : String} (h : Step.field name ∈ stepOfRun run) :
    run ≠ [] ∧ name = join run := by
  unfold stepOfRun at h
  split at h
  · cases h
  · next hn =>
    rw [List.mem_singleton, Step.field.injEq] at h
    exact ⟨hn, h⟩

theorem isPositional_of_mem_stepsAfter {name : String} :
    ∀ (rest run : List String), Run run → (∀ n ∈ rest, '.' ∉ n.toList) →
      Step.field name ∈ stepsAfter run rest → isPositional name = false
  | [], run, hr, _, h => by
    obtain ⟨hn, rfl⟩ := mem_stepOfRun h
    exact hr.isPositional hn
  | s :: rest, run, hr, hd, h => by
    have hd' : ∀ n ∈ rest, '.' ∉ n.toList := fun n hn => hd n (List.mem_cons_of_mem _ hn)
    rw [stepsAfter] at h
    split at h
    · rcases List.mem_append.1 h with h | h
      · obtain ⟨hn, rfl⟩ := mem_stepOfRun h
        exact hr.isPositional hn
      · have h : Step.field name ∈ stepsAfter [] rest := by simpa using h
        exact isPositional_of_mem_stepsAfter rest [] ⟨by simp, rfl⟩ hd' h
    · next hp =>
      have hs : '.' ∉ s.toList := hd s List.mem_cons_self
      exact isPositional_of_mem_stepsAfter rest _ (hr.append hs (by simpa using hp)) hd' h

/-- The names that a path leads through have no positions. -/
theorem isPositional_of_mem_steps {path name : String} (h : Step.field name ∈ steps path) :
    isPositional name = false := by
  have dots : ∀ n ∈ segments path, '.' ∉ n.toList := fun n => not_mem_of_mem_segments
  unfold steps at h
  split at h
  · cases h
  · next s rest hs =>
    rw [hs] at dots
    refine isPositional_of_mem_stepsAfter rest [s] ⟨fun n hn => ?_, rfl⟩ (fun n hn => ?_) h
    · exact dots n (List.mem_singleton.1 hn ▸ List.mem_cons_self)
    · exact dots n (List.mem_cons_of_mem _ hn)

/-- Where a position comes after a run, the run is the first name, and the segments that are left
after it start with the position. -/
theorem stepsAfter_of_any :
    ∀ (rest run : List String), run ≠ [] → rest.any isPosition = true →
      ∃ taken left steps, rest = taken ++ left ∧ left ≠ [] ∧
        stepsAfter run rest = .field (join (run ++ taken)) :: .position :: steps
  | [], _, _, h => by simp at h
  | s :: rest, run, hn, h => by
    rw [stepsAfter]
    split
    · -- the run ends here, and the position itself is left
      obtain ⟨r, run, rfl⟩ := List.exists_cons_of_ne_nil hn
      exact ⟨[], s :: rest, _, rfl, by simp, by rw [List.append_nil]; rfl⟩
    · next hp =>
      have later : rest.any isPosition = true := by simpa [hp] using h
      obtain ⟨taken, left, steps, rfl, hl, hs⟩ :=
        stepsAfter_of_any rest (run ++ [s]) (by simp) later
      exact ⟨s :: taken, left, steps, rfl, hl, by rw [hs, List.append_assoc]; rfl⟩

/-- A path with positions starts with a name that lies above it, and a position comes next. -/
theorem steps_of_isPositional {path : String} (h : isPositional path = true) :
    ∃ head rest, steps path = .field head :: .position :: rest ∧ isBelow head path = true := by
  unfold isPositional at h
  unfold steps
  cases hs : segments path with
  | nil => exact absurd hs (segments_ne_nil path)
  | cons s rest =>
    rw [hs, List.tail_cons] at h
    obtain ⟨taken, left, steps, rfl, hl, he⟩ := stepsAfter_of_any rest [s] (by simp) h
    have dots : ∀ n ∈ [s] ++ taken, '.' ∉ n.toList := by
      intro n hn
      have hm : n ∈ segments path := by
        rw [hs, ← List.singleton_append, ← List.append_assoc]
        exact List.mem_append_left left hn
      exact not_mem_of_mem_segments hm
    refine ⟨_, steps, he, isBelow_iff_segments.2 ⟨left, hl, ?_⟩⟩
    rw [hs, segments_join _ (by simp) dots]
    rfl

/-! ### Steps of a path below another one -/

/-- The segments of a path are not empty, so there is a first one. -/
theorem exists_segments_eq (path : String) : ∃ s rest, segments path = s :: rest :=
  List.exists_cons_of_ne_nil (segments_ne_nil path)

/-- Segments that are no positions are gathered into the run before them. -/
theorem stepsAfter_append :
    ∀ (names run rest : List String), names.any isPosition = false →
      stepsAfter run (names ++ rest) = stepsAfter (run ++ names) rest
  | [], run, rest, _ => by rw [List.nil_append, List.append_nil]
  | n :: names, run, rest, h => by
    obtain ⟨hn, hs⟩ := Bool.or_eq_false_iff.1 ((List.any_cons).symm.trans h)
    rw [List.cons_append, stepsAfter, hn, if_neg Bool.false_ne_true,
      stepsAfter_append names (run ++ [n]) rest hs, List.append_assoc, List.singleton_append]

/-- Segments before a run only change the name that the run makes. -/
theorem stepsAfter_below {above : List String} (ha : above ≠ []) :
    ∀ (rest run : List String), run ≠ [] →
      ∃ head steps, stepsAfter run rest = .field head :: steps ∧
        stepsAfter (above ++ run) rest = .field (below (join above) head) :: steps
  | [], run, hr => by
    obtain ⟨r, run, rfl⟩ := List.exists_cons_of_ne_nil hr
    obtain ⟨a, above, rfl⟩ := List.exists_cons_of_ne_nil ha
    refine ⟨join (r :: run), [], rfl, ?_⟩
    rw [← join_append (by simp) (by simp)]
    rfl
  | s :: rest, run, hr => by
    rw [stepsAfter, stepsAfter]
    split
    · obtain ⟨r, run, rfl⟩ := List.exists_cons_of_ne_nil hr
      obtain ⟨a, above, rfl⟩ := List.exists_cons_of_ne_nil ha
      refine ⟨join (r :: run), _, rfl, ?_⟩
      rw [← join_append (by simp) (by simp)]
      rfl
    · rw [List.append_assoc]
      exact stepsAfter_below ha rest (run ++ [s]) (by simp)

/-- A path without positions is one step. -/
theorem steps_of_not_isPositional {path : String} (h : isPositional path = false) :
    steps path = [.field path] := by
  obtain ⟨s, rest, hs⟩ := exists_segments_eq path
  rw [isPositional, hs, List.tail_cons] at h
  calc steps path = stepsAfter [s] (rest ++ []) := by rw [steps, hs, List.append_nil]
    _ = stepsAfter (s :: rest) [] := stepsAfter_append rest [s] [] h
    _ = [.field (join (s :: rest))] := rfl
    _ = [.field path] := by rw [← hs, join_segments]

/-- Whether no segment of a path is a position, the first one included. -/
def isPlain (path : String) : Bool := !(segments path).any isPosition

theorem not_isPositional_of_isPlain {path : String} (h : isPlain path = true) :
    isPositional path = false := by
  obtain ⟨s, rest, hs⟩ := exists_segments_eq path
  rw [isPlain, hs, List.any_cons, Bool.not_or, Bool.and_eq_true] at h
  rw [isPositional, hs, List.tail_cons]
  simpa using h.2

theorem head_of_isPlain {path : String} (h : isPlain path = true) :
    (segments path).head?.any isPosition = false := by
  obtain ⟨s, rest, hs⟩ := exists_segments_eq path
  rw [isPlain, hs, List.any_cons, Bool.not_or, Bool.and_eq_true] at h
  rw [hs, List.head?_cons]
  simpa using h.1

variable {parent name i : String}

/-- Below a path without positions, positions are those of the name, unless it starts with one. -/
theorem isPositional_below (hp : isPositional parent = false)
    (hn : (segments name).head?.any isPosition = false) :
    isPositional (below parent name) = isPositional name := by
  obtain ⟨p, ps, hps⟩ := exists_segments_eq parent
  obtain ⟨n, ns, hns⟩ := exists_segments_eq name
  rw [isPositional, hps, List.tail_cons] at hp
  rw [hns] at hn
  have hn : isPosition n = false := hn
  rw [isPositional, isPositional, segments_below, hps, hns, List.cons_append, List.tail_cons,
    List.tail_cons, List.any_append, hp, List.any_cons, hn, Bool.false_or, Bool.false_or]

/-- The steps of a path below one without positions are those of the name, with the path above
before the first name. -/
theorem steps_below (hp : isPositional parent = false)
    (hn : (segments name).head?.any isPosition = false) :
    ∃ head rest, steps name = .field head :: rest ∧
      steps (below parent name) = .field (below parent head) :: rest := by
  obtain ⟨p, ps, hps⟩ := exists_segments_eq parent
  obtain ⟨n, ns, hns⟩ := exists_segments_eq name
  rw [isPositional, hps, List.tail_cons] at hp
  rw [hns] at hn
  have first : [n].any isPosition = false := by simpa using hn
  obtain ⟨head, rest, here, under⟩ :=
    stepsAfter_below (segments_ne_nil parent) ns [n] (by simp)
  refine ⟨head, rest, ?_, ?_⟩
  · rw [steps, hns]
    exact here
  · -- neither the other segments above nor the first one of the name end the run
    have gathered : stepsAfter [p] (ps ++ n :: ns) = stepsAfter (segments parent ++ [n]) ns :=
      calc stepsAfter [p] (ps ++ n :: ns)
          = stepsAfter ([p] ++ ps) ([n] ++ ns) := stepsAfter_append ps [p] (n :: ns) hp
        _ = stepsAfter ([p] ++ ps ++ [n]) ns := stepsAfter_append [n] ([p] ++ ps) ns first
        _ = stepsAfter (segments parent ++ [n]) ns := by rw [hps, List.singleton_append]
    rw [steps, segments_below, hps, hns]
    rw [join_segments] at under
    exact gathered.trans under

/-! ### Steps of a path below a position -/

/-- A position is one segment. -/
theorem segments_of_isPosition (h : isPosition i = true) : segments i = [i] := by
  apply segments_of_not_mem
  intro dot
  rcases Bool.or_eq_true_iff.1 h with sign | digits
  · rw [of_decide_eq_true sign] at dot
    exact absurd dot (by decide)
  · have digit := List.all_eq_true.1 (Bool.and_eq_true_iff.1 digits).2 '.' dot
    exact absurd digit (by decide)

theorem segments_element (hi : isPosition i = true) :
    segments (below parent (below i name)) = segments parent ++ i :: segments name := by
  rw [segments_below, segments_below, segments_of_isPosition hi, List.singleton_append]

theorem isPositional_element (hi : isPosition i = true) :
    isPositional (below parent (below i name)) = true := by
  obtain ⟨p, ps, hps⟩ := exists_segments_eq parent
  rw [isPositional, segments_element hi, hps, List.cons_append, List.tail_cons, List.any_append,
    List.any_cons, hi]
  simp

/-- Below a position, a path goes on with the steps of the rest, unless this starts with a position
as well. -/
theorem steps_element (hp : isPositional parent = false) (hi : isPosition i = true)
    (hn : (segments name).head?.any isPosition = false) :
    steps (below parent (below i name)) = .field parent :: .position :: steps name := by
  obtain ⟨p, ps, hps⟩ := exists_segments_eq parent
  obtain ⟨n, ns, hns⟩ := exists_segments_eq name
  rw [isPositional, hps, List.tail_cons] at hp
  have first : isPosition n = false := by simpa [hns] using hn
  have run : stepOfRun (p :: ps) = [.field parent] := by
    show [Step.field (join (p :: ps))] = [.field parent]
    rw [← hps, join_segments]
  calc steps (below parent (below i name))
      = stepsAfter [p] (ps ++ i :: segments name) := by rw [steps, segments_element hi, hps]; rfl
    _ = stepsAfter (p :: ps) (i :: segments name) := stepsAfter_append ps [p] _ hp
    _ = stepOfRun (p :: ps) ++ .position :: stepsAfter [] (segments name) := by
        rw [stepsAfter, if_pos hi]
    _ = .field parent :: .position :: stepsAfter [] (n :: ns) := by rw [run, hns]; rfl
    _ = .field parent :: .position :: steps name := by
        rw [stepsAfter, first, steps, hns]
        rfl

end DocSchema.Path
