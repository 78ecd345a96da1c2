import DocSchema.Path.Segments

/-!
# Paths and their segments

A path below another one is the other path, a dot and a name (`isBelow_iff`); in segments, it is a
proper extension (`isBelow_iff_segments`). So the order of paths can be reasoned about as the prefix
order of lists, and the two views are kept in step by `segments_below` and `join_append`. The
ancestors of a path are the paths that it lies below (`mem_ancestors`).
-/

namespace DocSchema.Path

/-! ### Splitting and joining -/

theorem splitChars_append_dot (a b : List Char) :
    splitChars (a ++ '.' :: b) = splitChars a ++ splitChars b := by
  induction a with
  | nil => simp [splitChars]
  | cons c a ih =>
    rw [List.cons_append, splitChars, splitChars, ih]
    split
    · rfl
    · cases hs : splitChars a with
      | nil => exact absurd hs (splitChars_ne_nil a)
      | cons s ss => rfl

/-- The segments of a path below another one are those of both, one after the other. -/
theorem segments_below (parent name : String) :
    segments (below parent name) = segments parent ++ segments name := by
  simp [segments, below, splitChars_append_dot]

theorem segments_ne_nil (path : String) : segments path ≠ [] := by
  simp [segments, splitChars_ne_nil]

/-- A path is determined by its segments. -/
theorem segments_injective {a b : String} (h : segments a = segments b) : a = b := by
  rw [← join_segments a, ← join_segments b, h]

theorem joinChars_append :
    ∀ xs ys : List (List Char), xs ≠ [] → ys ≠ [] →
      joinChars (xs ++ ys) = joinChars xs ++ '.' :: joinChars ys
  | [], _, h, _ => absurd rfl h
  | [x], y :: ys, _, _ => rfl
  | x :: x' :: xs, ys, _, hy => by
    have ih := joinChars_append (x' :: xs) ys (by simp) hy
    calc joinChars (x :: (x' :: xs ++ ys))
        = x ++ '.' :: joinChars (x' :: xs ++ ys) := rfl
      _ = x ++ '.' :: (joinChars (x' :: xs) ++ '.' :: joinChars ys) := by rw [ih]
      _ = joinChars (x :: x' :: xs) ++ '.' :: joinChars ys := by simp [joinChars]

/-- Joining two runs of segments puts the second one below the first one. -/
theorem join_append {xs ys : List String} (hx : xs ≠ []) (hy : ys ≠ []) :
    join (xs ++ ys) = below (join xs) (join ys) := by
  have h := joinChars_append (xs.map String.toList) (ys.map String.toList)
    (by simpa using hx) (by simpa using hy)
  apply String.toList_inj.1
  simp [join, below, h]

/-- A text without a dot is one segment. -/
theorem splitChars_of_not_mem {cs : List Char} (h : '.' ∉ cs) : splitChars cs = [cs] := by
  induction cs with
  | nil => rfl
  | cons c cs ih =>
    obtain ⟨hc, hcs⟩ := List.ne_and_not_mem_of_not_mem_cons h
    rw [splitChars, if_neg (Ne.symm hc), ih hcs]

theorem segments_of_not_mem {name : String} (h : '.' ∉ name.toList) : segments name = [name] := by
  simp [segments, splitChars_of_not_mem h]

@[simp] theorem join_singleton (name : String) : join [name] = name := by simp [join, joinChars]

/-- Splitting gives back the segments that were joined, as long as none of them holds a dot. -/
theorem segments_join :
    ∀ names : List String, names ≠ [] → (∀ n ∈ names, '.' ∉ n.toList) →
      segments (join names) = names
  | [], h, _ => absurd rfl h
  | [n], _, h => by
    rw [join_singleton, segments_of_not_mem (h n (by simp))]
  | n :: m :: names, _, h => by
    have ih := segments_join (m :: names) (by simp) fun k hk => h k (by simp [hk])
    have split : join (n :: m :: names) = below (join [n]) (join (m :: names)) :=
      join_append (List.cons_ne_nil n []) (List.cons_ne_nil m names)
    rw [split, segments_below, join_singleton, segments_of_not_mem (h n (by simp)), ih]
    rfl

/-! ### The order of paths -/

/-- A path lies below another one where it continues it with a dot. -/
theorem isBelow_iff {parent path : String} :
    isBelow parent path = true ↔ ∃ name, path = below parent name := by
  rw [isBelow, List.isPrefixOf_iff_prefix]
  constructor
  · rintro ⟨rest, h⟩
    refine ⟨String.ofList rest, String.toList_inj.1 ?_⟩
    simp [below, ← h]
  · rintro ⟨name, rfl⟩
    exact ⟨name.toList, by simp [below]⟩

theorem isBelow_below (parent name : String) : isBelow parent (below parent name) = true :=
  isBelow_iff.2 ⟨name, rfl⟩

theorem below_inj {parent a b : String} : below parent a = below parent b ↔ a = b := by
  constructor
  · intro h
    have := congrArg segments h
    rw [segments_below, segments_below] at this
    exact segments_injective (List.append_cancel_left this)
  · rintro rfl
    rfl

theorem below_assoc (a b c : String) : below (below a b) c = below a (below b c) := by
  apply segments_injective
  simp only [segments_below, List.append_assoc]

/-- A path lies below another one where it has further segments after those of the other one. -/
theorem isBelow_iff_segments {parent path : String} :
    isBelow parent path = true ↔ ∃ rest, rest ≠ [] ∧ segments path = segments parent ++ rest := by
  rw [isBelow_iff]
  constructor
  · rintro ⟨name, rfl⟩
    exact ⟨segments name, segments_ne_nil name, segments_below parent name⟩
  · rintro ⟨rest, hr, h⟩
    refine ⟨join rest, ?_⟩
    rw [← join_segments path, h, join_append (segments_ne_nil parent) hr, join_segments]

theorem isBelow_trans {a b c : String} (hab : isBelow a b = true) (hbc : isBelow b c = true) :
    isBelow a c = true := by
  obtain ⟨m, rfl⟩ := isBelow_iff.1 hab
  obtain ⟨n, rfl⟩ := isBelow_iff.1 hbc
  rw [below_assoc]
  exact isBelow_below a (below m n)

/-- Of two paths above one and the same path, one lies above the other or they are equal. -/
theorem isBelow_trichotomy {a b path : String} (ha : isBelow a path = true)
    (hb : isBelow b path = true) : a = b ∨ isBelow a b = true ∨ isBelow b a = true := by
  obtain ⟨r, -, hr⟩ := isBelow_iff_segments.1 ha
  obtain ⟨r', -, hr'⟩ := isBelow_iff_segments.1 hb
  have hp : segments a <+: segments path := ⟨r, hr.symm⟩
  have hq : segments b <+: segments path := ⟨r', hr'.symm⟩
  rcases List.prefix_or_prefix_of_prefix hp hq with ⟨t, ht⟩ | ⟨t, ht⟩
  · cases t with
    | nil => exact .inl (segments_injective (by simpa using ht))
    | cons x t => exact .inr (.inl (isBelow_iff_segments.2 ⟨x :: t, by simp, ht.symm⟩))
  · cases t with
    | nil => exact .inl (segments_injective (by simpa using ht.symm))
    | cons x t => exact .inr (.inr (isBelow_iff_segments.2 ⟨x :: t, by simp, ht.symm⟩))

/-- Two different paths of which neither lies below the other have nothing below both. -/
theorem below_ne_below {a b : String} (hab : isBelow a b = false) (hba : isBelow b a = false)
    (hne : a ≠ b) (m n : String) : below a m ≠ below b n := by
  intro h
  have hb : isBelow b (below a m) = true := h ▸ isBelow_below b n
  rcases isBelow_trichotomy (isBelow_below a m) hb with h | h | h
  · exact hne h
  · rw [hab] at h; cases h
  · rw [hba] at h; cases h

/-! ### Ancestors -/

/-- The ancestors after some segments are cut off at a dot that comes later. -/
theorem mem_ancestorsAfter {a : String} :
    ∀ rest done : List String, a ∈ ancestorsAfter done rest ↔
      ∃ taken left, taken ≠ [] ∧ left ≠ [] ∧ rest = taken ++ left ∧ a = join (done ++ taken)
  | [], done => by
    rw [ancestorsAfter]
    refine ⟨fun h => absurd h List.not_mem_nil, ?_⟩
    rintro ⟨taken, left, some, -, none, -⟩
    exact absurd (List.append_eq_nil_iff.1 none.symm).1 some
  | [s], done => by
    rw [ancestorsAfter]
    refine ⟨fun h => absurd h List.not_mem_nil, ?_⟩
    rintro ⟨taken, left, some, more, one, -⟩
    have short := congrArg List.length one
    have := List.length_pos_iff.2 some
    have := List.length_pos_iff.2 more
    rw [List.length_append, List.length_singleton] at short
    omega
  | s :: s' :: rest, done => by
    show a ∈ join (done ++ [s]) :: ancestorsAfter (done ++ [s]) (s' :: rest) ↔ _
    rw [List.mem_cons, mem_ancestorsAfter (s' :: rest) (done ++ [s])]
    constructor
    · rintro (rfl | ⟨taken, left, -, more, same, rfl⟩)
      · exact ⟨[s], s' :: rest, by simp, by simp, rfl, rfl⟩
      · exact ⟨s :: taken, left, by simp, more, by rw [same, List.cons_append], by simp⟩
    · rintro ⟨taken, left, some, more, same, rfl⟩
      cases taken with
      | nil => exact absurd rfl some
      | cons first taken =>
        obtain ⟨rfl, others⟩ := List.cons.inj same
        cases taken with
        | nil => exact .inl rfl
        | cons next taken => exact .inr ⟨next :: taken, left, by simp, more, others, by simp⟩

/-- The ancestors of a path are the paths that it lies below. -/
theorem mem_ancestors {a path : String} : a ∈ ancestors path ↔ isBelow a path = true := by
  rw [ancestors, mem_ancestorsAfter]
  constructor
  · rintro ⟨taken, left, some, more, same, rfl⟩
    refine isBelow_iff.2 ⟨join left, ?_⟩
    rw [← join_segments path, same, join_append some more, List.nil_append]
  · intro above
    obtain ⟨left, more, same⟩ := isBelow_iff_segments.1 above
    exact ⟨segments a, left, segments_ne_nil a, more, same, (join_segments a).symm⟩

/-! ### Paths that lie apart -/

/-- Whether two paths lie apart: they differ, and neither lies below the other one. -/
structure Apart (a b : String) : Prop where
  ne : a ≠ b
  not_below : isBelow a b = false
  not_above : isBelow b a = false

namespace Apart

variable {a b : String}

theorem symm (h : Apart a b) : Apart b a := ⟨h.ne.symm, h.not_above, h.not_below⟩

theorem segments_apart (h : Apart a b) : ¬ segments a <+: segments b := by
  rintro ⟨rest, continues⟩
  cases rest with
  | nil => exact h.ne (segments_injective (by simpa using continues))
  | cons s rest =>
    have below := isBelow_iff_segments.2 ⟨s :: rest, by simp, continues.symm⟩
    rw [h.not_below] at below
    cases below

/-- Nothing lies below both of them. -/
theorem not_below_both (h : Apart a b) (path : String) :
    ¬ (isBelow a path = true ∧ isBelow b path = true) := by
  rintro ⟨ha, hb⟩
  obtain ⟨m, rfl⟩ := isBelow_iff.1 ha
  obtain ⟨n, same⟩ := isBelow_iff.1 hb
  exact below_ne_below h.not_below h.not_above h.ne m n same

end Apart

end DocSchema.Path
