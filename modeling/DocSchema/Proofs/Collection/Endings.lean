import DocSchema.Collection.Plural

/-!
# What a plural keeps of a word

A plural rewrites the end of a word. All rules but one replace at most the last four characters and
keep what is in front of them (`KeepsFront`). The exception is the rule for words like `matrix`: its
stems count wherever they stand, so it may rewrite the middle of a word, and the first place where
one stands is rewritten (`firstWithin_eq_some`). These are the only words whose front is lost
(`front_prefix_pluralize_iff`).
-/

namespace DocSchema.Collection

/-- A word without its last four characters. -/
def front (cs : List Char) : List Char := cs.take (cs.length - 4)

theorem front_prefix_self (cs : List Char) : front cs <+: cs := List.take_prefix _ cs

/-- Where at most four characters are replaced at the end, the front is kept. -/
theorem front_prefix_of_short (kept added : List Char) {dropped : List Char}
    (short : dropped.length ≤ 4) : front (kept ++ dropped) <+: kept ++ added := by
  have within : (kept ++ dropped).length - 4 ≤ kept.length := by
    rw [List.length_append]
    omega
  rw [front, List.take_append_of_le_length within]
  exact (List.take_prefix _ kept).trans (List.prefix_append kept added)

/-! ### Conditions on characters -/

/-- A text starts with a fixed word if it does so when case is disregarded. -/
theorem startsLike_exactly (word : String) (cs : List Char) :
    startsLike (exactly word) cs = true ↔ word.toList <+: cs.map foldCase := by
  unfold exactly
  induction word.toList generalizing cs with
  | nil => simp [startsLike]
  | cons letter letters ih =>
    cases cs with
    | nil => simp [startsLike]
    | cons c cs =>
      rw [List.map_cons, List.map_cons, startsLike, Bool.and_eq_true, ih, List.cons_prefix_cons]
      simp [CharTest.accepts, eq_comm]

namespace PluralRule

/-! ### Rules that keep the front -/

/-- Whether a rule keeps all but the last four characters of the words it applies to. -/
def KeepsFront (rule : PluralRule) : Prop := ∀ cs out, rule cs = some out → front cs <+: out

theorem keepsFront_ending (stems : List (List CharTest)) {dropped : String} (added : String)
    (short : dropped.length ≤ 4) : KeepsFront (ending stems dropped added) := by
  intro cs out run
  unfold ending at run
  split at run
  · cases run
    have end_short : (cs.drop (cs.length - dropped.length)).length ≤ 4 := by
      rw [List.length_drop]
      omega
    have kept := front_prefix_of_short (cs.take (cs.length - dropped.length)) added.toList end_short
    rwa [List.take_append_drop] at kept
  · cases run

theorem keepsFront_whole (word added : String) : KeepsFront (whole word added) := by
  intro cs out run
  unfold whole at run
  split at run
  · cases run
    exact (front_prefix_self cs).trans (List.prefix_append cs _)
  · cases run

theorem keepsFront_keepUnlessLetter : KeepsFront keepUnlessLetter := by
  intro cs out run
  unfold keepUnlessLetter at run
  split at run
  · split at run
    · cases run
    · cases run
      exact front_prefix_self cs
  · cases run

theorem KeepsFront.orElse {first second : PluralRule} (h : KeepsFront first)
    (h' : KeepsFront second) : KeepsFront (first.orElse second) := by
  intro cs out run
  rcases Option.or_eq_some_iff.1 run with one | ⟨-, two⟩
  · exact h cs out one
  · exact h' cs out two

/-! ### The rule that looks within a word -/

/-- The stems that the rule for `matrix`, `vertex` and `index` looks for. -/
def innerStems : List String := ["matr", "vert", "ind"]

/-- Where a stem is found within a word, the letters behind it are replaced. -/
theorem firstWithin_eq_some {stems : List String} {dropped added : String} :
    ∀ {cs out : List Char}, firstWithin stems dropped added cs = some out →
      ∃ before stem rest, stem ∈ stems ∧ cs = before ++ rest ∧
        (stem ++ dropped).toList <+: rest.map foldCase ∧
        out = before ++ rest.take stem.length ++ added.toList ++
          rest.drop (stem.length + dropped.length)
  | [], out, run => by cases run
  | c :: cs, out, run => by
    rw [firstWithin] at run
    split at run
    · next stem found =>
      cases run
      have starts := List.find?_some found
      exact ⟨[], stem, c :: cs, List.mem_of_find?_eq_some found, rfl,
        (startsLike_exactly _ _).1 starts, rfl⟩
    · obtain ⟨rest_out, later, rfl⟩ := Option.map_eq_some_iff.1 run
      obtain ⟨before, stem, rest, known, rfl, starts, rfl⟩ := firstWithin_eq_some later
      exact ⟨c :: before, stem, rest, known, rfl, starts, rfl⟩

/-- A stem and the letters `ix` in a word, as the rule for `matrix` finds them. -/
structure InnerIx (cs before stem : List Char) (i x : Char) (after : List Char) : Prop where
  word : cs = before ++ stem ++ i :: x :: after
  isStem : stem.map foldCase ∈ innerStems.map String.toList
  isI : foldCase i = 'i'
  isX : foldCase x = 'x'

/-- What the rule for `matrix` makes of a word that holds one of its stems. -/
theorem innerIx_of_firstWithin {cs out : List Char}
    (run : firstWithin innerStems "ix" "ices" cs = some out) :
    ∃ before stem i x after, InnerIx cs before stem i x after ∧
      out = before ++ stem ++ "ices".toList ++ after := by
  obtain ⟨before, stem, rest, known, rfl, ⟨others, starts⟩, rfl⟩ := firstWithin_eq_some run
  have ix : "ix".toList = ['i', 'x'] := by decide
  rw [String.toList_append, List.append_assoc, ix] at starts
  obtain ⟨found, tail, rfl, isStem, isTail⟩ := List.map_eq_append_iff.1 starts.symm
  obtain ⟨i, tail, rfl, isI, isTail⟩ := List.map_eq_cons_iff.1 isTail
  obtain ⟨x, after, rfl, isX, -⟩ := List.map_eq_cons_iff.1 isTail
  have same : stem.length = found.length := by
    rw [← String.length_toList, ← isStem, List.length_map]
  refine ⟨before, found, i, x, after, ⟨by simp, ?_, isI, isX⟩, ?_⟩
  · rw [isStem]
    exact List.mem_map_of_mem known
  · have two : "ix".length = 2 := by decide
    rw [same, two, List.take_left, ← List.drop_drop, List.drop_left]
    rfl

/-- The front of a word that is rewritten within is kept, unless the letters that are replaced reach
into it: then an `x`, or a capital letter, is missed in the plural. -/
theorem InnerIx.front_prefix_iff {cs before stem after : List Char} {i x : Char}
    (h : InnerIx cs before stem i x after) :
    front cs <+: before ++ stem ++ "ices".toList ++ after ↔
      ¬ (3 < after.length ∨ after.length = 3 ∧ i ≠ 'i') := by
  obtain ⟨rfl, -, -, isX⟩ := h
  have not_c : x ≠ 'c' := by
    rintro rfl
    exact absurd isX (by decide)
  have ices : "ices".toList = ['i', 'c', 'e', 's'] := by decide
  by_cases short : after.length ≤ 2
  · have end_short : (i :: x :: after).length ≤ 4 := by
      rw [List.length_cons, List.length_cons]
      omega
    have kept := front_prefix_of_short (before ++ stem) ("ices".toList ++ after) end_short
    rw [← List.append_assoc] at kept
    exact iff_of_true kept (by omega)
  · -- the letters of the front behind the stem are compared with those that replace them
    obtain ⟨k, hk⟩ := Nat.exists_eq_add_of_le' (Nat.lt_of_not_le short)
    have reach : (before ++ stem ++ i :: x :: after).length - 4 =
        (before ++ stem).length + (k + 1) := by
      simp only [List.length_append, List.length_cons]
      omega
    rw [front, reach, List.take_length_add_append, List.append_assoc (before ++ stem),
      List.prefix_append_right_inj, ices, List.take_succ_cons, List.cons_append,
      List.cons_prefix_cons]
    cases k with
    | zero => simp [hk]
    | succ k => simp [not_c, hk]

/-! ### The table of rules -/

def inner : PluralRule := orElse (firstWithin innerStems "ix" "ices") (ending [[]] "ex" "ices")

/-- Every rule but one keeps the front. -/
theorem keepsFront_or_inner : ∀ rule ∈ all, KeepsFront rule ∨ rule = inner := by
  simp only [all, List.forall_mem_cons]
  and_intros
  -- one lemma for each sort of rule
  all_goals first
    | exact .inl (keepsFront_ending _ _ (by decide))
    | exact .inl (keepsFront_whole _ _)
    | exact .inl ((keepsFront_ending _ _ (by decide)).orElse (keepsFront_ending _ _ (by decide)))
    | exact .inl keepsFront_keepUnlessLetter
    | exact .inr rfl
    | exact List.forall_mem_nil _

/-- What the rule for `matrix` leaves of a word: the front, or a word rewritten within. -/
theorem inner_eq_some {cs out : List Char} (run : inner cs = some out) :
    front cs <+: out ∨ ∃ before stem i x after, InnerIx cs before stem i x after ∧
      out = before ++ stem ++ "ices".toList ++ after := by
  rcases Option.or_eq_some_iff.1 run with within | ⟨-, ending⟩
  · exact .inr (innerIx_of_firstWithin within)
  · exact .inl (keepsFront_ending _ _ (by decide) cs out ending)

end PluralRule

open PluralRule

/-- The plural of a word keeps its front, or rewrites the word within. -/
theorem plural_cases (cs : List Char) :
    front cs <+: plural cs ∨ ∃ before stem i x after, InnerIx cs before stem i x after ∧
      plural cs = before ++ stem ++ "ices".toList ++ after := by
  unfold plural
  split
  · exact .inl (front_prefix_self cs)
  · cases first : PluralRule.all.findSome? (· cs) with
    | none => exact .inl (front_prefix_self cs)
    | some out =>
      obtain ⟨rule, known, run⟩ := List.exists_of_findSome?_eq_some first
      rcases keepsFront_or_inner rule known with keeps | rfl
      · exact .inl (keeps cs out run)
      · exact inner_eq_some run

/-- The plural of a word keeps all but the last four characters, unless it replaces the letters `ix`
behind one of three stems within the word and these are no part of the last four. -/
theorem front_prefix_pluralize_iff (word : String) :
    front word.toList <+: (pluralize word).toList ↔
      ¬ ∃ before stem i x after, InnerIx word.toList before stem i x after ∧
        (3 < after.length ∨ after.length = 3 ∧ i ≠ 'i') ∧
        (pluralize word).toList = before ++ stem ++ "ices".toList ++ after := by
  rw [pluralize, String.toList_ofList]
  constructor
  · rintro kept ⟨before, stem, i, x, after, inner, far, same⟩
    rw [same] at kept
    exact inner.front_prefix_iff.1 kept far
  · intro never
    rcases plural_cases word.toList with kept | ⟨before, stem, i, x, after, inner, same⟩
    · exact kept
    · rw [same]
      exact inner.front_prefix_iff.2 fun far => never ⟨before, stem, i, x, after, inner, far, same⟩

/-- A word with a stem in its middle is rewritten there, and all that follows is left as it is. -/
theorem matrixform_rewritten : pluralize "matrixform" = "matricesform" ∧
    ¬ front "matrixform".toList <+: (pluralize "matrixform").toList := by
  decide +kernel

end DocSchema.Collection
