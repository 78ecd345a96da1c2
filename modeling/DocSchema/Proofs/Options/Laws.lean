import DocSchema.Document.Memory
import DocSchema.Proofs.Options.Written
import DocSchema.Schema.Call

/-!
# Setting and reading options

To set an option is to write down all options, to put the value under its name and to read the whole
again (`set_eq_load`), but for two options that are set in place. For options that stand apart from
one another this comes to storing the value alone (`load_insert`). What is kept of a value is its
normal form (`normal?`), and every other option stays as it was (`SetTo`). One thing gets lost on
the way: a `safe` that is null is written down, but is read as unset, so it goes with the next
option that is set.

Options that were read and set are read back from their written form as they were.
-/

namespace DocSchema

variable {o o' base : Options} {k k' : OptionKey} {name : String} {v w : Json}

/-! ### The normal form of a value -/

/-- What an option shows once it was set to a value: the value itself, mostly, and nothing where
null unsets it. The outer `none` is for a value that the option cannot have. -/
def OptionKey.normal? (k : OptionKey) (v : Json) : Option (Option Json) :=
  match k, v with
  | .strict, .bool _ | .minimize, .bool _ | .validateBeforeSave, .bool _ => some (some v)
  | .idField, .bool _ | .idVirtual, .bool _ => some (some v)
  | .typeKey, .str _ | .versionKey, .str _ | .discriminatorKey, .str _ => some (some v)
  | .timestamps, .bool false => some (some (.bool false))
  | .timestamps, .bool true =>
    some (some (.obj [("createdAt", .str "createdAt"), ("updatedAt", .str "updatedAt")]))
  | .timestamps, .obj fields =>
    match Timestamps.fieldName? fields "createdAt", Timestamps.fieldName? fields "updatedAt" with
    | some created, some updated =>
      some (some (.obj [("createdAt", .str created), ("updatedAt", .str updated)]))
    | _, _ => none
  | .autoIndex, .null | .collection, .null | .read, .null | .pluralization, .null => some none
  | .autoIndex, .bool _ | .pluralization, .bool _ | .collection, .str _ => some (some v)
  | .read, .str name => (ReadPreference.ofName? name).map fun p => some (.str p.name)
  | .safe, .bool false => some (some (.obj [("w", .int 0)]))
  | .safe, v => some (some v)
  | _, _ => none

/-- The same for any name. An option without a place of its own keeps every value. -/
def Options.normal? (name : String) (v : Json) : Option (Option Json) :=
  match OptionKey.ofName? name with
  | some k => k.normal? v
  | none => some (some v)

namespace Options

/-! ### What storing a value changes -/

/-- What an option shows after a value was read into its place. -/
def stored (k : OptionKey) (v : Json) : Except LoadError (Option Json) :=
  (({} : Options).store k v).map (·.shown k)

/-- Whether options show something at one option and are as they were everywhere else. -/
structure Changed (k : OptionKey) (r : Option Json) (o o' : Options) : Prop where
  own : o'.shown k = r
  others : ∀ k', k' ≠ k → o'.shown k' = o.shown k'
  extra : o'.extra = o.extra

theorem Changed.safe (o : Options) (r : Option Json) :
    Changed .safe r o { o with safe := r } := by
  refine ⟨rfl, fun k' apart => ?_, rfl⟩
  cases k' <;> first | rfl | exact absurd rfl apart

theorem Changed.read (o : Options) (p : Option ReadPreference) :
    Changed .read (p.map fun p => .str p.name) o { o with read := p } := by
  refine ⟨rfl, fun k' apart => ?_, rfl⟩
  cases k' <;> first | rfl | exact absurd rfl apart

/-- Reading a value into the place of one option fails for the value alone, and changes nothing
else. -/
theorem store_cases (o : Options) (k : OptionKey) (v : Json) :
    (∃ e, stored k v = .error e ∧ o.store k v = .error e) ∨
    ∃ r o', stored k v = .ok r ∧ o.store k v = .ok o' ∧ Changed k r o o' := by
  have split {α : Type} {x : Except LoadError α} {f f₀ : α → Options}
      (stores : o.store k v = x.map f) (stores₀ : ({} : Options).store k v = x.map f₀)
      (changed : ∀ a, Changed k ((f₀ a).shown k) o (f a)) :
      (∃ e, stored k v = .error e ∧ o.store k v = .error e) ∨
      ∃ r o', stored k v = .ok r ∧ o.store k v = .ok o' ∧ Changed k r o o' := by
    unfold stored
    rw [stores, stores₀]
    cases x with
    | error e => exact .inl ⟨e, rfl, rfl⟩
    | ok a => exact .inr ⟨_, f a, rfl, rfl, changed a⟩
  cases k <;> refine split rfl rfl fun _ => ⟨rfl, ?_, rfl⟩
  all_goals
    intro k' apart
    cases k' <;> first | rfl | exact absurd rfl apart

/-- Options that show the same are the same. -/
theorem eq_of_shown (shown : ∀ k, o.shown k = o'.shown k) (extra : o.extra = o'.extra) :
    o = o' := by
  have taken : ∀ (base : Options) k, base.takeOver o k = base.takeOver o' k := by
    intro base k
    have read := store_shown base o k
    have read' := store_shown base o' k
    rw [shown k] at read
    cases h : o'.shown k with
    | none =>
      rw [h] at read read'
      exact read.trans read'.symm
    | some v =>
      rw [h] at read read'
      exact Except.ok.inj (read.symm.trans read')
  have safe : o.safe = o'.safe := shown .safe
  have all : ({ o.dropNullSafe with extra := [] } : Options) =
      { o'.dropNullSafe with extra := [] } := by
    rw [← foldl_takeOver o, ← foldl_takeOver o']
    congr
    funext base k
    exact taken base k
  -- a `safe` that is null is the one thing that taking over does not see
  rcases o with ⟨_⟩
  rcases o' with ⟨_⟩
  simp only at safe extra
  subst safe extra
  unfold dropNullSafe at all
  split at all <;> simp_all

theorem Changed.unique {r : Option Json} {o₁ o₂ : Options} (h₁ : Changed k r o o₁)
    (h₂ : Changed k r o o₂) : o₁ = o₂ := by
  refine eq_of_shown (fun k' => ?_) (h₁.extra.trans h₂.extra.symm)
  by_cases same : k' = k
  · rw [same, h₁.own, h₂.own]
  · rw [h₁.others k' same, h₂.others k' same]

theorem store_ok_iff :
    o.store k v = .ok o' ↔ ∃ r, stored k v = .ok r ∧ Changed k r o o' := by
  obtain ⟨e, bad, failed⟩ | ⟨r, o₁, good, done, changed⟩ := store_cases o k v
  · simp [bad, failed]
  · rw [good, done]
    constructor
    · rintro ⟨⟩
      exact ⟨r, rfl, changed⟩
    · rintro ⟨_, ⟨⟩, changed'⟩
      rw [changed.unique changed']

theorem store_error_iff {e : LoadError} : o.store k v = .error e ↔ stored k v = .error e := by
  obtain ⟨e', bad, failed⟩ | ⟨r, o₁, good, done, -⟩ := store_cases o k v
  · rw [bad, failed]
    exact ⟨fun h => congrArg _ (Except.error.inj h), fun h => congrArg _ (Except.error.inj h)⟩
  · simp [good, done]

/-- Of two values that are read into one place, only the second one counts. -/
theorem store_store (first : o.store k w = .ok o') : o'.store k v = o.store k v := by
  obtain ⟨r, -, changed⟩ := store_ok_iff.1 first
  cases done : o'.store k v with
  | error e => exact (store_error_iff.2 (store_error_iff.1 done)).symm
  | ok o₂ =>
    obtain ⟨r', good, changed'⟩ := store_ok_iff.1 done
    refine (store_ok_iff.2 ⟨r', good, changed'.own, fun k' apart => ?_, ?_⟩).symm
    · rw [changed'.others k' apart, changed.others k' apart]
    · rw [changed'.extra, changed.extra]

/-- Values are read into two places in any order. -/
theorem store_comm (apart : k ≠ k') (first : o.store k w = .ok o') :
    o'.store k' v = (o.store k' v).bind (·.store k w) := by
  obtain ⟨r, good, changed⟩ := store_ok_iff.1 first
  cases done : o.store k' v with
  | error e => exact store_error_iff.2 (store_error_iff.1 done)
  | ok o₁ =>
    obtain ⟨r', good', changed'⟩ := store_ok_iff.1 done
    obtain ⟨e, bad, -⟩ | ⟨_, o₂, good₂, done₂, changed₂⟩ := store_cases o' k' v
    · cases bad.symm.trans good'
    cases good₂.symm.trans good'
    rw [done₂]
    refine (store_ok_iff.2 ⟨r, good, ?_, fun key other => ?_, ?_⟩).symm
    · rw [changed₂.others k apart, changed.own]
    · by_cases same : key = k'
      · rw [same, changed₂.own, changed'.own]
      · rw [changed₂.others key same, changed.others key other, changed'.others key same]
    · rw [changed₂.extra, changed.extra, changed'.extra]

/-! ### Setting an option in the written form -/

theorem store_takeOver (apart : k' ≠ k) :
    (base.takeOver o k').store k v = (base.store k v).map (·.takeOver o k') := by
  have read := fun b => store_shown b o k'
  cases shown : o.shown k' with
  | none =>
    simp only [shown] at read
    cases h : base.store k v <;> simp [Except.map, read, h]
  | some w =>
    simp only [shown] at read
    rw [store_comm apart (read base)]
    cases base.store k v with
    | error e => rfl
    | ok b => exact read b

theorem store_foldl_takeOver {ks : List OptionKey} (apart : k ∉ ks) :
    (ks.foldl (takeOver · o) base).store k v =
      (base.store k v).map fun b => ks.foldl (takeOver · o) b := by
  induction ks generalizing base with
  | nil => cases h : base.store k v <;> simp [Except.map, h]
  | cons k' ks ih =>
    obtain ⟨first, rest⟩ := List.ne_and_not_mem_of_not_mem_cons apart
    rw [List.foldl_cons, ih rest, store_takeOver first.symm]
    cases base.store k v <;> rfl

/-- To put a value in the place of one that is shown is to set the option after all of them. -/
theorem assignAll_insert_shownOf {ks : List OptionKey} (distinct : ks.Nodup) (there : k ∈ ks)
    (shown : o.shown k = some w) (rest : Table Json) :
    base.assignAll (Table.insert (o.shownOf ks) k.name v ++ rest) =
      ((ks.foldl (takeOver · o) base).store k v).bind (·.assignAll rest) := by
  induction ks generalizing base with
  | nil => cases there
  | cons k' ks ih =>
    obtain ⟨fresh, distinct⟩ := List.nodup_cons.1 distinct
    have read := store_shown base o k'
    rw [shownOf_cons, List.foldl_cons]
    by_cases same : k' = k
    · subst same
      rw [shown] at read ⊢
      -- the value that is written over does not matter
      rw [store_foldl_takeOver fresh, store_store read]
      simp only [Option.map_some, Option.toList_some, Table.insert, if_true,
        List.cons_append, assignAll, assign_name]
      cases base.store k' v with
      | error e => rfl
      | ok b => exact assignAll_shownOf b o ks rest
    · have later : k ∈ ks := by simpa [Ne.symm same] using there
      have names : k'.name ≠ k.name := fun h => same (OptionKey.name_inj h)
      cases shown' : o.shown k' with
      | none =>
        rw [shown'] at read
        rw [read]
        exact ih distinct later
      | some w' =>
        rw [shown'] at read
        simp only [Option.map_some, Option.toList_some, Table.insert,
          if_neg names, List.cons_append]
        rw [assignAll_cons_of_ok ((assign_name k' w').trans read)]
        exact ih distinct later

theorem shown_with_extra (o : Options) (extra : Table Json) (k : OptionKey) :
    ({ o with extra } : Options).shown k = o.shown k := by
  cases k <;> rfl

/-- The other options are out of the way of those with a place of their own. -/
theorem store_before_extra (o : Options) (k : OptionKey) (v : Json) (h : Plain o) :
    (({ o with extra := [] } : Options).store k v).bind (·.assignAll o.extra) = o.store k v := by
  obtain ⟨e, bad, failed⟩ | ⟨r, o₁, good, done, changed⟩ :=
    store_cases ({ o with extra := [] } : Options) k v
  · rw [failed]
    exact (store_error_iff.2 bad).symm
  · have empty : o₁.extra = [] := changed.extra
    have read : o₁.assignAll o.extra = .ok { o₁ with extra := o.extra } := by
      have distinct : (Table.keys (o₁.extra ++ o.extra)).Nodup := by rw [empty]; exact h.distinct
      have run := assignAll_unnamed o₁ [] h.unnamed distinct
      rw [List.append_nil, empty, List.nil_append] at run
      exact run
    rw [done]
    have changed' : Changed k r o { o₁ with extra := o.extra } := by
      refine ⟨?_, fun k' apart => ?_, rfl⟩
      · rw [shown_with_extra, changed.own]
      · rw [shown_with_extra, changed.others k' apart, shown_with_extra]
    exact read.trans (store_ok_iff.2 ⟨r, good, changed'⟩).symm

/-- To write an entry into the written form and read it again is to set the option, whatever its
name is. -/
theorem load_insert (h : Plain o) (name : String) (v : Json) :
    load (.obj (Table.insert o.fields name v)) = o.dropNullSafe.assign name v := by
  have parts := fields_eq h
  cases known : OptionKey.ofName? name with
  | none =>
    have absent : name ∉ Table.keys (o.shownOf OptionKey.all) := by
      intro there
      obtain ⟨k, -, rfl⟩ := exists_of_mem_keys_shownOf there
      cases known.symm.trans k.ofName?_name
    have unnamed : ∀ other ∈ Table.keys (Table.insert o.extra name v),
        OptionKey.ofName? other = none := by
      intro other there
      rcases Table.mem_keys_insert.1 there with rfl | there
      · exact known
      · exact h.unnamed other there
    have others := Table.nodup_keys_insert o.extra name v h.distinct
    have run := assignAll_unnamed ({ o.dropNullSafe with extra := [] } : Options) [] unnamed others
    rw [parts, Table.insert_append absent, load, assignAll_shownOf, foldl_takeOver,
      ← List.append_nil (Table.insert o.extra name v), run, assign, known, extra_dropNullSafe]
    rfl
  | some k =>
    obtain rfl := OptionKey.name_of_ofName? known
    cases shown : o.shown k with
    | none => exact load_insert_new h ((get_of_named h known).trans shown) v
    | some w =>
      have there : k.name ∈ Table.keys (o.shownOf OptionKey.all) := by
        rw [← Table.contains_iff_mem_keys, Table.contains_iff_get?]
        exact ⟨w, by rw [get?_shownOf, if_pos k.mem_all, shown]⟩
      rw [parts, Table.insert_append_of_mem there, load,
        assignAll_insert_shownOf (by decide) k.mem_all shown, foldl_takeOver, assign_name,
        ← store_before_extra o.dropNullSafe k v h.dropNullSafe, extra_dropNullSafe]

/-! ### Setting and reading -/

/-- What setting an option brings about, where the option shows `r` afterwards. A `safe` that is
null becomes unset when another option is set through the written form. -/
structure SetTo (o : Options) (name : String) (r : Option Json) (o' : Options) : Prop where
  own : o'.get name = r
  others : ∀ other, other ≠ name →
    (other = "safe" → name ≠ "read" → o.get "safe" ≠ some .null) → o'.get other = o.get other
  nullSafe : name ≠ "read" → name ≠ "safe" → o.get "safe" = some .null → o'.get "safe" = none

/-- The values that an option can have are those with a normal form, which is what it shows. -/
theorem stored_normal (read : k ≠ .read) (safe : k ≠ .safe) :
    (stored k v).toOption = k.normal? v := by
  cases k with
  | read => exact absurd rfl read
  | safe => exact absurd rfl safe
  | timestamps =>
    cases v with
    | bool b => cases b <;> rfl
    | obj fields =>
      simp only [stored, store, Timestamps.load, OptionKey.normal?, Timestamps.createdAt,
        Timestamps.updatedAt]
      cases Timestamps.fieldName? fields "createdAt" with
      | none => rfl
      | some created => cases Timestamps.fieldName? fields "updatedAt" <;> rfl
    | _ => rfl
  | _ => cases v <;> rfl

/-- What one option was changed to is what reading it gives, and reading any other gives what it
gave before. -/
theorem Changed.get {r : Option Json} (h : Changed k r o o') (plain : Plain o) (other : String) :
    o'.get other = if other = k.name then r else o.get other := by
  have plain' : Plain o' := plain.congr h.extra
  cases known : OptionKey.ofName? other with
  | none =>
    have apart : other ≠ k.name := by
      rintro rfl
      cases known.symm.trans k.ofName?_name
    rw [if_neg apart, get_of_unnamed plain' known, get_of_unnamed plain known, h.extra]
  | some k' =>
    rw [get_of_named plain' known, get_of_named plain known]
    split
    · next same =>
      cases known.symm.trans (same ▸ k.ofName?_name)
      exact h.own
    · next apart =>
      apply h.others
      rintro rfl
      exact apart (OptionKey.name_of_ofName? known).symm

theorem dropNullSafe_cases (h : Plain o) :
    (o.get "safe" ≠ some .null ∧ o.dropNullSafe = o) ∨
      (o.get "safe" = some .null ∧ Changed .safe none o o.dropNullSafe) := by
  have shows : o.get "safe" = o.safe := get_of_named h OptionKey.safe.ofName?_name
  rw [shows, dropNullSafe]
  split
  · next null => exact .inr ⟨null, .safe o none⟩
  · next kept => exact .inl ⟨kept, rfl⟩

section

variable {r : Option Json}

theorem setTo_in_place (either : name = "read" ∨ name = "safe")
    (changed : ∀ other, o'.get other = if other = name then r else o.get other) :
    SetTo o name r o' where
  own := by rw [changed, if_pos rfl]
  others other apart _ := by rw [changed, if_neg apart]
  nullSafe read safe _ := (either.elim read safe).elim

theorem setTo_written (plain : Plain o) (read : name ≠ "read") (safe : name ≠ "safe")
    (changed : ∀ other, o'.get other = if other = name then r else o.dropNullSafe.get other) :
    SetTo o name r o' where
  own := by rw [changed, if_pos rfl]
  others := by
    intro other apart kept
    rw [changed, if_neg apart]
    obtain ⟨-, same⟩ | ⟨null, dropped⟩ := dropNullSafe_cases plain
    · rw [same]
    · rw [dropped.get plain other, if_neg]
      rintro rfl
      exact kept rfl read null
  nullSafe := by
    intro _ _ null
    rw [changed, if_neg safe.symm]
    obtain ⟨kept, -⟩ | ⟨-, dropped⟩ := dropNullSafe_cases plain
    · exact absurd null kept
    · exact dropped.get plain "safe"

end

theorem setRead_cases (o : Options) (v : Json) :
    (OptionKey.read.normal? v = none ∧
      ∃ reason, o.setRead v = .error (.invalidOption "read" reason)) ∨
    ∃ r o', OptionKey.read.normal? v = some r ∧ o.setRead v = .ok o' ∧ Changed .read r o o' := by
  cases v with
  | null => exact .inr ⟨_, _, rfl, rfl, .read o none⟩
  | str name =>
    rw [OptionKey.normal?, setRead]
    cases ReadPreference.ofName? name with
    | none => exact .inl ⟨rfl, _, rfl⟩
    | some p => exact .inr ⟨_, _, rfl, rfl, .read o (some p)⟩
  | _ => exact .inl ⟨rfl, _, rfl⟩

theorem setSafe_changed (o : Options) (v : Json) :
    ∃ r, OptionKey.safe.normal? v = some r ∧ Changed .safe r o (o.setSafe v) := by
  cases v with
  | bool b =>
    cases b with
    | false => exact ⟨_, rfl, .safe o (some unacknowledged)⟩
    | true => exact ⟨_, rfl, .safe o _⟩
  | _ => exact ⟨_, rfl, .safe o _⟩

theorem set_of_other (read : name ≠ "read") (safe : name ≠ "safe") :
    o.set name v = o.setOther name v := by
  unfold set
  split
  · next h => exact absurd (OptionKey.name_of_ofName? h).symm read
  · next h => exact absurd (OptionKey.name_of_ofName? h).symm safe
  · rfl

theorem setOther_cases (h : Plain o) (v : Json) (read : k ≠ .read) (safe : k ≠ .safe) :
    (k.normal? v = none ∧ ∃ reason, o.setOther k.name v = .error (.invalidOption k.name reason)) ∨
    ∃ r o', k.normal? v = some r ∧ o.setOther k.name v = .ok o' ∧
      Changed k r o.dropNullSafe o' := by
  rw [← stored_normal read safe, setOther, load_insert h, assign_name]
  obtain ⟨e, bad, failed⟩ | ⟨r, o', good, done, changed⟩ := store_cases o.dropNullSafe k v
  · rw [bad, failed]
    exact .inl ⟨rfl, _, rfl⟩
  · rw [good, done]
    exact .inr ⟨r, o', rfl, rfl, changed⟩

theorem setOther_unnamed (h : Plain o) (v : Json) (known : OptionKey.ofName? name = none) :
    ∃ o', o.setOther name v = .ok o' ∧
      ∀ other, o'.get other = if other = name then some v else o.dropNullSafe.get other := by
  rw [setOther, load_insert h, assign, known]
  have plain : Plain { o.dropNullSafe with extra := Table.insert o.dropNullSafe.extra name v } :=
    h.dropNullSafe.assign (v := v) (by rw [assign, known])
  refine ⟨_, rfl, fun other => ?_⟩
  cases named : OptionKey.ofName? other with
  | none =>
    rw [get_of_unnamed plain named, get_of_unnamed h.dropNullSafe named]
    by_cases same : other = name
    · rw [if_pos same, same, Table.get?_insert_self]
    · rw [if_neg same, Table.get?_insert_of_ne _ _ same]
  | some k =>
    have apart : other ≠ name := by
      rintro rfl
      cases known.symm.trans named
    rw [if_neg apart, get_of_named plain named, get_of_named h.dropNullSafe named, shown_with_extra]

/-- Setting an option is refused exactly for the values without a normal form. -/
theorem set_cases (h : Plain o) (name : String) (v : Json) :
    (normal? name v = none ∧ ∃ reason, o.set name v = .error (.invalidOption name reason)) ∨
    ∃ r o', normal? name v = some r ∧ o.set name v = .ok o' ∧ SetTo o name r o' := by
  unfold normal?
  cases known : OptionKey.ofName? name with
  | none =>
    have read : name ≠ "read" := by
      rintro rfl
      cases known
    have safe : name ≠ "safe" := by
      rintro rfl
      cases known
    obtain ⟨o', done, gets⟩ := setOther_unnamed h v known
    exact .inr ⟨_, o', rfl, (set_of_other read safe).trans done, setTo_written h read safe gets⟩
  | some k =>
    obtain rfl := OptionKey.name_of_ofName? known
    by_cases read : k = .read
    · subst read
      obtain refused | ⟨r, o', accepted, done, changed⟩ := setRead_cases o v
      · exact .inl refused
      · exact .inr ⟨r, o', accepted, done, setTo_in_place (.inl rfl) (changed.get h)⟩
    by_cases safe : k = .safe
    · subst safe
      obtain ⟨r, accepted, changed⟩ := setSafe_changed o v
      exact .inr ⟨r, _, accepted, rfl, setTo_in_place (.inr rfl) (changed.get h)⟩
    have read' : k.name ≠ OptionKey.read.name := fun h => read (OptionKey.name_inj h)
    have safe' : k.name ≠ OptionKey.safe.name := fun h => safe (OptionKey.name_inj h)
    rw [set_of_other read' safe']
    obtain refused | ⟨r, o', accepted, done, changed⟩ := setOther_cases h v read safe
    · exact .inl refused
    · exact .inr ⟨r, o', accepted, done, setTo_written h read' safe' (changed.get h.dropNullSafe)⟩

/-- Setting another option is to write it into the written form and to read this again. -/
theorem set_eq_load (o : Options) (read : name ≠ "read") (safe : name ≠ "safe") (v : Json) :
    o.set name v = (load (.obj (Table.insert o.fields name v))).mapError
      fun e => .invalidOption name e.message := by
  rw [set_of_other read safe, setOther]
  cases load (.obj (Table.insert o.fields name v)) <;> rfl

end Options

open Options

/-- Setting an option of a schema either refuses the value and leaves the schema as it is, or makes
the option show the normal form of the value; the other options stay as they were, but for a `safe`
that is null. Reading and setting go by the written form of the options. -/
theorem Schema.setOption_lawful {δ : Type} (s : Schema δ) (given : s.options.Given) (name : String)
    (v : Json) :
    (normal? name v = none →
      ∃ reason, s.setOption name v = (s, .error (.invalidOption name reason))) ∧
    (∀ r, normal? name v = some r →
      ∃ o, s.setOption name v = ({ s with options := o }, .ok ()) ∧ SetTo s.options name r o) ∧
    s.options.get name = Table.get? s.options.fields name ∧
    (name ≠ "read" → name ≠ "safe" →
      s.options.set name v = (load (.obj (Table.insert s.options.fields name v))).mapError
        fun e => .invalidOption name e.message) := by
  refine ⟨fun refused => ?_, fun r accepted => ?_, rfl,
    fun read safe => set_eq_load s.options read safe v⟩
  · obtain ⟨-, reason, done⟩ | ⟨r, o, accepted, -⟩ := set_cases given.plain name v
    · exact ⟨reason, by rw [setOption, done]⟩
    · cases refused.symm.trans accepted
  · obtain ⟨refused, -⟩ | ⟨r', o, accepted', done, set⟩ := set_cases given.plain name v
    · cases refused.symm.trans accepted
    · cases accepted.symm.trans accepted'
      exact ⟨o, by rw [setOption, done], set⟩

/-- Options with times and a key of the database. -/
def tenantOptions : Options :=
  { typeKey := "$type", idField := false, timestamps := .enabled "born" "updatedAt",
    extra := [("shardKey", .obj [("tenant", .int 1)])] }

theorem given_tenantOptions : tenantOptions.Given := by
  apply Given.load (v := .obj [("typeKey", .str "$type"), ("_id", .bool false),
    ("timestamps", .obj [("createdAt", .str "born")]), ("shardKey", .obj [("tenant", .int 1)])])
  rfl

theorem Schema.setOption_lawful_tenant :
    (∃ reason, (Schema.empty tenantOptions : Schema MemoryDocument).setOption "minimize"
      (.str "yes") = (Schema.empty tenantOptions, .error (.invalidOption "minimize" reason))) ∧
    ∃ o, (Schema.empty tenantOptions : Schema MemoryDocument).setOption "timestamps" (.bool true) =
        (Schema.empty o, .ok ()) ∧
      o.get "timestamps" =
        some (.obj [("createdAt", .str "createdAt"), ("updatedAt", .str "updatedAt")]) ∧
      o.get "shardKey" = some (.obj [("tenant", .int 1)]) ∧ o.get "safe" = none := by
  have refused := (setOption_lawful (Schema.empty tenantOptions : Schema MemoryDocument)
    given_tenantOptions "minimize" (.str "yes")).1 rfl
  obtain ⟨o, done, set⟩ := (setOption_lawful (Schema.empty tenantOptions : Schema MemoryDocument)
    given_tenantOptions "timestamps" (.bool true)).2.1 _ rfl
  refine ⟨refused, o, done, set.own, ?_, ?_⟩
  · exact set.others "shardKey" (by decide) nofun
  · exact set.others "safe" (by decide) fun _ _ => nofun

/-- A `safe` that is null does not outlive the next option. -/
theorem null_safe_lost : ¬ ∀ o : Options, o.Given → ∀ name v o', o.set name v = .ok o' →
    ∀ other, other ≠ name → o'.get other = o.get other := by
  intro kept
  have given : ({ safe := some .null } : Options).Given := by
    apply Given.set (v := .null) (Given.load (v := .obj []) rfl)
    exact (rfl : ({} : Options).set "safe" .null = _)
  cases kept _ given "strict" (.bool false) _ rfl "safe" (by decide)

/-- Options without a null `safe` whose other options stand apart are read back from their written
form as they were. Reading options and setting them keeps the other options apart. -/
theorem Options.load_toJson_lawful :
    (∀ o : Options, o.safe ≠ some .null → (∀ k : OptionKey, k.name ∉ Table.keys o.extra) →
      (Table.keys o.extra).Nodup → load o.toJson = .ok o) ∧
    ∀ o : Options, o.Given →
      (∀ k : OptionKey, k.name ∉ Table.keys o.extra) ∧ (Table.keys o.extra).Nodup := by
  constructor
  · intro o safe apart distinct
    have unnamed : ∀ name ∈ Table.keys o.extra, OptionKey.ofName? name = none := by
      intro name there
      cases known : OptionKey.ofName? name with
      | none => rfl
      | some k => exact absurd (OptionKey.name_of_ofName? known ▸ there) (apart k)
    have plain : Plain o := ⟨unnamed, distinct⟩
    rw [load_toJson plain]
    obtain ⟨-, same⟩ | ⟨null, -⟩ := dropNullSafe_cases plain
    · rw [same]
    · exact absurd ((get_of_named plain OptionKey.safe.ofName?_name).symm.trans null) safe
  · intro o given
    refine ⟨fun k there => ?_, given.plain.distinct⟩
    cases (given.plain.unnamed _ there).symm.trans k.ofName?_name

theorem Options.load_toJson_lawful_tenant :
    load tenantOptions.toJson = .ok tenantOptions ∧
      ∃ o : Options, tenantOptions.set "capped" (.int 1024) = .ok o ∧
        o.extra = [("shardKey", .obj [("tenant", .int 1)]), ("capped", .int 1024)] ∧
        ∀ k : OptionKey, k.name ∉ Table.keys o.extra := by
  obtain ⟨read, apart⟩ := load_toJson_lawful
  refine ⟨read _ nofun (apart _ given_tenantOptions).1 (apart _ given_tenantOptions).2, _, rfl,
    rfl, ?_⟩
  exact (apart _ (.set given_tenantOptions (rfl : tenantOptions.set "capped" (.int 1024) = _))).1

end DocSchema
