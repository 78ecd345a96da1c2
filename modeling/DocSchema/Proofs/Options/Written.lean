import DocSchema.Options.Access
import DocSchema.Proofs.Table.Keys

/-!
# Options and their written form

Options that were read from JSON, and then perhaps set one by one, are `Given`. None of their other
options has the name of an option with a place of its own, and no name stands twice (`Given.plain`).
So the written form shows the options with a place of their own and then the other ones
(`fields_eq`), each under its name (`get_of_named`, `get_of_unnamed`), and the options are read back
from it as they were, but for a `safe` that is null (`load_toJson`).
-/

namespace DocSchema

variable {o o' base : Options} {name : String} {v : Json}

theorem OptionKey.ofName?_name (k : OptionKey) : ofName? k.name = some k := by
  cases k <;> decide

theorem OptionKey.name_of_ofName? {k : OptionKey} (h : ofName? name = some k) : k.name = name := by
  simpa using List.find?_some h

theorem OptionKey.name_inj {k k' : OptionKey} (h : k.name = k'.name) : k = k' := by
  have same := congrArg ofName? h
  rwa [ofName?_name, ofName?_name, Option.some_inj] at same

theorem OptionKey.mem_all (k : OptionKey) : k ∈ all := by
  cases k <;> decide

namespace Options

/-- Whether the other options stand apart from those with a place of their own, each once. -/
structure Plain (o : Options) : Prop where
  unnamed : ∀ name ∈ Table.keys o.extra, OptionKey.ofName? name = none
  distinct : (Table.keys o.extra).Nodup

/-- The options that are read from JSON and then set one by one. -/
inductive Given : Options → Prop where
  | load {v : Json} {o : Options} (loaded : Options.load v = .ok o) : Given o
  | set {o o' : Options} {name : String} {v : Json} (before : Given o)
      (accepted : o.set name v = .ok o') : Given o'

/-! ### Options that were read and set -/

theorem store_extra {k : OptionKey} (stored : o.store k v = .ok o') : o'.extra = o.extra := by
  have kept {α : Type} {x : Except LoadError α} {f : α → Options}
      (h : x.map f = .ok o') (same : ∀ a, (f a).extra = o.extra) : o'.extra = o.extra := by
    cases x with
    | error e => cases h
    | ok a =>
      cases h
      exact same a
  cases k <;> exact kept stored fun _ => rfl

theorem Plain.assign (h : Plain o) (assigned : o.assign name v = .ok o') : Plain o' := by
  unfold Options.assign at assigned
  split at assigned
  · have same := store_extra assigned
    exact ⟨by rw [same]; exact h.unnamed, by rw [same]; exact h.distinct⟩
  · next unnamed =>
    cases assigned
    refine ⟨fun other there => ?_, Table.nodup_keys_insert _ _ _ h.distinct⟩
    rcases Table.mem_keys_insert.1 there with rfl | there
    · exact unnamed
    · exact h.unnamed other there

theorem Plain.assignAll : ∀ {t : Table Json} {o : Options}, Plain o → o.assignAll t = .ok o' →
    Plain o'
  | [], _, h, run => by
    cases run
    exact h
  | (name, v) :: rest, o, h, run => by
    rw [Options.assignAll] at run
    split at run
    · next assigned => exact Plain.assignAll (h.assign assigned) run
    · cases run

theorem plain_load (loaded : load v = .ok o) : Plain o := by
  cases v with
  | obj fields => exact Plain.assignAll ⟨by simp, by simp⟩ loaded
  | _ => cases loaded

/-- The options without a `safe` that is null. -/
def dropNullSafe (o : Options) : Options :=
  match o.safe with
  | some .null => { o with safe := none }
  | _ => o

theorem extra_dropNullSafe (o : Options) : o.dropNullSafe.extra = o.extra := by
  unfold dropNullSafe
  split <;> rfl

theorem Plain.congr (h : Plain o) (same : o'.extra = o.extra) : Plain o' :=
  ⟨by rw [same]; exact h.unnamed, by rw [same]; exact h.distinct⟩

theorem Plain.dropNullSafe (h : Plain o) : Plain o.dropNullSafe := h.congr (extra_dropNullSafe o)

/-- What is set through the written form was read. -/
theorem plain_setOther (accepted : o.setOther name v = .ok o') : Plain o' := by
  unfold setOther at accepted
  split at accepted
  · next loaded =>
    cases accepted
    exact plain_load loaded
  · cases accepted

theorem Plain.set (h : Plain o) (accepted : o.set name v = .ok o') : Plain o' := by
  unfold Options.set at accepted
  split at accepted
  · unfold setRead at accepted
    split at accepted
    · cases accepted
      exact h.congr rfl
    · split at accepted
      · cases accepted
        exact h.congr rfl
      · cases accepted
    · cases accepted
  · cases accepted
    unfold setSafe
    split <;> exact h.congr rfl
  · exact plain_setOther accepted

theorem Given.plain (h : Given o) : Plain o := by
  induction h with
  | load loaded => exact plain_load loaded
  | set before accepted ih => exact ih.set accepted

/-! ### Reading the written form -/

theorem load_toJson_timestamps (t : Timestamps) : Timestamps.load t.toJson = .ok t := by
  cases t <;> rfl

theorem assignAll_cons_of_ok {rest : Table Json} (assigned : o.assign name v = .ok o') :
    o.assignAll ((name, v) :: rest) = o'.assignAll rest := by
  rw [assignAll, assigned]

theorem assignAll_singleton : o.assignAll [(name, v)] = o.assign name v := by
  rw [assignAll]
  split <;> rename_i assigned <;> rw [assigned]
  rfl

theorem assign_name (k : OptionKey) (v : Json) : o.assign k.name v = o.store k v := by
  rw [assign, OptionKey.ofName?_name]

/-- Options with one option taken over from others, if it is set there. -/
def takeOver (base o : Options) : OptionKey → Options
  | .strict => { base with strict := o.strict }
  | .minimize => { base with minimize := o.minimize }
  | .validateBeforeSave => { base with validateBeforeSave := o.validateBeforeSave }
  | .typeKey => { base with typeKey := o.typeKey }
  | .idField => { base with idField := o.idField }
  | .idVirtual => { base with idVirtual := o.idVirtual }
  | .versionKey => { base with versionKey := o.versionKey }
  | .discriminatorKey => { base with discriminatorKey := o.discriminatorKey }
  | .timestamps => { base with timestamps := o.timestamps }
  | .autoIndex => { base with autoIndex := o.autoIndex.or base.autoIndex }
  | .collection => { base with collection := o.collection.or base.collection }
  | .read => { base with read := o.read.or base.read }
  | .safe => { base with safe := if o.safe.isSome then o.dropNullSafe.safe else base.safe }
  | .pluralization => { base with pluralization := o.pluralization.or base.pluralization }

/-- An option that is shown is read back as what was shown, and one that is not changes nothing. -/
theorem store_shown (base o : Options) (k : OptionKey) :
    match o.shown k with
    | some v => base.store k v = .ok (base.takeOver o k)
    | none => base.takeOver o k = base := by
  cases k with
  | timestamps =>
    show (Timestamps.load o.timestamps.toJson).map _ = _
    rw [load_toJson_timestamps]
    rfl
  | autoIndex =>
    cases h : o.autoIndex <;>
      simp only [shown, takeOver, h, Option.map_none, Option.map_some] <;> rfl
  | collection =>
    cases h : o.collection <;>
      simp only [shown, takeOver, h, Option.map_none, Option.map_some] <;> rfl
  | pluralization =>
    cases h : o.pluralization <;>
      simp only [shown, takeOver, h, Option.map_none, Option.map_some] <;> rfl
  | read =>
    rcases h : o.read with _ | p
    · simp only [shown, takeOver, h, Option.map_none]
      rfl
    · cases p <;> simp only [shown, takeOver, h, Option.map_some] <;> rfl
  | safe =>
    rcases h : o.safe with _ | v
    · simp only [shown, takeOver, h]
      rfl
    · cases v <;> simp only [shown, takeOver, dropNullSafe, h] <;> rfl
  | _ => rfl

/-- The part of the written form that holds options with a place of their own. -/
def shownOf (o : Options) (ks : List OptionKey) : Table Json :=
  ks.filterMap fun k => (o.shown k).map (k.name, ·)

theorem shownOf_cons (o : Options) (k : OptionKey) (ks : List OptionKey) :
    o.shownOf (k :: ks) = ((o.shown k).map (k.name, ·)).toList ++ o.shownOf ks := by
  rw [shownOf, List.filterMap_cons]
  cases o.shown k <;> rfl

theorem exists_of_mem_keys_shownOf {ks : List OptionKey}
    (there : name ∈ Table.keys (o.shownOf ks)) : ∃ k ∈ ks, k.name = name := by
  obtain ⟨v, there⟩ := Table.mem_keys.1 there
  obtain ⟨k, among, shown⟩ := List.mem_filterMap.1 there
  obtain ⟨w, -, entry⟩ := Option.map_eq_some_iff.1 shown
  exact ⟨k, among, congrArg Prod.fst entry⟩

theorem nodup_keys_shownOf (o : Options) {ks : List OptionKey} (distinct : ks.Nodup) :
    (Table.keys (o.shownOf ks)).Nodup := by
  induction ks with
  | nil => exact List.nodup_nil
  | cons k ks ih =>
    obtain ⟨fresh, distinct⟩ := List.nodup_cons.1 distinct
    rw [shownOf_cons]
    cases o.shown k with
    | none => exact ih distinct
    | some v =>
      refine List.nodup_cons.2 ⟨fun there => ?_, ih distinct⟩
      obtain ⟨k', among, same⟩ := exists_of_mem_keys_shownOf there
      exact fresh (OptionKey.name_inj same ▸ among)

/-- The options with a place of their own come first, and then the other ones. -/
theorem fields_eq (h : Plain o) : o.fields = o.shownOf OptionKey.all ++ o.extra := by
  apply Table.insertAll_of_distinct
  rw [Table.keys, List.map_append]
  refine List.nodup_append.2 ⟨nodup_keys_shownOf o (by decide), h.distinct, ?_⟩
  rintro name named other there rfl
  obtain ⟨k, -, rfl⟩ := exists_of_mem_keys_shownOf named
  cases (h.unnamed _ there).symm.trans k.ofName?_name

theorem assignAll_shownOf (base o : Options) (ks : List OptionKey) (rest : Table Json) :
    base.assignAll (o.shownOf ks ++ rest) = (ks.foldl (takeOver · o) base).assignAll rest := by
  induction ks generalizing base with
  | nil => rfl
  | cons k ks ih =>
    have stored := store_shown base o k
    rw [shownOf_cons, List.foldl_cons, ← ih]
    cases h : o.shown k with
    | none =>
      rw [h] at stored
      rw [stored]
      rfl
    | some v =>
      rw [h] at stored
      exact assignAll_cons_of_ok ((assign_name k v).trans stored)

theorem foldl_takeOver (o : Options) :
    OptionKey.all.foldl (takeOver · o) {} = { o.dropNullSafe with extra := [] } := by
  rcases h : o.safe with _ | v
  · simp [OptionKey.all, takeOver, dropNullSafe, h]
  · cases v <;> simp [OptionKey.all, takeOver, dropNullSafe, h]

/-- The other options are read one after the other, into the place where they were. -/
theorem assignAll_unnamed (base : Options) {t : Table Json} (rest : Table Json)
    (unnamed : ∀ name ∈ Table.keys t, OptionKey.ofName? name = none)
    (distinct : (Table.keys (base.extra ++ t)).Nodup) :
    base.assignAll (t ++ rest) = { base with extra := base.extra ++ t }.assignAll rest := by
  induction t generalizing base with
  | nil => simp
  | cons e t ih =>
    obtain ⟨name, v⟩ := e
    have new : Table.contains base.extra name = false := by
      rw [Table.keys, List.map_append] at distinct
      have apart := (List.nodup_append.1 distinct).2.2
      rw [Bool.eq_false_iff, ne_eq, Table.contains_iff_mem_keys]
      exact fun there => apart name there name List.mem_cons_self rfl
    have assigned : base.assign name v = .ok { base with extra := base.extra ++ [(name, v)] } := by
      rw [assign, unnamed name List.mem_cons_self, ← Table.insert_of_not_contains v new]
    have snoc : base.extra ++ [(name, v)] ++ t = base.extra ++ (name, v) :: t := by simp
    have ih := ih { base with extra := base.extra ++ [(name, v)] }
      (fun other there => unnamed other (List.mem_cons_of_mem _ there)) (by rwa [snoc])
    rw [List.cons_append, assignAll_cons_of_ok assigned, ih]
    simp only [snoc]

/-- The written form of options is read as the options, but for a `safe` that is null. -/
theorem assignAll_fields (h : Plain o) (rest : Table Json) :
    ({} : Options).assignAll (o.fields ++ rest) = o.dropNullSafe.assignAll rest := by
  have others : (Table.keys (([] : Table Json) ++ o.extra)).Nodup := h.distinct
  rw [fields_eq h, List.append_assoc, assignAll_shownOf, foldl_takeOver,
    assignAll_unnamed _ rest h.unnamed others, List.nil_append, ← extra_dropNullSafe]

theorem load_toJson (h : Plain o) : load o.toJson = .ok o.dropNullSafe := by
  have read := assignAll_fields h []
  rwa [List.append_nil] at read

/-! ### Single options of the written form -/

theorem get?_shownOf (o : Options) (k : OptionKey) (ks : List OptionKey) :
    Table.get? (o.shownOf ks) k.name = if k ∈ ks then o.shown k else none := by
  induction ks with
  | nil => rfl
  | cons k' ks ih =>
    rw [shownOf_cons, Table.get?_append, ih]
    by_cases same : k = k'
    · subst same
      cases h : o.shown k <;> simp [Table.get?]
    · have apart : k'.name ≠ k.name := fun h => same (OptionKey.name_inj h.symm)
      cases h : o.shown k' <;> simp [Table.get?, apart, same]

theorem get_of_named (h : Plain o) {k : OptionKey} (known : OptionKey.ofName? name = some k) :
    o.get name = o.shown k := by
  obtain rfl := OptionKey.name_of_ofName? known
  have absent : Table.get? o.extra k.name = none := by
    refine Table.get?_eq_none_of_not_mem fun there => ?_
    cases (h.unnamed _ there).symm.trans known
  rw [get, fields_eq h, Table.get?_append, absent, Option.or_none, get?_shownOf, if_pos k.mem_all]

theorem get_of_unnamed (h : Plain o) (unknown : OptionKey.ofName? name = none) :
    o.get name = Table.get? o.extra name := by
  have absent : Table.get? (o.shownOf OptionKey.all) name = none := by
    refine Table.get?_eq_none_of_not_mem fun there => ?_
    obtain ⟨k, -, rfl⟩ := exists_of_mem_keys_shownOf there
    cases unknown.symm.trans k.ofName?_name
  rw [get, fields_eq h, Table.get?_append, absent, Option.none_or]

/-- To set an option that is not shown is to add it to the written form. -/
theorem load_insert_new (h : Plain o) (new : o.get name = none) (v : Json) :
    load (.obj (Table.insert o.fields name v)) = o.dropNullSafe.assign name v := by
  rw [Table.insert_of_not_contains v ((Table.get?_eq_none_iff _ _).1 new), load,
    assignAll_fields h, assignAll_singleton]

end Options

end DocSchema
