import DocSchema.Proofs.Schema.Rekeying
import DocSchema.Proofs.Schema.SubSchemas

/-!
# Reading definitions that are spelled with another key

What is read from a definition does not depend on how its types are spelled: the entries of a group
are the same (`entries_rename`), the record of a field is the same record (`record_rename`), and a
record has the same settings and makes the same kind of field (`ofRecord_rename`, `shape_rename`).
Each time the two sides differ by the spelling of the definitions that are handed on.
-/

namespace DocSchema

open Definition

variable {δ : Type} {old new : String} {keep : Json → Json}

namespace Definition

variable {d : Definition δ} {fields record : Table (Definition δ)}

/-! ### Entries -/

/-- What lacks the type key is a group. -/
theorem isGroup_of_apart (apart : ∀ e ∈ fields, e.1 ≠ old ∧ e.1 ≠ new) :
    isGroup fields old = true := by
  have absent : Table.get? fields old = none :=
    Table.get?_eq_none_of_not_mem fun there => by
      obtain ⟨d, there⟩ := Table.mem_keys.1 there
      exact (apart (old, d) there).1 rfl
  rw [isGroup, statedType?, absent]
  rfl

/-- What holds a type is no group. -/
theorem isGroup_of_stated (stated : statedType? fields old = some d) :
    isGroup fields old = false := by
  rw [isGroup, stated]
  rfl

mutual

theorem entriesAt_rename (path : String) : ∀ d : Definition δ, Spelled old new keep d →
    entriesAt new path (d.rename old new) =
      (entriesAt old path d).map (Entry.map (rename old new) id)
  | .literal v, _ => by cases v <;> rfl
  | .type t, _ => rfl
  | .schema s, h => by cases h
  | .array items, _ => by
    cases items with
    | nil => rfl
    | cons d ds =>
      cases d with
      | literal v => cases v <;> cases ds <;> rfl
      | _ => rfl
  | .object [], _ => rfl
  | .object ((key, d) :: fs), h => by
    have sameGroup := isGroup_rename h.unused
    rw [renameFields] at sameGroup
    rw [rename, renameFields, entriesAt, entriesAt, sameGroup]
    cases h with
    | group apart inner =>
      have below := entries_rename (path ++ ".") ((key, d) :: fs) apart inner
      rw [renameFields] at below
      rw [isGroup_of_apart apart, if_pos rfl, if_pos rfl, List.map_cons, below]
      rfl
    | record stated unused typed settings =>
      rw [isGroup_of_stated stated]
      rfl

/-- The entries of a group that is spelled with another key are the same, with their definitions
spelled so. -/
theorem entries_rename (front : String) : ∀ fields : List (String × Definition δ),
    (∀ e ∈ fields, e.1 ≠ old ∧ e.1 ≠ new) → (∀ e ∈ fields, Spelled old new keep e.2) →
    entries new front (renameFields old new fields) =
      (entries old front fields).map (Entry.map (rename old new) id)
  | [], _, _ => rfl
  | (key, d) :: rest, apart, inner => by
    have first := inner (key, d) List.mem_cons_self
    have notOld : key ≠ old := (apart (key, d) List.mem_cons_self).1
    rw [renameFields, entries, entries, List.map_append, Table.renameKey_of_ne notOld,
      entriesAt_rename (front ++ key) d first,
      entries_rename front rest (fun e there => apart e (List.mem_cons_of_mem _ there))
        fun e there => inner e (List.mem_cons_of_mem _ there)]

end

mutual

theorem spelled_of_mem_entriesAt {path p : String} {x : Definition δ} {u : Unit} :
    ∀ d : Definition δ, Spelled old new keep d → .field p x u ∈ entriesAt old path d →
      Spelled old new keep x ∧ isInline old x = false
  | .literal v, h, there => by
    cases v <;> simp_all [entriesAt, isInline]
  | .type t, h, there => by
    obtain ⟨rfl, rfl, -⟩ := Entry.field.inj (List.mem_singleton.1 there)
    exact ⟨h, rfl⟩
  | .schema s, h, _ => by cases h
  | .array items, h, there => by
    unfold entriesAt at there
    split at there <;> simp_all [isInline]
  | .object [], h, there => by
    obtain ⟨rfl, rfl, -⟩ := Entry.field.inj (List.mem_singleton.1 there)
    exact ⟨h, rfl⟩
  | .object (f :: fs), h, there => by
    rw [entriesAt] at there
    cases h with
    | group apart inner =>
      rw [isGroup_of_apart apart, if_pos rfl] at there
      have there := (List.mem_cons.1 there).resolve_left (by simp)
      exact spelled_of_mem_entries (f :: fs) inner there
    | record stated unused typed settings =>
      have notGroup := isGroup_of_stated stated
      rw [notGroup, if_neg Bool.false_ne_true] at there
      obtain ⟨rfl, rfl, -⟩ := Entry.field.inj (List.mem_singleton.1 there)
      exact ⟨.record stated unused typed settings, by rw [isInline, notGroup, Bool.and_false]⟩

/-- The definition of a field among the entries is no group. -/
theorem spelled_of_mem_entries {front p : String} {x : Definition δ} {u : Unit} :
    ∀ fields : List (String × Definition δ), (∀ e ∈ fields, Spelled old new keep e.2) →
      .field p x u ∈ entries old front fields → Spelled old new keep x ∧ isInline old x = false
  | [], _, there => absurd there List.not_mem_nil
  | (key, d) :: rest, inner, there => by
    rw [entries, List.mem_append] at there
    rcases there with there | there
    · exact spelled_of_mem_entriesAt d (inner (key, d) List.mem_cons_self) there
    · exact spelled_of_mem_entries rest
        (fun e there => inner e (List.mem_cons_of_mem _ there)) there

end

/-! ### Records -/

theorem isInline_rename {x : Definition δ} (h : Spelled old new keep x) :
    isInline new (x.rename old new) = isInline old x := by
  cases x with
  | object fields =>
    have sameGroup := isGroup_rename h.unused
    rw [rename, isInline, isInline, sameGroup, renameFields_eq, Table.rename, List.isEmpty_map]
  | _ => rfl

/-- What is written inline is a group. -/
theorem apart_of_inline (h : Spelled old new keep d) (inline : isInline old d = true) :
    ∃ fields, d = .object fields ∧ (∀ e ∈ fields, e.1 ≠ old ∧ e.1 ≠ new) ∧
      ∀ e ∈ fields, Spelled old new keep e.2 := by
  cases h with
  | group apart inner => exact ⟨_, rfl, apart, inner⟩
  | record stated unused typed settings => simp [isInline, isGroup_of_stated stated] at inline
  | _ => cases inline

/-- A record whose type is a record is that inner one. -/
theorem unwrapped_object {inner : List (String × Definition δ)}
    (stated : statedType? fields old = some (.object inner)) :
    unwrapped old fields = if isGroup inner old then fields else inner := by
  rw [unwrapped, stated]

/-- A single definition under the type key may be spelled with another one. -/
theorem SpelledRecord.single (h : Spelled old new keep d) :
    SpelledRecord old new keep [(old, d)] where
  unused e there _ := by rw [List.mem_singleton.1 there]
  typed e there _ := by rwa [List.mem_singleton.1 there]
  settings e there notOld := absurd (by rw [List.mem_singleton.1 there]) notOld

/-- Whether a record stands for an inner one does not depend on the spelling. -/
theorem unwrapped_rename {x : Definition δ} (stated : statedType? fields old = some x)
    (whole : SpelledRecord old new keep fields) :
    unwrapped new (renameFields old new fields) = renameFields old new (unwrapped old fields) ∧
      SpelledRecord old new keep (unwrapped old fields) := by
  have inner : Spelled old new keep x :=
    whole.typed _ (Table.mem_of_get? (get?_of_statedType? stated)) (.inl rfl)
  have stated' := statedType?_rename whole.unused
  rw [stated, Option.map_some] at stated'
  -- only a type that is a record itself takes the place of the record around it
  cases inner with
  | literal | type | array =>
    rw [unwrapped, unwrapped, stated, stated']
    exact ⟨rfl, whole⟩
  | group apart others =>
    have sameGroup := isGroup_rename (Spelled.group apart others).unused
    rw [unwrapped_object stated, unwrapped_object stated', sameGroup, isGroup_of_apart apart]
    exact ⟨rfl, whole⟩
  | record within unused typed settings =>
    have sameGroup := isGroup_rename unused
    rw [unwrapped_object stated, unwrapped_object stated', sameGroup, isGroup_of_stated within]
    exact ⟨rfl, unused, typed, settings⟩

/-- The record of a field is spelled with the new key as the field is. -/
theorem record_rename (h : Spelled old new keep d) (single : isInline old d = false) :
    (d.rename old new).record new = renameFields old new (d.record old) ∧
      SpelledRecord old new keep (d.record old) := by
  have alone {x : Definition δ} : [(new, x.rename old new)] = renameFields old new [(old, x)] := by
    rw [renameFields, Table.renameKey_old]
    rfl
  cases h with
  | literal v => exact ⟨alone, .single (.literal v)⟩
  | type t => exact ⟨alone, .single (.type t)⟩
  | array inner => exact ⟨alone, .single (.array inner)⟩
  | @group fields apart inner =>
    have empty : fields = [] := by
      simpa [isInline, isGroup_of_apart apart] using single
    subst empty
    refine ⟨rfl, fun e there => ?_, fun e there => ?_, fun e there => ?_⟩ <;>
      exact absurd there List.not_mem_nil
  | record stated unused typed settings => exact unwrapped_rename stated ⟨unused, typed, settings⟩

/-- The element that a record declares may be spelled with another key. -/
theorem SpelledRecord.element {x : Definition δ} (h : SpelledRecord old new keep record)
    (shaped : shape old path record = .ok (.arrayOf x)) : Spelled old new keep x := by
  rcases shape_eq_arrayOf shaped with ⟨items, stated, there⟩ | ⟨-, -, -, stated⟩
  · have array := h.typed _ (Table.mem_of_get? (get?_of_statedType? stated)) (.inl rfl)
    cases array with
    | array inner => exact inner x there
  · exact h.typed _ (Table.mem_of_get? stated) (.inr rfl)

end Definition

/-! ### Settings -/

namespace Settings

variable {d : Definition δ} {record : Table (Definition δ)}

theorem keep_mapExtra (s : Settings) (key : String) {d' : Definition δ}
    (shown : d'.toJson = keep d.toJson) :
    (s.mapExtra keep).keep key d' = (s.keep key d).mapExtra keep := by
  rw [Settings.keep, Settings.keep, mapExtra, mapExtra, Table.mapValues_insert, shown]

/-- A setting is taken from what is spelled with another key as it was before. -/
theorem take_rename (s : Settings) (key : String)
    (shown : (d.rename old new).toJson = keep d.toJson)
    (option : key ∈ optionKeys → d.rename old new = d) :
    (s.mapExtra keep).take key (d.rename old new) = (s.take key d).mapExtra keep := by
  have kept (s : Settings) (key : String) := keep_mapExtra s key shown
  by_cases isOption : key ∈ optionKeys
  · -- such a setting may have the wrong kind and is kept then, so it is read branch by branch
    rw [option isOption] at kept ⊢
    unfold take
    repeat' split
    all_goals first | rfl | exact kept s key
  · have other : key ≠ "required" ∧ key ≠ "default" ∧ key ≠ "ref" ∧ key ≠ "select" ∧
        key ≠ "auto" := by
      refine ⟨?_, ?_, ?_, ?_, ?_⟩ <;> rintro rfl <;> exact isOption (by decide)
    simp only [take, other, if_false, kept]

variable (notOption : old ∉ optionKeys) (notOption' : new ∉ optionKeys)

/-- A key that is renamed holds no setting, and neither does its new name. -/
theorem takeAll_rename (s : Settings) (record : List (String × Definition δ))
    (unused : ∀ e ∈ record, e.1 = new → e.1 = old) (settings : SettingsKept old new keep record) :
    takeAll new (s.mapExtra keep) (renameFields old new record) =
      (takeAll old s record).mapExtra keep := by
  induction record generalizing s with
  | nil => rfl
  | cons e record ih =>
    obtain ⟨key, d⟩ := e
    have ih (s : Settings) := ih s (fun e there => unused e (List.mem_cons_of_mem _ there))
      fun e there => settings e (List.mem_cons_of_mem _ there)
    have first := settings (key, d) List.mem_cons_self
    rw [renameFields, takeAll, takeAll, ← ih]
    congr 1
    by_cases isOld : key = old
    · subst isOld
      simp [isStructural]
    · have notNew : key ≠ new := fun isNew => isOld (unused (key, d) List.mem_cons_self isNew)
      rw [Table.renameKey_of_ne isOld]
      by_cases isCast : key = "cast"
      · simp [isStructural, isCast]
      · obtain ⟨shown, option⟩ := first isOld isCast
        simp only [isStructural, isOld, notNew, isCast, take_rename s key shown option]
        split <;> rfl

include notOption notOption' in
/-- The settings of a record are those of the record that is spelled with another key. -/
theorem ofRecord_rename (h : SpelledRecord old new keep record) (scalar : Option Scalar) :
    ofRecord (renameFields old new record) new scalar =
      (ofRecord record old scalar).mapExtra keep := by
  have indexed : ∀ key ∈ indexKeys, key ∈ optionKeys := by decide
  have apart : ∀ key ∈ indexKeys, key ≠ "cast" := by decide
  have index (isDate : Bool) :
      FieldIndex.ofRecord? (renameFields old new record) isDate =
        FieldIndex.ofRecord? record isDate := by
    refine FieldIndex.ofRecord?_congr (fun key there => ?_) isDate
    have isOption : key ∈ optionKeys := indexed key there
    have notOld : key ≠ old := fun isOld => notOption (isOld ▸ isOption)
    have notNew : key ≠ new := fun isNew => notOption' (isNew ▸ isOption)
    rw [get?_renameFields_of_ne notOld notNew]
    cases found : Table.get? record key with
    | none => rfl
    | some d =>
      have notCast : key ≠ "cast" := apart key there
      have kept := h.settings (key, d) (Table.mem_of_get? found) notOld notCast
      rw [Option.map_some, kept.2 isOption]
  rw [ofRecord, ofRecord, index, ← takeAll_rename _ record h.unused h.settings]
  rfl

end Settings

/-! ### Shapes -/

def Shape.map (f : FieldKind δ → FieldKind δ) (g : Definition δ → Definition δ) :
    Shape δ → Shape δ
  | .plain kind => .plain (f kind)
  | .anyArray => .anyArray
  | .arrayOf element => .arrayOf (g element)

variable {path : String} {d : Definition δ} {record : Table (Definition δ)}

theorem Shape.ofElement?_rename (element : Option (Definition δ)) :
    ofElement? (element.map (rename old new)) =
      (ofElement? element).map (FieldKind.rekey old new keep) (rename old new) := by
  cases element with
  | none => rfl
  | some d =>
    rw [Option.map_some, ofElement?, ofElement?, isUnset_rename]
    split <;> rfl

theorem Shape.ofTypeName_rename (element : Option (Definition δ)) (t : TypeName) :
    ofTypeName (element.map (rename old new)) t =
      (ofTypeName element t).map (FieldKind.rekey old new keep) (rename old new) := by
  cases t with
  | scalar s => rfl
  | mixed => rfl
  | array => exact ofElement?_rename element

section

variable (notOption : old ∉ Settings.optionKeys) (notOption' : new ∉ Settings.optionKeys)
include notOption notOption'

namespace Definition

theorem statedElement?_rename (record : Table (Definition δ)) :
    statedElement? (renameFields old new record) =
      (statedElement? record).map (rename old new) := by
  have notOld : "cast" ≠ old := fun isOld => notOption (isOld ▸ by decide)
  have notNew : "cast" ≠ new := fun isNew => notOption' (isNew ▸ by decide)
  rw [statedElement?, statedElement?, get?_renameFields_of_ne notOld notNew]

/-- A record that is spelled with another key has the same shape. -/
theorem shape_rename (path : String) (h : SpelledRecord old new keep record) :
    shape new path (renameFields old new record) =
      (shape old path record).map (Shape.map (FieldKind.rekey old new keep) (rename old new)) := by
  have element := statedElement?_rename notOption notOption' record
  rw [shape, shape, statedType?_rename h.unused, element]
  cases stated : statedType? record old with
  | none => rfl
  | some x =>
    have inner : Spelled old new keep x :=
      h.typed _ (Table.mem_of_get? (get?_of_statedType? stated)) (.inl rfl)
    cases inner with
    | literal v =>
      cases v with
      | str name =>
        simp only [Option.map_some, rename]
        split
        · rfl
        · cases TypeName.ofName? name with
          | none => rfl
          | some t => exact congrArg Except.ok (Shape.ofTypeName_rename _ t)
      | _ => rfl
    | type t => exact congrArg Except.ok (Shape.ofTypeName_rename _ t)
    | @array items inner =>
      simp only [Option.map_some, rename, renameItems_eq, List.head?_map]
      exact congrArg Except.ok (Shape.ofElement?_rename _)
    | group apart others => rfl
    | record within unused typed settings => rfl

theorem fieldAt_rename (path : String) (h : Spelled old new keep d)
    (single : isInline old d = false) (kind : FieldKind δ) :
    (d.rename old new).fieldAt new path (kind.rekey old new keep) =
      (d.fieldAt old path kind).rekey old new keep := by
  obtain ⟨sameRecord, spelled⟩ := record_rename h single
  rw [fieldAt, sameRecord, FieldKind.rekey_scalar?,
    Settings.ofRecord_rename notOption notOption' spelled]
  rfl

/-- The type of a definition that makes no array does not depend on the type key. -/
theorem plainTypeAt_rename (path : String) (h : Spelled old new keep d)
    (single : isInline old d = false) :
    (d.rename old new).plainTypeAt new path =
      (d.plainTypeAt old path).map (FieldType.rekey old new keep) := by
  obtain ⟨sameRecord, spelled⟩ := record_rename h single
  have field := fieldAt_rename notOption notOption' path h single
  rw [plainTypeAt, plainTypeAt, sameRecord, shape_rename notOption notOption' path spelled]
  rcases shape old path (d.record old) with e | kind | _ | element
  · rfl
  · exact congrArg Except.ok (field kind)
  · exact congrArg Except.ok (field .mixed)
  · exact congrArg Except.ok (field .mixed)

end Definition

end

end DocSchema
