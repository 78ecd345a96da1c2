import DocSchema.Document.Memory

/-!
# Times over many saves

A hook keeps two times in a document, that of its creation and that of its last update. `Stamped`
says all that one run of the hook does, on any document whose fields keep what is stored in them
(`LawfulDocument`). Between two runs anything may happen to a document, as long as nothing else
writes the two fields; `Saved` is a life of a document with the saves in it.

The time of creation is set by the first save that finds none, and from then on nothing changes it;
every save sets the time of the last update anew (`stamps_saved`).
-/

namespace DocSchema

variable {δ : Type} [Document δ]

/-- A type of documents whose fields hold what was last stored in them. -/
class LawfulDocument (δ : Type) [Document δ] : Prop where
  get?_set_self (doc : δ) (field : String) (v : Json) :
    Document.get? (Document.set doc field v) field = some v
  get?_set_of_ne (doc : δ) {field other : String} (v : Json) (apart : other ≠ field) :
    Document.get? (Document.set doc field v) other = Document.get? doc other

instance : LawfulDocument MemoryDocument where
  get?_set_self doc field v := Table.get?_insert_self doc.fields field v
  get?_set_of_ne doc _ _ v apart := Table.get?_insert_of_ne doc.fields v apart

/-- The documents that writing some fields can make of a document. -/
inductive WrittenAt (names : List String) (doc : δ) : δ → Prop where
  | same : WrittenAt names doc doc
  | set {doc' : δ} {field : String} (v : Json) (before : WrittenAt names doc doc')
      (known : field ∈ names) : WrittenAt names doc (Document.set doc' field v)

/-- A field that is not written keeps its value. -/
theorem WrittenAt.get?_eq [LawfulDocument δ] {names : List String} {doc doc' : δ}
    (h : WrittenAt names doc doc') {field : String} (other : field ∉ names) :
    Document.get? doc' field = Document.get? doc field := by
  induction h with
  | same => rfl
  | @set doc₁ name v _ known ih =>
    have apart : field ≠ name := by
      rintro rfl
      exact other known
    rw [LawfulDocument.get?_set_of_ne doc₁ v apart, ih]

namespace PreHook

variable {created updated : String} {doc doc' : δ}

/-! ### One run -/

theorem isUnset_eq_false_iff :
    isUnset doc created = false ↔
      ∃ v, Document.get? doc created = some v ∧ v.isNull = false := by
  unfold isUnset
  cases Document.get? doc created <;> simp

def withCreation (created : String) (now : Json) (doc : δ) : δ :=
  if isUnset doc created then Document.set doc created now else doc

/-- Whether a run finds that the document is new. -/
def seesNew (created : String) (now : Json) (doc : δ) : Bool :=
  Document.isNew (withCreation created now doc)

def stamped (created updated : String) (now : Json) (doc : δ) : δ :=
  (stamp created updated now doc).2

/-- A run of the hook never fails. -/
theorem stamp_eq (created updated : String) (now : Json) (doc : δ) :
    stamp created updated now doc = (.ok (), stamped created updated now doc) := rfl

theorem written_withCreation (created updated : String) (now : Json) (doc : δ) :
    WrittenAt [created, updated] doc (withCreation created now doc) := by
  unfold withCreation
  split
  · exact .set now .same List.mem_cons_self
  · exact .same

variable [LawfulDocument δ]

theorem get?_withCreation (created : String) (now : Json) (doc : δ) :
    Document.get? (withCreation created now doc) created =
      if isUnset doc created then some now else Document.get? doc created := by
  unfold withCreation
  split
  · exact LawfulDocument.get?_set_self doc created now
  · rfl

/-- After the first half of a run the time of creation is set. -/
theorem isUnset_withCreation {now : Json} (given : now.isNull = false) (doc : δ) :
    isUnset (withCreation created now doc) created = false := by
  rw [isUnset_eq_false_iff, get?_withCreation]
  split
  · exact ⟨now, rfl, given⟩
  · next known => exact isUnset_eq_false_iff.1 (by simpa using known)

/-- What a run of the hook does to a document. -/
structure Stamped (created updated : String) (now : Json) (doc doc' : δ) : Prop where
  /-- The time of creation is that of the run, where there was none. -/
  creation : Document.get? doc' created =
    if isUnset doc created then some now else Document.get? doc created
  /-- The time of the last update is that of the run, or of the creation of a new document. -/
  update : Document.get? doc' updated =
    if seesNew created now doc then Document.get? doc' created else some now
  hasCreation : isUnset doc' created = false
  hasUpdate : isUnset doc' updated = false
  /-- Nothing else is written. -/
  written : WrittenAt [created, updated] doc doc'
  others : ∀ field, field ≠ created → field ≠ updated →
    Document.get? doc' field = Document.get? doc field

/-- Every run of the hook stamps the document. -/
theorem stamped_stamp (apart : created ≠ updated) {now : Json} (given : now.isNull = false)
    (doc : δ) : Stamped created updated now doc (stamped created updated now doc) := by
  obtain ⟨v, known, set⟩ := isUnset_eq_false_iff.1 (isUnset_withCreation given doc)
  -- the time that the second half stores
  have time : (if Document.isNew (withCreation created now doc) then
      (Document.get? (withCreation created now doc) created).getD now else now) =
      if seesNew created now doc then v else now := by
    rw [known, Option.getD_some]
    rfl
  have run : stamped created updated now doc = Document.set (withCreation created now doc) updated
      (if seesNew created now doc then v else now) := congrArg (Document.set _ updated) time
  have creation : Document.get? (stamped created updated now doc) created = some v := by
    rw [run, LawfulDocument.get?_set_of_ne _ _ apart, known]
  have update : Document.get? (stamped created updated now doc) updated =
      some (if seesNew created now doc then v else now) := by
    rw [run, LawfulDocument.get?_set_self]
  have written : WrittenAt [created, updated] doc (stamped created updated now doc) := by
    rw [run]
    exact .set _ (written_withCreation created updated now doc)
      (List.mem_cons_of_mem _ List.mem_cons_self)
  constructor
  case creation => rw [creation, ← known, get?_withCreation]
  case update =>
    rw [update, creation]
    split <;> rfl
  case hasCreation => exact isUnset_eq_false_iff.2 ⟨v, creation, set⟩
  case hasUpdate =>
    refine isUnset_eq_false_iff.2 ⟨_, update, ?_⟩
    split
    · exact set
    · exact given
  case written => exact written
  case others =>
    intro field notCreated notUpdated
    exact written.get?_eq (by simp [notCreated, notUpdated])

/-! ### Many runs -/

/-- A run of the hook: the document it meets, and its time. -/
structure Save (δ : Type) where
  before : δ
  time : String

def Save.after (created updated : String) (save : Save δ) : δ :=
  stamped created updated (.str save.time) save.before

/-- The life of a document, with the saves in it. Between two saves anything may happen to the
document, but the two fields are left alone. -/
inductive Saved (created updated : String) (doc : δ) : List (Save δ) → δ → Prop where
  | start : Saved created updated doc [] doc
  | between {saves : List (Save δ)} {doc₁ doc₂ : δ} (past : Saved created updated doc saves doc₁)
      (creation : Document.get? doc₂ created = Document.get? doc₁ created)
      (update : Document.get? doc₂ updated = Document.get? doc₁ updated) :
      Saved created updated doc saves doc₂
  | save {saves : List (Save δ)} {doc₁ : δ} (time : String)
      (past : Saved created updated doc saves doc₁) :
      Saved created updated doc (saves ++ [⟨doc₁, time⟩])
        (Save.after created updated ⟨doc₁, time⟩)

/-- What the saves in the life of a document have done to it. -/
structure Stamps (created updated : String) (doc : δ) (saves : List (Save δ)) (doc' : δ) :
    Prop where
  /-- Once there is a time of creation, it stays. -/
  lasting : ∀ v, Document.get? doc created = some v → v.isNull = false →
    Document.get? doc' created = some v
  /-- It is the same after every save. -/
  agreed : ∀ save ∈ saves,
    Document.get? (save.after created updated) created = Document.get? doc' created
  succeeded : ∀ save ∈ saves,
    stamp created updated (.str save.time) save.before = (.ok (), save.after created updated)
  stamped : ∀ save ∈ saves,
    Stamped created updated (.str save.time) save.before (save.after created updated)

/-- Whatever happens between saves, the first one that finds no time of creation sets it, nothing
changes it from then on, and every save sets the time of the last update. -/
theorem stamps_saved (apart : created ≠ updated) {saves : List (Save δ)}
    (life : Saved created updated doc saves doc') : Stamps created updated doc saves doc' := by
  induction life with
  | start => exact ⟨fun _ there _ => there, by simp, by simp, by simp⟩
  | between past creation update ih =>
    refine ⟨fun v there set => ?_, fun save known => ?_, ih.succeeded, ih.stamped⟩
    · rw [creation, ih.lasting v there set]
    · rw [creation, ih.agreed save known]
  | @save saves doc₁ time past ih =>
    have last : Stamped created updated (.str time) doc₁
        (stamped created updated (.str time) doc₁) := stamped_stamp apart rfl doc₁
    -- what is set before the save is there after it
    have kept : isUnset doc₁ created = false →
        Document.get? (Save.after created updated ⟨doc₁, time⟩) created =
          Document.get? doc₁ created := by
      intro known
      rw [Save.after, last.creation, known]
      rfl
    constructor
    case lasting =>
      intro v there set
      have before := ih.lasting v there set
      rw [kept (isUnset_eq_false_iff.2 ⟨v, before, set⟩), before]
    case agreed =>
      intro save known
      rcases List.mem_append.1 known with earlier | this
      · have same := ih.agreed save earlier
        obtain ⟨v, there, set⟩ := isUnset_eq_false_iff.1 (ih.stamped save earlier).hasCreation
        rw [kept (isUnset_eq_false_iff.2 ⟨v, same.symm.trans there, set⟩), same]
      · rw [List.mem_singleton.1 this]
    case succeeded => exact fun save _ => stamp_eq created updated (.str save.time) save.before
    case stamped =>
      intro save known
      rcases List.mem_append.1 known with earlier | this
      · exact ih.stamped save earlier
      · rw [List.mem_singleton.1 this]
        exact last

/-- A report that is written, saved, given a new title and saved again. -/
theorem stamps_saved_report :
    let report : MemoryDocument :=
      { fields := [("createdAt", .null), ("title", .str "Report")], isNew := true }
    let first : Save MemoryDocument := ⟨report, "2024-01-01"⟩
    let saved := first.after "createdAt" "updatedAt"
    let second : Save MemoryDocument :=
      ⟨{ saved with fields := Table.insert saved.fields "title" (.str "Notes"), isNew := false },
        "2024-02-01"⟩
    Stamps "createdAt" "updatedAt" report [first, second]
        (second.after "createdAt" "updatedAt") ∧
      (second.after "createdAt" "updatedAt").fields =
        [("createdAt", .str "2024-01-01"), ("title", .str "Notes"),
          ("updatedAt", .str "2024-02-01")] := by
  intro report first saved second
  have titled : Saved "createdAt" "updatedAt" report [first] second.before :=
    .between (.save "2024-01-01" .start) (by rfl) (by rfl)
  exact ⟨stamps_saved (by decide) (.save "2024-02-01" titled), by rfl⟩

end PreHook

end DocSchema
