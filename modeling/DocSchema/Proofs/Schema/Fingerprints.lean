import DocSchema.Document.Memory
import DocSchema.Proofs.Json.Printing
import DocSchema.Proofs.Outcomes
import DocSchema.Proofs.Schema.Reordering
import DocSchema.Schema.Fingerprint

/-!
# What fingerprints tell

The bytes that a fingerprint is the hash of say what the tree of a schema is shown as, up to the
order of keys, and which indexes were declared on it (`fingerprintBytes_inj`). So definitions that
differ by the order of keys have one fingerprint, and without additions no others do
(`Schema.fingerprintBytes_reordered`).
-/

namespace DocSchema

open Definition

/-! ### Bytes -/

theorem toList_loop_eq (bytes : ByteArray) (i : Nat) (r : List UInt8) :
    ByteArray.toList.loop bytes i r = r.reverse ++ bytes.data.toList.drop i := by
  fun_induction ByteArray.toList.loop bytes i r with
  | case1 i r h ih =>
    have inside : i < bytes.data.toList.length := by simpa using h
    have here : bytes.get! i = bytes.data.toList[i] := by
      simp [ByteArray.get!, getElem!_pos bytes.data i (by simpa using h)]
    rw [ih, List.reverse_cons, List.append_assoc, List.drop_eq_getElem_cons inside, here]
    rfl
  | case2 i r h => rw [List.drop_eq_nil_of_le (by simpa using h), List.append_nil]

theorem utf8_injective {cs cs' : List Char}
    (h : (String.ofList cs).toUTF8.toList = (String.ofList cs').toUTF8.toList) : cs = cs' := by
  unfold ByteArray.toList at h
  rw [toList_loop_eq, toList_loop_eq] at h
  have bytes := ByteArray.ext (Array.toList_inj.1 h)
  exact String.ofList_injective (String.toByteArray_inj.1 bytes)

variable {δ : Type} {o : Options} {s s' : Schema δ}

namespace Schema

/-- Schemas are hashed from the same bytes exactly if their trees are of one form and the same
indexes were declared on them. -/
theorem fingerprintBytes_inj : s.fingerprintBytes = s'.fingerprintBytes ↔
    s.treeJson.sorted = s'.treeJson.sorted ∧
      s.ownIndexes.map IndexEntry.toJson = s'.ownIndexes.map IndexEntry.toJson := by
  constructor
  · intro h
    have text := utf8_injective h
    rw [fingerprintText, fingerprintText, List.append_assoc, List.append_assoc] at text
    have zero (cs : List Char) : Decimal.Ends (Char.ofNat 0 :: cs) := by
      intro c r hc
      cases hc
      rfl
    obtain ⟨tree, rest⟩ :=
      Json.chars_append_inj (zero _) (zero _) (List.append_cancel_left text)
    exact ⟨tree, Json.arr.inj (Json.chars_injective (List.cons.inj rest).2)⟩
  · rintro ⟨tree, indexes⟩
    rw [fingerprintBytes, fingerprintBytes, fingerprintText, fingerprintText, tree, indexes]

variable [Document δ]

/-! ### The order of keys -/

/-- Where the values of two objects have one form, the one compiles if the other one does, and to a
schema with the same fingerprint. -/
theorem fingerprintBytes_of_form {fs fs' : List (String × Json)} (tidy : (Json.obj fs).Tidy)
    (tidy' : (Json.obj fs').Tidy) (same : (Json.obj fs).sorted = (Json.obj fs').sorted)
    (compiled : compile o (ofJson (.obj fs)) = .ok s) :
    ∃ s' : Schema δ, compile o (ofJson (.obj fs')) = .ok s' ∧
      s.fingerprintBytes = s'.fingerprintBytes := by
  have simple : Simple (object (ofFields fs) : Definition δ) := simple_ofJson tidy
  have simple' : Simple (object (ofFields fs') : Definition δ) := simple_ofJson tidy'
  have form : (object (ofFields fs) : Definition δ).form =
      (object (ofFields fs') : Definition δ).form :=
    (form_ofJson (.obj fs)).trans (same.trans (form_ofJson (.obj fs')).symm)
  obtain ⟨s', compiled', twin⟩ := compile_form simple simple' form ⟨.obj fs', rfl⟩ compiled
  have mirrors := Mirrors.compile simple compiled
  have mirrors' := Mirrors.compile simple' compiled'
  refine ⟨s', compiled', fingerprintBytes_inj.2 ⟨?_, ?_⟩⟩
  · exact root_form_of_alike twin.tree mirrors.sound mirrors'.sound
  · rw [mirrors.indexes, mirrors'.indexes]

/-- Without an identifier and without times, the tree of a schema shows what it was compiled
from. -/
theorem treeJson_compile {fs : List (String × Json)} (tidy : (Json.obj fs).Tidy)
    (field : o.idField = false) (virtual : o.idVirtual = false)
    (times : o.timestamps.fields? = none) (compiled : compile o (ofJson (.obj fs)) = .ok s) :
    s.treeJson = .obj fs := by
  have simple : Simple (object (ofFields fs) : Definition δ) := simple_ofJson tidy
  rw [ofJson, compile_object] at compiled
  obtain ⟨s₁, s₂, s₃, s₄, declared, identified, shown, stamped, rfl⟩ := assemble_ok.1 compiled
  have h₁ := Declares.of_registerAll simple.plainKeys declared
  have noField : s₁.lacksId = false := by rw [lacksId, h₁.done.options, field]; rfl
  rw [addIdField_eq, noField] at identified
  cases identified
  rw [addIdVirtual_of_off (by rw [h₁.done.options, virtual])] at shown
  cases shown
  have options : s₁.addBuiltIn.options = o := h₁.done.options
  rw [addStampFields, options, times] at stamped
  cases stamped
  have tree := (sameNames_addStampHook s₁.addBuiltIn).tree
  rw [treeJson, tree]
  exact h₁.treeJson.trans (congrArg Json.obj (fieldsJson_ofFields fs))

/-- Objects that differ by the order of keys compile or fail together, and are hashed from the same
bytes. Without an identifier and without times, no other objects are hashed from the same bytes. -/
theorem fingerprintBytes_reordered {fs fs' : List (String × Json)} (o : Options)
    (tidy : (Json.obj fs).Tidy) (tidy' : (Json.obj fs').Tidy) :
    (Json.Reordered (.obj fs) (.obj fs') →
      ((∃ s : Schema δ, compile o (ofJson (.obj fs)) = .ok s) ↔
        ∃ s' : Schema δ, compile o (ofJson (.obj fs')) = .ok s') ∧
      ∀ s s' : Schema δ, compile o (ofJson (.obj fs)) = .ok s →
        compile o (ofJson (.obj fs')) = .ok s' → s.fingerprintBytes = s'.fingerprintBytes) ∧
    (o.idField = false → o.idVirtual = false → o.timestamps.fields? = none →
      ∀ s s' : Schema δ, compile o (ofJson (.obj fs)) = .ok s →
        compile o (ofJson (.obj fs')) = .ok s' → s.fingerprintBytes = s'.fingerprintBytes →
          Json.Reordered (.obj fs) (.obj fs')) := by
  constructor
  · intro reordered
    have same := (Json.reordered_iff tidy).1 reordered
    refine ⟨⟨fun ⟨s, h⟩ => ?_, fun ⟨s', h'⟩ => ?_⟩, fun s s' h h' => ?_⟩
    · obtain ⟨s', h', -⟩ := fingerprintBytes_of_form tidy tidy' same h
      exact ⟨s', h'⟩
    · obtain ⟨s, h, -⟩ := fingerprintBytes_of_form tidy' tidy same.symm h'
      exact ⟨s, h⟩
    · obtain ⟨s'', h'', bytes⟩ := fingerprintBytes_of_form tidy tidy' same h
      cases h'.symm.trans h''
      exact bytes
  · intro field virtual times s s' h h' bytes
    obtain ⟨same, -⟩ := fingerprintBytes_inj.1 bytes
    rw [treeJson_compile tidy field virtual times h,
      treeJson_compile tidy' field virtual times h'] at same
    exact (Json.reordered_iff tidy).2 same

/-- A name that has to be set and an age. -/
def personFields : List (String × Json) :=
  [("name", .obj [("type", .str "String"), ("required", .bool true)]), ("age", .str "Number")]

def agedPersonFields : List (String × Json) :=
  [("age", .str "Number"), ("name", .obj [("required", .bool true), ("type", .str "String")])]

theorem reordered_person : Json.Reordered (.obj personFields) (.obj agedPersonFields) :=
  .obj
    (.cons (.obj (.cons (.refl _) (.cons (.refl _) .nil)) (.swap _ _ _)) (.cons (.refl _) .nil))
    (.swap _ _ _)

theorem tidy_personFields : (Json.obj personFields).Tidy := by
  simp [personFields, Json.Tidy, Json.TidyFields, Table.keys]

theorem tidy_agedPersonFields : (Json.obj agedPersonFields).Tidy := by
  simp [agedPersonFields, Json.Tidy, Json.TidyFields, Table.keys]

theorem fingerprintBytes_reordered_person : ∃ s s' : Schema MemoryDocument,
    compile bareOptions (ofJson (.obj personFields)) = .ok s ∧
      compile bareOptions (ofJson (.obj agedPersonFields)) = .ok s' ∧
        s.fingerprintBytes = s'.fingerprintBytes ∧
          Json.Reordered (.obj personFields) (.obj agedPersonFields) := by
  obtain ⟨same, only⟩ := fingerprintBytes_reordered (δ := MemoryDocument) bareOptions
    tidy_personFields tidy_agedPersonFields
  obtain ⟨both, equal⟩ := same reordered_person
  obtain ⟨s, compiled, -⟩ := exists_ok_of_any (p := fun _ => true)
    (x := compile (δ := MemoryDocument) bareOptions (ofJson (.obj personFields))) (by decide +kernel)
  obtain ⟨s', compiled'⟩ := both.1 ⟨s, compiled⟩
  have bytes := equal s s' compiled compiled'
  exact ⟨s, s', compiled, compiled', bytes, only rfl rfl rfl s s' compiled compiled' bytes⟩

end Schema

end DocSchema
