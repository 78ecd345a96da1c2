import DocSchema.Proofs.Tree.Frame

/-!
# Trees that are alike

Two trees are alike if they have the same names, in whatever order, and fields that are related at
the same places. Inserting related fields at one place keeps trees alike, and where one insertion
succeeds the other one does (`Alike.insertField`, `Alike.insertVirtual`).

Every tree that is built by insertions is `Sound`: no branch holds a name twice, and no branch but
the root is empty.
-/

namespace DocSchema

variable {α β : Type} {R : α → β → Prop}

/-! ### Values that may be missing -/

theorem eq_none_of_rel {y : Option β} (h : Option.Rel R none y) : y = none := by
  cases h
  rfl

theorem exists_of_rel {a : α} {y : Option β} (h : Option.Rel R (some a) y) :
    ∃ b, y = some b ∧ R a b := by
  cases h with
  | some hab => exact ⟨_, rfl, hab⟩

theorem isSome_of_rel {x : Option α} {y : Option β} (h : Option.Rel R x y) :
    x.isSome = y.isSome := by
  cases h <;> rfl

namespace Tree

/-! ### Sound trees -/

/-- Whether no branch of a tree is empty or holds a name twice. -/
inductive Sound : Tree α → Prop
  | branch {children : Table (Tree α)} (some_child : children ≠ [])
      (distinct : (Table.keys children).Nodup) (inner : ∀ e ∈ children, Sound e.2) :
      Sound (.branch children)
  | field (a : α) : Sound (.field a)
  | virtual : Sound .virtual

/-- Whether the branches below the root are sound and the root holds no name twice. -/
structure SoundRoot (root : Table (Tree α)) : Prop where
  distinct : (Table.keys root).Nodup
  inner : ∀ e ∈ root, Sound e.2

theorem soundRoot_nil : SoundRoot ([] : Table (Tree α)) := ⟨List.nodup_nil, by simp⟩

theorem SoundRoot.node {root : Table (Tree α)} (h : SoundRoot root) {name : String} {x : Tree α}
    (hx : Table.get? root name = some x) : Sound x :=
  h.inner _ (Table.mem_of_get? hx)

theorem Sound.root {children : Table (Tree α)} (h : Sound (.branch children)) :
    SoundRoot children := by
  cases h with
  | branch _ distinct inner => exact ⟨distinct, inner⟩

theorem Sound.ne_nil {children : Table (Tree α)} (h : Sound (.branch children)) :
    children ≠ [] := by
  cases h with
  | branch some_child _ _ => exact some_child

theorem SoundRoot.get? : ∀ {names : List String} {root : Table (Tree α)} {x : Tree α},
    SoundRoot root → Tree.get? names root = some x → Sound x
  | [name], _, _, h, hx => h.node hx
  | name :: s :: rest, root, x, h, hx => by
    rw [get?_cons_cons] at hx
    split at hx
    · next inner hi => exact SoundRoot.get? (h.node hi).root hx
    · cases hx

theorem SoundRoot.inner? {root inner : Table (Tree α)} {name : String} (h : SoundRoot root)
    (hi : inner? root name = some inner) : SoundRoot inner := by
  unfold Tree.inner? at hi
  split at hi
  · cases hi
    exact soundRoot_nil
  · next hg =>
    cases hi
    exact (h.node hg).root
  · cases hi

theorem insert_ne_nil {γ : Type} (t : Table γ) (key : String) (a : γ) : Table.insert t key a ≠ [] := by
  cases t with
  | nil => simp [Table.insert]
  | cons e t =>
    obtain ⟨k, b⟩ := e
    by_cases hk : k = key <;> simp [Table.insert, hk]

theorem SoundRoot.insert {root : Table (Tree α)} (h : SoundRoot root) (name : String) {x : Tree α}
    (hx : Sound x) : SoundRoot (Table.insert root name x) where
  distinct := Table.nodup_keys_insert root name x h.distinct
  inner e he := by
    rcases Table.mem_insert he with rfl | he
    · exact hx
    · exact h.inner e he

/-- A change of the last branch that keeps roots sound and leaves something there does so anywhere
below. -/
theorem SoundRoot.changeAt
    {change : Table (Tree α) → String → Except (List String) (Table (Tree α))}
    (hc : ∀ {children last children'}, SoundRoot children → change children last = .ok children' →
      SoundRoot children' ∧ children' ≠ []) :
    ∀ {segments : List String} {root root' : Table (Tree α)}, segments ≠ [] → SoundRoot root →
      Tree.changeAt change segments root = .ok root' → SoundRoot root' ∧ root' ≠ []
  | [], _, _, hs, _, _ => absurd rfl hs
  | [last], root, root', _, h, run => hc h run
  | name :: s :: rest, root, root', _, h, run => by
    obtain ⟨inner, inner', hi, run', rfl⟩ := changeAt_cons_ok (by simp) run
    obtain ⟨sound, some_child⟩ := changeAt hc (by simp) (h.inner? hi) run'
    exact ⟨h.insert name (.branch some_child sound.distinct sound.inner), insert_ne_nil _ _ _⟩

theorem SoundRoot.insertField {segments : List String} {a : α} {root root' : Table (Tree α)}
    (hs : segments ≠ []) (h : SoundRoot root) (run : insertField segments a root = .ok root') :
    SoundRoot root' := by
  refine (SoundRoot.changeAt (fun {children last children'} hc hr => ?_) hs h run).1
  cases hr
  exact ⟨hc.insert last (.field a), insert_ne_nil _ _ _⟩

theorem SoundRoot.insertVirtual {segments : List String} {root root' : Table (Tree α)}
    (hs : segments ≠ []) (h : SoundRoot root) (run : insertVirtual segments root = .ok root') :
    SoundRoot root' := by
  refine (SoundRoot.changeAt (fun {children last children'} hc hr => ?_) hs h run).1
  split at hr
  · cases hr
    exact ⟨hc.insert last .virtual, insert_ne_nil _ _ _⟩
  · next hg =>
    cases hr
    refine ⟨hc, ?_⟩
    rintro rfl
    cases hg
  · cases hr

/-! ### Alike trees -/

/-- Two trees with the same names and with related fields. -/
inductive Alike (R : α → β → Prop) : Tree α → Tree β → Prop
  | branch {children : Table (Tree α)} {children' : Table (Tree β)}
      (names : ∀ name, Table.contains children name = Table.contains children' name)
      (nodes : ∀ name x x', Table.get? children name = some x →
        Table.get? children' name = some x' → Alike R x x') :
      Alike R (.branch children) (.branch children')
  | field {a : α} {a' : β} (h : R a a') : Alike R (.field a) (.field a')
  | virtual : Alike R .virtual .virtual

namespace Alike

variable {root : Table (Tree α)} {root' : Table (Tree β)}

/-- What stands under a name of two alike branches is alike, if anything does. -/
theorem at_name (h : Alike R (.branch root) (.branch root')) (name : String) :
    Option.Rel (Alike R) (Table.get? root name) (Table.get? root' name) := by
  cases h with
  | branch names nodes =>
    have known := names name
    unfold Table.contains at known
    cases hx : Table.get? root name with
    | none =>
      cases hx' : Table.get? root' name with
      | none => exact .none
      | some x' => simp [hx, hx'] at known
    | some x =>
      cases hx' : Table.get? root' name with
      | none => simp [hx, hx'] at known
      | some x' => exact .some (nodes name x x' hx hx')

theorem of_at_name
    (h : ∀ name, Option.Rel (Alike R) (Table.get? root name) (Table.get? root' name)) :
    Alike R (.branch root) (.branch root') := by
  refine .branch (fun name => isSome_of_rel (h name)) fun name x x' hx hx' => ?_
  have rel := h name
  rw [hx] at rel
  obtain ⟨y, hy, alike⟩ := exists_of_rel rel
  obtain rfl := Option.some.inj (hx'.symm.trans hy)
  exact alike

/-- What stands at the same place of two alike trees is alike, if anything does. -/
theorem get? : ∀ {root : Table (Tree α)} {root' : Table (Tree β)},
    Alike R (.branch root) (.branch root') → ∀ segments : List String,
      Option.Rel (Alike R) (Tree.get? segments root) (Tree.get? segments root')
  | _, _, _, [] => .none
  | _, _, h, [name] => h.at_name name
  | root, root', h, name :: s :: rest => by
    have here := h.at_name name
    rw [get?_cons_cons, get?_cons_cons]
    cases hx : Table.get? root name with
    | none =>
      rw [hx] at here
      rw [eq_none_of_rel here]
      exact .none
    | some x =>
      rw [hx] at here
      obtain ⟨x', hx', alike⟩ := exists_of_rel here
      rw [hx']
      cases alike with
      | branch names nodes => exact get? (.branch names nodes) (s :: rest)
      | field _ => exact .none
      | virtual => exact .none

/-- Where one of two alike trees has a field, the other one has a field that is related. -/
theorem field_at (h : Alike R (.branch root) (.branch root')) {names : List String} {a : α}
    (ha : Tree.get? names root = some (.field a)) :
    ∃ a', Tree.get? names root' = some (.field a') ∧ R a a' := by
  have here := h.get? names
  rw [ha] at here
  obtain ⟨x', hx', alike⟩ := exists_of_rel here
  cases alike with
  | field related => exact ⟨_, hx', related⟩

theorem branch_at (h : Alike R (.branch root) (.branch root')) {names : List String}
    {inner : Table (Tree α)} (hi : Tree.get? names root = some (.branch inner)) :
    ∃ inner', Tree.get? names root' = some (.branch inner') := by
  have here := h.get? names
  rw [hi] at here
  obtain ⟨x', hx', alike⟩ := exists_of_rel here
  cases alike with
  | branch _ _ => exact ⟨_, hx'⟩

theorem symm {x : Tree α} {y : Tree β} (h : Alike R x y) : Alike (fun b a => R a b) y x := by
  induction h with
  | branch names _ ih =>
    exact .branch (fun name => (names name).symm) fun name x x' hx hx' => ih name x' x hx' hx
  | field related => exact .field related
  | virtual => exact .virtual

theorem insert (h : Alike R (.branch root) (.branch root')) (name : String) {x : Tree α}
    {x' : Tree β} (hx : Alike R x x') :
    Alike R (.branch (Table.insert root name x)) (.branch (Table.insert root' name x')) := by
  refine of_at_name fun other => ?_
  by_cases ho : other = name
  · subst ho
    rw [Table.get?_insert_self, Table.get?_insert_self]
    exact .some hx
  · rw [Table.get?_insert_of_ne _ _ ho, Table.get?_insert_of_ne _ _ ho]
    exact h.at_name other

theorem nil : Alike R (.branch []) (.branch []) :=
  .branch (fun _ => rfl) fun _ _ _ h => by cases h

/-- Below a name of two alike branches lie alike branches, or both names are bound. -/
theorem inner? (h : Alike R (.branch root) (.branch root')) {name : String}
    {inner : Table (Tree α)} (hi : Tree.inner? root name = some inner) :
    ∃ inner', Tree.inner? root' name = some inner' ∧ Alike R (.branch inner) (.branch inner') := by
  have here := h.at_name name
  unfold Tree.inner? at hi ⊢
  cases hx : Table.get? root name with
  | none =>
    rw [hx] at here hi
    cases hi
    rw [eq_none_of_rel here]
    exact ⟨[], rfl, nil⟩
  | some x =>
    rw [hx] at here hi
    obtain ⟨x', hx', alike⟩ := exists_of_rel here
    rw [hx']
    cases alike with
    | branch names nodes =>
      cases hi
      exact ⟨_, rfl, .branch names nodes⟩
    | field _ => cases hi
    | virtual => cases hi

/-- Changes that keep alike branches alike, and succeed together, do so anywhere below. -/
theorem changeAt
    {change : Table (Tree α) → String → Except (List String) (Table (Tree α))}
    {change' : Table (Tree β) → String → Except (List String) (Table (Tree β))}
    (hc : ∀ children children' last result, Alike R (.branch children) (.branch children') →
      change children last = .ok result →
        ∃ result', change' children' last = .ok result' ∧ Alike R (.branch result) (.branch result')) :
    ∀ {segments : List String} {root : Table (Tree α)} {root' : Table (Tree β)}
      {result : Table (Tree α)}, Alike R (.branch root) (.branch root') →
        Tree.changeAt change segments root = .ok result →
          ∃ result', Tree.changeAt change' segments root' = .ok result' ∧
            Alike R (.branch result) (.branch result')
  | [], root, root', _, h, run => by
    cases run
    exact ⟨root', rfl, h⟩
  | [last], _, _, _, h, run => hc _ _ _ _ h run
  | name :: s :: rest, root, root', _, h, run => by
    obtain ⟨inner, result, hi, below, rfl⟩ := changeAt_cons_ok (by simp) run
    obtain ⟨inner', hi', alike⟩ := h.inner? hi
    obtain ⟨result', below', alike'⟩ := changeAt hc alike below
    refine ⟨_, ?_, h.insert name alike'⟩
    rw [changeAt_cons (by simp), hi']
    dsimp only
    rw [below']

/-- Related fields can be put into alike trees at the same place. -/
theorem insertField {segments : List String} {a : α} {a' : β} {result : Table (Tree α)}
    (h : Alike R (.branch root) (.branch root')) (ha : R a a')
    (run : Tree.insertField segments a root = .ok result) :
    ∃ result', Tree.insertField segments a' root' = .ok result' ∧
      Alike R (.branch result) (.branch result') := by
  refine changeAt (fun children children' last result hc hr => ?_) h run
  cases hr
  exact ⟨_, rfl, hc.insert last (.field ha)⟩

/-- A virtual can be put into alike trees at the same place. -/
theorem insertVirtual {segments : List String} {result : Table (Tree α)}
    (h : Alike R (.branch root) (.branch root'))
    (run : Tree.insertVirtual segments root = .ok result) :
    ∃ result', Tree.insertVirtual segments root' = .ok result' ∧
      Alike R (.branch result) (.branch result') := by
  refine changeAt (fun children children' last result hc hr => ?_) h run
  have here := hc.at_name last
  split at hr
  · next hg =>
    cases hr
    rw [hg] at here
    rw [eq_none_of_rel here]
    exact ⟨_, rfl, hc.insert last .virtual⟩
  · next hg =>
    cases hr
    rw [hg] at here
    obtain ⟨x', hx', alike⟩ := exists_of_rel here
    cases alike
    rw [hx']
    exact ⟨children', rfl, hc⟩
  · cases hr

end Alike

end Tree

end DocSchema
