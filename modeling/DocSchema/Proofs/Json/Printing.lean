import DocSchema.Proofs.Decimal.Rounding

/-!
# A text has one value

Two JSON values with one compact text are equal (`chars_injective`). The text of a value ends where
it has to: what follows it, where it cannot be read as more of a number, is determined as well
(`chars_append_inj`). That is what an induction over the value needs.
-/

namespace DocSchema

/-! ### Quoted text -/

namespace Text.Quoted

/-- The value of a digit of base sixteen in lower case. -/
def hexValue (c : Char) : Nat := if c.toNat < 58 then c.toNat - 48 else c.toNat - 87

theorem hexValue_hexDigit : ∀ n, n < 16 → hexValue (hexDigit n) = n := by decide

/-- The first character of a quoted text, read from its written form, and what follows it. -/
def readChar : List Char → Option (Char × List Char)
  | '\\' :: 'b' :: r => some (Char.ofNat 8, r)
  | '\\' :: 't' :: r => some (Char.ofNat 9, r)
  | '\\' :: 'n' :: r => some (Char.ofNat 10, r)
  | '\\' :: 'f' :: r => some (Char.ofNat 12, r)
  | '\\' :: 'r' :: r => some (Char.ofNat 13, r)
  | '\\' :: 'u' :: _ :: _ :: a :: b :: r => some (Char.ofNat (16 * hexValue a + hexValue b), r)
  | '\\' :: c :: r => some (c, r)
  | '"' :: _ => none
  | c :: r => some (c, r)
  | [] => none

theorem readChar_jsonChar (c : Char) (r : List Char) :
    readChar (jsonChar c ++ r) = some (c, r) := by
  have named {n : Nat} (h : c.toNat = n) : some (Char.ofNat n, r) = some (c, r) := by
    rw [← h, Char.ofNat_toNat]
  fun_cases jsonChar c with
  | case1 h =>
    rw [h]
    rfl
  | case2 _ h =>
    rw [h]
    rfl
  | case3 _ _ h => exact named h
  | case4 _ _ _ h => exact named h
  | case5 _ _ _ _ h => exact named h
  | case6 _ _ _ _ _ h => exact named h
  | case7 _ _ _ _ _ _ h => exact named h
  | case8 _ _ _ _ _ _ _ control =>
    have high := hexValue_hexDigit (c.toNat / 16) (by omega)
    have low := hexValue_hexDigit (c.toNat % 16) (by omega)
    refine named ?_
    rw [high, low]
    omega
  | case9 quote backslash => simp [readChar, backslash]

/-- A quoted text says which text it is, and where it ends. -/
theorem json_append_inj {cs cs' r r' : List Char} (h : json cs ++ r = json cs' ++ r') :
    cs = cs' ∧ r = r' := by
  simp only [json, List.cons_append, List.append_assoc, List.nil_append, List.cons.injEq,
    true_and] at h
  induction cs generalizing cs' with
  | nil =>
    cases cs' with
    | nil => exact ⟨rfl, (List.cons.inj h).2⟩
    | cons c cs' =>
      -- the closing quote is not the start of a character
      have read := readChar_jsonChar c (cs'.flatMap jsonChar ++ '"' :: r')
      rw [← List.append_assoc, ← List.flatMap_cons, ← h] at read
      cases read
  | cons c cs ih =>
    cases cs' with
    | nil =>
      have read := readChar_jsonChar c (cs.flatMap jsonChar ++ '"' :: r)
      rw [← List.append_assoc, ← List.flatMap_cons, h] at read
      cases read
    | cons c' cs' =>
      rw [List.flatMap_cons, List.flatMap_cons, List.append_assoc, List.append_assoc] at h
      have read := readChar_jsonChar c (cs.flatMap jsonChar ++ '"' :: r)
      rw [h, readChar_jsonChar] at read
      obtain ⟨rfl, rest⟩ := Prod.mk.inj (Option.some.inj read)
      obtain ⟨rfl, rfl⟩ := ih rest.symm
      exact ⟨rfl, rfl⟩

end Text.Quoted

/-! ### Numbers -/

/-- Whether what follows a number does not go on with it. -/
def Decimal.Ends (r : List Char) : Prop := ∀ c cs, r = c :: cs → isNumberChar c = false

theorem Decimal.takeWhile_ends {r : List Char} (h : Ends r) : r.takeWhile isNumberChar = [] := by
  cases r with
  | nil => rfl
  | cons c cs => rw [List.takeWhile_cons, h c cs rfl]; rfl

namespace Number

theorem intChars_injective {n m : Int} (h : intChars n = intChars m) : n = m := by
  have sign {k : Nat} {cs : List Char} : natChars k ≠ '-' :: cs := fun hk => by
    have digit := isDigit_of_mem_natChars k '-' (by rw [hk]; exact List.mem_cons_self)
    cases digit
  unfold intChars at h
  split at h
  · split at h
    · have same := natChars_injective (List.cons.inj h).2
      omega
    · exact absurd h.symm sign
  · split at h
    · exact absurd h sign
    · have same := natChars_injective h
      omega

theorem isNumberChar_of_mem_chars (n : Number) : ∀ c ∈ n.chars, Decimal.isNumberChar c = true := by
  cases n with
  | int n =>
    have digits := (Decimal.numeric_natChars n.natAbs).all
    rw [chars, intChars]
    split
    · exact List.forall_mem_cons.2 ⟨rfl, digits⟩
    · exact digits
  | double x =>
    have text := (Double.numeric_unsignedChars x).1.all
    rw [chars, Double.chars_eq]
    refine List.forall_mem_append.2 ⟨?_, text⟩
    split <;> exact List.all_eq_true.1 rfl

theorem chars_ne_nil (n : Number) : n.chars ≠ [] := by
  cases n with
  | int n =>
    rw [chars, intChars]
    split
    · exact List.cons_ne_nil _ _
    · exact natChars_ne_nil _
  | double x =>
    obtain ⟨-, c, hc, -⟩ := Double.numeric_unsignedChars x
    rw [chars, Double.chars_eq]
    exact List.append_ne_nil_of_right_ne_nil _ (List.ne_nil_of_mem hc)

/-- An integer is written without a point and without a power of ten, and a double is not. -/
theorem int_ne_double (n : Int) (x : Double) : (int n).chars ≠ (double x).chars := by
  intro h
  obtain ⟨-, c, hc, marked⟩ := Double.numeric_unsignedChars x
  have mem : c ∈ intChars n := by
    show c ∈ (int n).chars
    rw [h, chars, Double.chars_eq]
    exact List.mem_append_right _ hc
  have plain : c = '-' ∨ c.isDigit = true := by
    unfold intChars at mem
    split at mem
    · exact (List.mem_cons.1 mem).imp_right (isDigit_of_mem_natChars _ c)
    · exact .inr (isDigit_of_mem_natChars _ c mem)
  rcases marked with rfl | rfl
  · exact absurd plain (by decide)
  · exact absurd plain (by decide)

/-- Two numbers with one text are equal. -/
theorem chars_injective {n m : Number} (h : n.chars = m.chars) : n = m := by
  cases n with
  | int n =>
    cases m with
    | int m => rw [intChars_injective h]
    | double y => exact absurd h (int_ne_double n y)
  | double x =>
    cases m with
    | int m => exact absurd h.symm (int_ne_double m x)
    | double y => rw [Double.chars_injective h]

/-- The text of a number says which number it is, and it ends where no character of a number
follows. -/
theorem chars_append_inj {n m : Number} {r r' : List Char} (hr : Decimal.Ends r)
    (hr' : Decimal.Ends r') (h : n.chars ++ r = m.chars ++ r') : n = m ∧ r = r' := by
  have split (k : Number) {t : List Char} (ht : Decimal.Ends t) :
      (k.chars ++ t).takeWhile Decimal.isNumberChar = k.chars := by
    rw [List.takeWhile_append_of_pos (isNumberChar_of_mem_chars k), Decimal.takeWhile_ends ht,
      List.append_nil]
  have same : n.chars = m.chars := by rw [← split n hr, h, split m hr']
  rw [same] at h
  exact ⟨chars_injective same, List.append_cancel_left h⟩

end Number

namespace Json

/-! ### Values -/

/-- What the first character of a text says about the value: which literal it is, or that it is a
number, a text, an array or an object. -/
def opening : Json → Char
  | .null => 'n'
  | .bool true => 't'
  | .bool false => 'f'
  | .num _ => '0'
  | .str _ => '"'
  | .arr _ => '['
  | .obj _ => '\x7b'

/-- The first character of a text says what kind of value it is. -/
theorem opening_of_chars {v : Json} {r cs : List Char} {c : Char} (h : v.chars ++ r = c :: cs) :
    v.opening = if Decimal.isNumberChar c then '0' else c := by
  have first {d : Char} {ds : List Char} (hd : v.chars = d :: ds) : d = c := by
    rw [hd] at h
    exact (List.cons.inj h).1
  match v with
  | .null => rw [← first rfl]; rfl
  | .bool true => rw [← first rfl]; rfl
  | .bool false => rw [← first rfl]; rfl
  | .num n =>
    obtain ⟨d, ds, hd⟩ := List.exists_cons_of_ne_nil n.chars_ne_nil
    have number := n.isNumberChar_of_mem_chars d (by rw [hd]; exact List.mem_cons_self)
    rw [← first hd, number]
    rfl
  | .str s => rw [← first rfl]; rfl
  | .arr [] => rw [← first rfl]; rfl
  | .arr (v :: vs) => rw [← first rfl]; rfl
  | .obj [] => rw [← first rfl]; rfl
  | .obj ((k, v) :: fs) => rw [← first rfl]; rfl

theorem chars_ne_nil (v : Json) : v.chars ≠ [] := by
  match v with
  | .null => simp [chars]
  | .bool true => simp [chars]
  | .bool false => simp [chars]
  | .num n => exact n.chars_ne_nil
  | .str s => simp [chars, Text.Quoted.json]
  | .arr [] => simp [chars]
  | .arr (v :: vs) => simp [chars]
  | .obj [] => simp [chars]
  | .obj ((k, v) :: fs) => simp [chars]

theorem opening_eq {v v' : Json} {r r' : List Char} (h : v.chars ++ r = v'.chars ++ r') :
    v.opening = v'.opening := by
  obtain ⟨c, cs, hc⟩ := List.exists_cons_of_ne_nil v.chars_ne_nil
  have hv : v.chars ++ r = c :: (cs ++ r) := by rw [hc]; rfl
  rw [opening_of_chars hv, opening_of_chars (h ▸ hv)]

/-- No value starts with a character that closes an array. -/
theorem chars_append_ne_closed {v : Json} {r cs : List Char} : v.chars ++ r ≠ ']' :: cs := by
  intro h
  have kind : v.opening = ']' := opening_of_chars h
  match v with
  | .bool true => simp [opening] at kind
  | .bool false => simp [opening] at kind
  | .null => simp [opening] at kind
  | .num _ => simp [opening] at kind
  | .str _ => simp [opening] at kind
  | .arr _ => simp [opening] at kind
  | .obj _ => simp [opening] at kind

theorem moreItems_ends (vs : List Json) (r : List Char) : Decimal.Ends (moreItems vs ++ r) := by
  intro c cs h
  cases vs <;> rw [moreItems] at h <;> cases h <;> rfl

theorem moreFields_ends (fs : List (String × Json)) (r : List Char) :
    Decimal.Ends (moreFields fs ++ r) := by
  intro c cs h
  rcases fs with - | ⟨⟨k, v⟩, fs⟩ <;> rw [moreFields] at h <;> cases h <;> rfl

mutual

/-- The text of a value says which value it is, and where it ends. -/
theorem chars_append_inj : ∀ {v v' : Json} {r r' : List Char}, Decimal.Ends r → Decimal.Ends r' →
    v.chars ++ r = v'.chars ++ r' → v = v' ∧ r = r'
  | .null, v', r, r', _, _, h => by
    cases v' with
    | null => exact ⟨rfl, List.append_cancel_left h⟩
    | bool b => cases b <;> exact absurd (opening_eq h) (by simp [opening])
    | _ => exact absurd (opening_eq h) (by simp [opening])
  | .bool b, v', r, r', _, _, h => by
    cases v' with
    | bool b' =>
      have kind := opening_eq h
      have same : b = b' := by cases b <;> cases b' <;> simp [opening] at kind ⊢
      subst same
      exact ⟨rfl, List.append_cancel_left h⟩
    | _ => cases b <;> exact absurd (opening_eq h) (by simp [opening])
  | .num n, v', r, r', hr, hr', h => by
    cases v' with
    | num m =>
      obtain ⟨rfl, rest⟩ := Number.chars_append_inj hr hr' h
      exact ⟨rfl, rest⟩
    | bool b => cases b <;> exact absurd (opening_eq h) (by simp [opening])
    | _ => exact absurd (opening_eq h) (by simp [opening])
  | .str s, v', r, r', _, _, h => by
    cases v' with
    | str s' =>
      obtain ⟨same, rest⟩ := Text.Quoted.json_append_inj h
      rw [String.toList_inj.1 same]
      exact ⟨rfl, rest⟩
    | bool b => cases b <;> exact absurd (opening_eq h) (by simp [opening])
    | _ => exact absurd (opening_eq h) (by simp [opening])
  | .arr items, v', r, r', _, _, h => by
    cases v' with
    | arr items' =>
      match items, items' with
      | [], [] => exact ⟨rfl, List.append_cancel_left h⟩
      | [], v' :: vs' =>
        simp only [chars, List.cons_append, List.append_assoc, List.cons.injEq, true_and] at h
        exact absurd h.symm chars_append_ne_closed
      | v :: vs, [] =>
        simp only [chars, List.cons_append, List.append_assoc, List.cons.injEq, true_and] at h
        exact absurd h chars_append_ne_closed
      | v :: vs, v' :: vs' =>
        simp only [chars, List.cons_append, List.append_assoc, List.cons.injEq, true_and] at h
        obtain ⟨rfl, more⟩ := chars_append_inj (moreItems_ends vs r) (moreItems_ends vs' r') h
        obtain ⟨rfl, rest⟩ := moreItems_append_inj more
        exact ⟨rfl, rest⟩
    | bool b => cases b <;> exact absurd (opening_eq h) (by simp [opening])
    | _ => exact absurd (opening_eq h) (by simp [opening])
  | .obj fields, v', r, r', _, _, h => by
    cases v' with
    | obj fields' =>
      match fields, fields' with
      | [], [] => exact ⟨rfl, List.append_cancel_left h⟩
      | [], (k', v') :: fs' => cases (List.cons.inj h).2
      | (k, v) :: fs, [] => cases (List.cons.inj h).2
      | (k, v) :: fs, (k', v') :: fs' =>
        simp only [chars, List.cons_append, List.append_assoc, List.cons.injEq, true_and] at h
        obtain ⟨key, value⟩ := Text.Quoted.json_append_inj h
        obtain ⟨rfl, more⟩ := chars_append_inj (moreFields_ends fs r) (moreFields_ends fs' r')
          (List.cons.inj value).2
        obtain ⟨rfl, rest⟩ := moreFields_append_inj more
        rw [String.toList_inj.1 key]
        exact ⟨rfl, rest⟩
    | bool b => cases b <;> exact absurd (opening_eq h) (by simp [opening])
    | _ => exact absurd (opening_eq h) (by simp [opening])

theorem moreItems_append_inj : ∀ {vs vs' : List Json} {r r' : List Char},
    moreItems vs ++ r = moreItems vs' ++ r' → vs = vs' ∧ r = r'
  | [], [], _, _, h => ⟨rfl, List.append_cancel_left h⟩
  | [], _ :: _, _, _, h => by cases h
  | _ :: _, [], _, _, h => by cases h
  | v :: vs, v' :: vs', r, r', h => by
    simp only [moreItems, List.cons_append, List.append_assoc, List.cons.injEq, true_and] at h
    obtain ⟨rfl, more⟩ := chars_append_inj (moreItems_ends vs r) (moreItems_ends vs' r') h
    obtain ⟨rfl, rest⟩ := moreItems_append_inj more
    exact ⟨rfl, rest⟩

theorem moreFields_append_inj : ∀ {fs fs' : List (String × Json)} {r r' : List Char},
    moreFields fs ++ r = moreFields fs' ++ r' → fs = fs' ∧ r = r'
  | [], [], _, _, h => ⟨rfl, List.append_cancel_left h⟩
  | [], (_, _) :: _, _, _, h => by cases h
  | (_, _) :: _, [], _, _, h => by cases h
  | (k, v) :: fs, (k', v') :: fs', r, r', h => by
    simp only [moreFields, List.cons_append, List.append_assoc, List.cons.injEq, true_and] at h
    obtain ⟨key, value⟩ := Text.Quoted.json_append_inj h
    obtain ⟨rfl, more⟩ := chars_append_inj (moreFields_ends fs r) (moreFields_ends fs' r')
      (List.cons.inj value).2
    obtain ⟨rfl, rest⟩ := moreFields_append_inj more
    rw [String.toList_inj.1 key]
    exact ⟨rfl, rest⟩

end

/-- Two values with one compact text are equal. -/
theorem chars_injective {v v' : Json} (h : v.chars = v'.chars) : v = v' := by
  have nothing : Decimal.Ends [] := fun c cs hc => by cases hc
  exact (chars_append_inj nothing nothing (congrArg (· ++ []) h)).1

end Json

end DocSchema
