import Mathlib.Data.List.Forall2
import Mathlib.Data.List.TakeWhile
import DocSchema.Document.Memory
import DocSchema.Schema.Indexes

/-!
# Which texts are durations

A duration is written as an amount and a unit, with white space before, between and behind them.
`IsDuration` says this of a text as a whole; the reading trims, cuts at the first character that
cannot stand in an amount, and trims again. Since neither an amount nor a unit holds white space,
and no unit starts like an amount goes on, the cut can only fall between the two
(`secondsOfText?_isSome_iff`).

So an index takes exactly these texts for the duration after which documents expire, and a schema
that is given any other text stays as it is (`addIndex_expiring`).
-/

namespace DocSchema

/-! ### Trimming -/

namespace Text

/-- What trimming takes away is white space. -/
theorem exists_trim (cs : List Char) :
    ∃ front back, (∀ c ∈ front, isBlank c = true) ∧ (∀ c ∈ back, isBlank c = true) ∧
      cs = front ++ trim cs ++ back := by
  have behind : trimStart cs =
      trim cs ++ ((trimStart cs).reverse.takeWhile isBlank).reverse := by
    rw [trim, trimEnd, ← List.reverse_append, List.takeWhile_append_dropWhile,
      List.reverse_reverse]
  refine ⟨cs.takeWhile isBlank, ((trimStart cs).reverse.takeWhile isBlank).reverse, ?_, ?_, ?_⟩
  · exact fun c taken => List.mem_takeWhile_imp taken
  · exact fun c taken => List.mem_takeWhile_imp (List.mem_reverse.1 taken)
  · rw [List.append_assoc, ← behind, trimStart, List.takeWhile_append_dropWhile]

theorem dropWhile_isBlank_append {cs : List Char} (some_char : cs ≠ [])
    (starts : ∀ c ∈ cs.head?, isBlank c = false) (rest : List Char) :
    (cs ++ rest).dropWhile isBlank = cs ++ rest := by
  cases cs with
  | nil => exact absurd rfl some_char
  | cons c cs =>
    rw [List.cons_append, List.dropWhile_cons_of_neg]
    simp [starts c rfl]

/-- Trimming stops at the first and at the last character that is no white space. -/
theorem trim_between {front cs back : List Char} (opening : ∀ c ∈ front, isBlank c = true)
    (closing : ∀ c ∈ back, isBlank c = true) (starts : ∀ c ∈ cs.head?, isBlank c = false)
    (ends : ∀ c ∈ cs.getLast?, isBlank c = false) : trim (front ++ cs ++ back) = cs := by
  rw [trim, trimStart, List.append_assoc, List.dropWhile_append_of_pos opening]
  by_cases nothing : cs = []
  · subst nothing
    rw [List.nil_append, List.dropWhile_eq_nil_iff.2 closing]
    rfl
  · have turned : ∀ c ∈ back.reverse, isBlank c = true := by simpa using closing
    rw [dropWhile_isBlank_append nothing starts back, trimEnd, List.reverse_append,
      List.dropWhile_append_of_pos turned]
    have stays := dropWhile_isBlank_append (List.reverse_ne_nil_iff.2 nothing)
      (by simpa using ends) []
    rw [List.append_nil] at stays
    rw [stays, List.reverse_reverse]

end Text

/-! ### Spellings of units -/

/-- A spelling with any of its letters in upper case. -/
def InAnyCase (spelling written : List Char) : Prop :=
  List.Forall₂ (fun c d => d = c ∨ d = c.toUpper) spelling written

theorem toNat_of_isLower {c : Char} (small : c.isLower = true) :
    97 ≤ c.toNat ∧ c.toNat ≤ 122 := by
  have bounds := Bool.and_eq_true_iff.1 small
  exact ⟨UInt32.le_iff_toNat_le.1 (of_decide_eq_true bounds.1),
    UInt32.le_iff_toNat_le.1 (of_decide_eq_true bounds.2)⟩

theorem toNat_toUpper {c : Char} (small : c.isLower = true) :
    c.toUpper.toNat = c.toNat - 32 := by
  have range := toNat_of_isLower small
  have letter : 'a'.val ≤ c.val ∧ c.val ≤ 'z'.val :=
    ⟨UInt32.le_iff_toNat_le.2 range.1, UInt32.le_iff_toNat_le.2 range.2⟩
  have upper : c.toUpper.val = c.val + ('A'.val - 'a'.val) := by
    show Char.val (dite ('a'.val ≤ c.val ∧ c.val ≤ 'z'.val) _ _) = _
    rw [dif_pos letter]
  have sum : c.toUpper.toNat = (c.toNat + ('A'.val - 'a'.val).toNat) % 2 ^ 32 :=
    (congrArg UInt32.toNat upper).trans (UInt32.toNat_add _ _)
  have shift : ('A'.val - 'a'.val).toNat = 2 ^ 32 - 32 := by decide
  omega

theorem toNat_toLower (c : Char) :
    c.toLower.toNat = if 65 ≤ c.toNat ∧ c.toNat ≤ 90 then c.toNat + 32 else c.toNat := by
  have bounds : c.val ≥ 'A'.val ∧ c.val ≤ 'Z'.val ↔ 65 ≤ c.toNat ∧ c.toNat ≤ 90 :=
    and_congr UInt32.le_iff_toNat_le UInt32.le_iff_toNat_le
  split
  · next range =>
    have lower : c.toLower.val = c.val + ('a'.val - 'A'.val) :=
      congrArg Char.val (dif_pos (bounds.2 range))
    have sum : c.toLower.toNat = (c.toNat + ('a'.val - 'A'.val).toNat) % 2 ^ 32 :=
      (congrArg UInt32.toNat lower).trans (UInt32.toNat_add _ _)
    have shift : ('a'.val - 'A'.val).toNat = 32 := by decide
    omega
  · next other => exact congrArg Char.toNat (dif_neg fun letter => other (bounds.1 letter))

/-- A small letter is the lower case of itself and of its upper case, and of nothing else. -/
theorem toLower_eq_iff {c d : Char} (small : c.isLower = true) :
    d.toLower = c ↔ d = c ∨ d = c.toUpper := by
  have range := toNat_of_isLower small
  rw [← Char.toNat_inj, ← Char.toNat_inj, ← Char.toNat_inj, toNat_toLower, toNat_toUpper small]
  split <;> omega

theorem lowerAscii_eq_iff {spelling cs : List Char} (small : ∀ c ∈ spelling, c.isLower = true) :
    Text.lowerAscii cs = spelling ↔ InAnyCase spelling cs := by
  rw [Text.lowerAscii, InAnyCase]
  induction spelling generalizing cs with
  | nil => simp
  | cons c spelling ih =>
    cases cs with
    | nil => simp
    | cons d cs =>
      have small_rest := fun k known => small k (List.mem_cons_of_mem c known)
      rw [List.map_cons, List.cons_eq_cons, List.forall₂_cons,
        toLower_eq_iff (small c List.mem_cons_self), ih small_rest]

namespace TimeUnit

/-- Units are spelled in lower-case letters. -/
theorem isLower_of_mem_spellings {u : TimeUnit} {spelling : String}
    (known : spelling ∈ u.spellings) : ∀ c ∈ spelling.toList, c.isLower = true := by
  have every : ∀ u : TimeUnit, ∀ spelling ∈ u.spellings,
      spelling.toList.all Char.isLower = true := by
    intro u
    cases u <;> decide
  exact List.all_eq_true.1 (every u spelling known)

theorem mem_all (u : TimeUnit) : u ∈ all := by cases u <;> decide

/-- A text is read as a unit if it is one of its spellings, in any case. -/
theorem ofSpelling?_isSome_iff {cs : List Char} :
    (ofSpelling? cs).isSome = true ↔
      ∃ u : TimeUnit, ∃ spelling ∈ u.spellings, InAnyCase spelling.toList cs := by
  rw [ofSpelling?, List.find?_isSome]
  constructor
  · rintro ⟨u, -, listed⟩
    have known : String.ofList (Text.lowerAscii cs) ∈ u.spellings := by simpa using listed
    have spelled := (lowerAscii_eq_iff (isLower_of_mem_spellings known)).1
      String.toList_ofList.symm
    exact ⟨u, _, known, spelled⟩
  · rintro ⟨u, spelling, known, spelled⟩
    have same := (lowerAscii_eq_iff (isLower_of_mem_spellings known)).2 spelled
    refine ⟨u, mem_all u, ?_⟩
    rw [same, String.ofList_toList]
    simpa using known

end TimeUnit

namespace Duration

/-! ### Amounts -/

/-- An amount as it is written: digits, and at most one point before, among or after them. -/
structure IsAmount (cs : List Char) : Prop where
  digit : ∃ c ∈ cs, c.isDigit = true
  point : cs.count '.' ≤ 1
  only : ∀ c ∈ cs, c.isDigit = true ∨ c = '.'

theorem count_point_of_digits {cs : List Char} (digits : ∀ c ∈ cs, c.isDigit = true) :
    cs.count '.' = 0 := by
  rw [List.count_eq_zero]
  intro known
  exact absurd (digits '.' known) (by decide)

theorem isAmount_digits {ds : List Char} (digits : ∀ c ∈ ds, c.isDigit = true) :
    IsAmount ds ↔ ds ≠ [] := by
  constructor
  · rintro ⟨⟨d, known, -⟩, -, -⟩
    exact List.ne_nil_of_mem known
  · intro some_digit
    obtain ⟨d, known⟩ := List.exists_mem_of_ne_nil ds some_digit
    exact ⟨⟨d, known, digits d known⟩, by rw [count_point_of_digits digits]; exact Nat.zero_le 1,
      fun c known => .inl (digits c known)⟩

theorem isAmount_point {ds fraction : List Char} (digits : ∀ c ∈ ds, c.isDigit = true) :
    IsAmount (ds ++ '.' :: fraction) ↔
      (∀ c ∈ fraction, c.isDigit = true) ∧ ds ++ fraction ≠ [] := by
  constructor
  · rintro ⟨⟨d, known, digit⟩, point, only⟩
    rw [List.count_append, count_point_of_digits digits, List.count_cons_self] at point
    have no_point : '.' ∉ fraction := List.count_eq_zero.1 (by omega)
    constructor
    · intro c known
      rcases only c (by simp [known]) with digit | rfl
      · exact digit
      · exact absurd known no_point
    · -- the digit is not the point, so it stands on one side of it
      have : d ≠ '.' := by
        rintro rfl
        cases digit
      have beside : d ∈ ds ++ fraction := by simpa [this] using known
      exact List.ne_nil_of_mem beside
  · rintro ⟨after, some_digit⟩
    have every : ∀ c ∈ ds ++ fraction, c.isDigit = true := by
      intro c known
      exact (List.mem_append.1 known).elim (digits c) (after c)
    obtain ⟨d, known⟩ := List.exists_mem_of_ne_nil _ some_digit
    constructor
    case digit =>
      have within : d ∈ ds ++ '.' :: fraction := by
        rcases List.mem_append.1 known with before | behind
        · exact List.mem_append_left _ before
        · exact List.mem_append_right _ (List.mem_cons_of_mem _ behind)
      exact ⟨d, within, every d known⟩
    case point =>
      rw [List.count_append, List.count_cons_self, count_point_of_digits digits,
        count_point_of_digits after]
    case only =>
      intro c known
      rcases List.mem_append.1 known with before | behind
      · exact .inl (digits c before)
      · exact (List.mem_cons.1 behind).elim .inr fun behind => .inl (after c behind)

/-- Exactly the amounts can be read as one. -/
theorem amount?_isSome_iff {cs : List Char} : (amount? cs).isSome = true ↔ IsAmount cs := by
  have digits : ∀ c ∈ cs.takeWhile Char.isDigit, c.isDigit = true :=
    fun c taken => List.mem_takeWhile_imp taken
  have split := List.takeWhile_append_dropWhile (p := Char.isDigit) (l := cs)
  unfold amount? spanDigits
  cases rest : cs.dropWhile Char.isDigit with
  | nil =>
    rw [rest, List.append_nil] at split
    rw [split] at digits
    rw [isAmount_digits digits, split]
    cases cs <;> simp
  | cons c fraction =>
    have stop : c.isDigit = false := by
      have := List.head_dropWhile_not Char.isDigit (l := cs) (by simp [rest])
      simpa [rest] using this
    rw [rest] at split
    by_cases point : c = '.'
    · subst point
      rw [← split, isAmount_point digits, split]
      simp
    · have refused : ¬ IsAmount cs := by
        intro amount
        have here := amount.only c (by rw [← split]; simp)
        rcases here with digit | same
        · rw [stop] at digit
          cases digit
        · exact point same
      simp [refused, point]

/-! ### Where the text is cut -/

theorem isBlank_of_visible {c : Char} (above : 32 < c.toNat) (under : c.toNat < 127) :
    Text.isBlank c = false := by
  simp [Text.isBlank, Text.blanks, Text.CharSet.has, Text.CharSet.hasCode]
  omega

theorem toNat_of_isAmountChar {c : Char} (number : isAmountChar c = true) :
    46 ≤ c.toNat ∧ c.toNat ≤ 57 := by
  rcases Bool.or_eq_true_iff.1 number with digit | point
  · have range : 48 ≤ c.toNat ∧ c.toNat ≤ 57 := Char.isDigit_iff_toNat.1 digit
    omega
  · rw [of_decide_eq_true point]
    decide

theorem isBlank_of_isAmountChar {c : Char} (number : isAmountChar c = true) :
    Text.isBlank c = false := by
  have range := toNat_of_isAmountChar number
  exact isBlank_of_visible (by omega) (by omega)

/-- Units are written in letters. -/
theorem toNat_of_inAnyCase {spelling unit : List Char} (spelled : InAnyCase spelling unit)
    (small : ∀ c ∈ spelling, c.isLower = true) :
    ∀ c ∈ unit, 65 ≤ c.toNat ∧ c.toNat ≤ 122 := by
  induction spelled with
  | nil => simp
  | @cons c d spelling unit same _ ih =>
    have letter := small c List.mem_cons_self
    have range := toNat_of_isLower letter
    rw [List.forall_mem_cons]
    refine ⟨?_, ih fun k known => small k (List.mem_cons_of_mem c known)⟩
    rcases same with rfl | rfl
    · omega
    · rw [toNat_toUpper letter]
      omega

/-- A text that is cut at the end of an amount. -/
theorem span_amount {amount rest : List Char} (number : ∀ c ∈ amount, isAmountChar c = true)
    (stop : ∀ c ∈ rest, isAmountChar c = false) :
    (amount ++ rest).takeWhile isAmountChar = amount ∧
      (amount ++ rest).dropWhile isAmountChar = rest := by
  rw [List.takeWhile_append_of_pos number, List.dropWhile_append_of_pos number]
  cases rest with
  | nil => simp
  | cons c rest => simp [stop c List.mem_cons_self]

/-! ### Reading -/

/-- A duration as it is written: an amount and a unit, with white space in front, between and
behind. A bare number has the empty spelling for its unit. -/
inductive IsDuration : List Char → Prop where
  | parts {front amount space unit back : List Char} {u : TimeUnit} {spelling : String}
      (opening : ∀ c ∈ front, Text.isBlank c = true) (number : IsAmount amount)
      (gap : ∀ c ∈ space, Text.isBlank c = true) (known : spelling ∈ u.spellings)
      (spelled : InAnyCase spelling.toList unit) (closing : ∀ c ∈ back, Text.isBlank c = true) :
      IsDuration (front ++ amount ++ space ++ unit ++ back)

theorem IsAmount.isAmountChar {amount : List Char} (number : IsAmount amount) :
    ∀ c ∈ amount, isAmountChar c = true := by
  intro c known
  rcases number.only c known with digit | rfl
  · simp [Duration.isAmountChar, digit]
  · rfl

theorem secondsOfText?_isSome (text : String) :
    (secondsOfText? text).isSome = true ↔
      IsAmount ((Text.trim text.toList).takeWhile isAmountChar) ∧
        ∃ u : TimeUnit, ∃ spelling ∈ u.spellings, InAnyCase spelling.toList
          (Text.trim ((Text.trim text.toList).dropWhile isAmountChar)) := by
  rw [← amount?_isSome_iff, ← TimeUnit.ofSpelling?_isSome_iff, secondsOfText?]
  cases amount? ((Text.trim text.toList).takeWhile isAmountChar) with
  | none => simp
  | some a =>
    cases TimeUnit.ofSpelling?
        (Text.trim ((Text.trim text.toList).dropWhile isAmountChar)) <;> simp

/-- What is left of a duration without the white space around it. Where there is no unit, the white
space before it goes as well. -/
theorem trim_parts {front amount space unit back : List Char}
    (opening : ∀ c ∈ front, Text.isBlank c = true) (number : IsAmount amount)
    (gap : ∀ c ∈ space, Text.isBlank c = true) (letters : ∀ c ∈ unit, Text.isBlank c = false)
    (closing : ∀ c ∈ back, Text.isBlank c = true) :
    ∃ left, (∀ c ∈ left, Text.isBlank c = true) ∧
      Text.trim (front ++ amount ++ space ++ unit ++ back) = amount ++ left ++ unit := by
  have visible : ∀ c ∈ amount, Text.isBlank c = false :=
    fun c known => isBlank_of_isAmountChar (number.isAmountChar c known)
  obtain ⟨d, known, -⟩ := number.digit
  have some_number : amount ≠ [] := List.ne_nil_of_mem known
  by_cases bare : unit = []
  · subst bare
    refine ⟨[], by simp, ?_⟩
    have rest : ∀ c ∈ space ++ back, Text.isBlank c = true :=
      fun c known => (List.mem_append.1 known).elim (gap c) (closing c)
    have trimmed := Text.trim_between opening rest
      (fun c first => visible c (List.mem_of_mem_head? first))
      (fun c last => visible c (List.mem_of_mem_getLast? last))
    simpa using trimmed
  · refine ⟨space, gap, ?_⟩
    have starts : ∀ c ∈ (amount ++ space ++ unit).head?, Text.isBlank c = false := by
      intro c first
      rw [List.append_assoc, List.head?_append_of_ne_nil _ some_number] at first
      exact visible c (List.mem_of_mem_head? first)
    have ends : ∀ c ∈ (amount ++ space ++ unit).getLast?, Text.isBlank c = false := by
      intro c last
      rw [List.getLast?_append_of_ne_nil _ bare] at last
      exact letters c (List.mem_of_mem_getLast? last)
    simpa using Text.trim_between opening closing starts ends

/-- Exactly the durations are read as a number of seconds. -/
theorem secondsOfText?_isSome_iff {text : String} :
    (secondsOfText? text).isSome = true ↔ IsDuration text.toList := by
  rw [secondsOfText?_isSome]
  constructor
  · rintro ⟨number, u, spelling, known, spelled⟩
    obtain ⟨front, back, opening, closing, around⟩ := Text.exists_trim text.toList
    obtain ⟨space, back', gap, closing', between⟩ :=
      Text.exists_trim ((Text.trim text.toList).dropWhile isAmountChar)
    have whole := List.takeWhile_append_dropWhile (p := isAmountChar)
      (l := Text.trim text.toList)
    rw [between] at whole
    have behind : ∀ c ∈ back' ++ back, Text.isBlank c = true :=
      fun c known => (List.mem_append.1 known).elim (closing' c) (closing c)
    have written := IsDuration.parts opening number gap known spelled behind
    rw [around, ← whole]
    simpa using written
  · generalize text.toList = cs
    rintro @⟨front, amount, space, unit, back, u, spelling, opening, number, gap, known, spelled,
      closing⟩
    have letters := toNat_of_inAnyCase spelled (TimeUnit.isLower_of_mem_spellings known)
    have visible : ∀ c ∈ unit, Text.isBlank c = false := by
      intro c known
      have range := letters c known
      exact isBlank_of_visible (by omega) (by omega)
    obtain ⟨left, blank, trimmed⟩ := trim_parts opening number gap visible closing
    have stop : ∀ c ∈ left ++ unit, isAmountChar c = false := by
      intro c known
      rw [Bool.eq_false_iff]
      intro number
      rcases List.mem_append.1 known with between | letter
      · have := blank c between
        rw [isBlank_of_isAmountChar number] at this
        cases this
      · have := letters c letter
        have := toNat_of_isAmountChar number
        omega
    obtain ⟨taken, dropped⟩ := span_amount number.isAmountChar stop
    rw [trimmed, List.append_assoc, taken, dropped]
    have unspaced := Text.trim_between blank (List.forall_mem_nil _)
      (fun c first => visible c (List.mem_of_mem_head? first))
      (fun c last => visible c (List.mem_of_mem_getLast? last))
    rw [List.append_nil] at unspaced
    rw [unspaced]
    exact ⟨number, u, spelling, known, spelled⟩

end Duration

namespace Schema

variable {δ : Type}

/-! ### Indexes with a duration -/

theorem readDirections_ok {fields : List (String × Json)}
    (directed : ∀ e ∈ fields, ∃ d, Direction.ofJson? e.2 = some d) :
    ∃ read, readDirections fields = .ok read := by
  induction fields with
  | nil => exact ⟨[], rfl⟩
  | cons e fields ih =>
    obtain ⟨d, here⟩ := directed e List.mem_cons_self
    obtain ⟨read, rest⟩ := ih fun e known => directed e (List.mem_cons_of_mem _ known)
    exact ⟨(e.1, d) :: read, by rw [readDirections, here, rest]; rfl⟩

/-- A text is read as a duration if it is written as one. An index whose other arguments are in
order is declared with the seconds of such a text, and with any other text it is refused and the
schema stays as it is. -/
theorem addIndex_expiring (text : String) :
    ((∃ seconds, Duration.expireAfterSeconds? (.str text) = some seconds) ↔
        Duration.IsDuration text.toList) ∧
      ∀ (s : Schema δ) (fields options : Table Json),
        (∀ e ∈ fields, ∃ d, Direction.ofJson? e.2 = some d) →
        Table.get? options "expires" = some (.str text) →
          (Duration.IsDuration text.toList →
            ∃ entry seconds, Duration.expireAfterSeconds? (.str text) = some seconds ∧
              Table.get? entry.options "expireAfterSeconds" = some (.int seconds) ∧
              s.addIndex (.obj fields) (.obj options) =
                ({ s with ownIndexes := s.ownIndexes ++ [entry], knownIndexes := none },
                  .ok ())) ∧
          (¬ Duration.IsDuration text.toList →
            s.addIndex (.obj fields) (.obj options) =
              (s, .error (badIndex ("invalid expires " ++ (Json.str text).text)))) := by
  have reading : (∃ seconds, Duration.expireAfterSeconds? (.str text) = some seconds) ↔
      Duration.IsDuration text.toList := by
    rw [← Duration.secondsOfText?_isSome_iff, Option.isSome_iff_exists]
    rfl
  refine ⟨reading, fun s fields options directed given => ?_⟩
  obtain ⟨read, directions⟩ := readDirections_ok directed
  refine ⟨?accepted, ?refused⟩
  case accepted =>
    intro written
    obtain ⟨seconds, known⟩ := reading.2 written
    refine ⟨⟨read, Table.insert (Table.swapErase options "expires") "expireAfterSeconds"
      (.int seconds)⟩, seconds, known, Table.get?_insert_self _ _ _, ?_⟩
    simp only [addIndex, readIndex, directions, readIndexOptions, readExpiry, given, known]
    rfl
  case refused =>
    intro other
    have unknown : Duration.expireAfterSeconds? (.str text) = none :=
      Option.eq_none_iff_forall_ne_some.2 fun seconds known => other (reading.1 ⟨seconds, known⟩)
    simp only [addIndex, readIndex, directions, readIndexOptions, readExpiry, given, unknown]
    rfl

/-- A duration in mixed case with white space around it, and one with a sign. -/
theorem addIndex_expiring_visits :
    let s : Schema MemoryDocument := { options := {} }
    let fields : Table Json := [("visitedAt", .int (-1)), ("place", .str "hashed")]
    let expiring (text : String) : Table Json := [("expires", .str text), ("sparse", .bool true)]
    (∃ entry seconds, Duration.expireAfterSeconds? (.str "\t1.5 Hours ") = some seconds ∧
      Table.get? entry.options "expireAfterSeconds" = some (.int seconds) ∧
      s.addIndex (.obj fields) (.obj (expiring "\t1.5 Hours ")) =
        ({ s with ownIndexes := [entry], knownIndexes := none }, .ok ())) ∧
    s.addIndex (.obj fields) (.obj (expiring "-1.5h")) =
      (s, .error (badIndex ("invalid expires " ++ (Json.str "-1.5h").text))) := by
  intro s fields expiring
  have directed : ∀ e ∈ fields, ∃ d, Direction.ofJson? e.2 = some d := by
    intro e known
    rcases List.mem_cons.1 known with rfl | known
    · exact ⟨.descending, rfl⟩
    · rw [List.mem_singleton.1 known]
      exact ⟨.special .hashed, rfl⟩
  have number : Duration.IsAmount ['1', '.', '5'] :=
    ⟨⟨'1', List.mem_cons_self, rfl⟩, by decide, by simp⟩
  have spelled : InAnyCase "hours".toList ['H', 'o', 'u', 'r', 's'] :=
    (lowerAscii_eq_iff (TimeUnit.isLower_of_mem_spellings (u := .hour) (by decide))).1 rfl
  have blank : ∀ c ∈ [' '], Text.isBlank c = true := List.forall_mem_singleton.2 rfl
  have written : Duration.IsDuration "\t1.5 Hours ".toList :=
    @Duration.IsDuration.parts ['\t'] _ [' '] _ [' '] .hour "hours"
      (List.forall_mem_singleton.2 rfl) number blank (by decide) spelled blank
  have signed : ¬ Duration.IsDuration "-1.5h".toList := by
    rw [← Duration.secondsOfText?_isSome_iff]
    decide
  exact ⟨((addIndex_expiring _).2 s fields _ directed rfl).1 written,
    ((addIndex_expiring _).2 s fields _ directed rfl).2 signed⟩

end Schema

end DocSchema
