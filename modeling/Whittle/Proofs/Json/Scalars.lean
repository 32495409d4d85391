import Whittle.Proofs.Decimal
import Whittle.Proofs.Text
import Whittle.Value.Json.Reader
import Whittle.Value.Json.Writer

/-!
Numbers and texts are read back from JSON. A number is read up to a character that does not
belong to it (`Closes`), and every code point of a text has one of four written forms
(`Escape`), each of which is read as that code point.
-/

namespace Whittle.Value.Json

open List

open Decimal (Spelling)

variable {rest : List Char} {code unit : Nat} {char : Char} {points : List Nat}

/-! ### Numbers -/

/-- What follows a number does not belong to it. -/
def Closes (rest : List Char) : Prop :=
  ∀ char ∈ rest.head?, char.isDigit = false ∧ char ≠ '.' ∧ char ≠ 'e' ∧ char ≠ 'E'

theorem digitsAt_append {digits : List Char} (are : ∀ char ∈ digits, char.isDigit = true)
    (ends : ∀ char ∈ rest.head?, char.isDigit = false) : digitsAt (digits ++ rest) = digits := by
  have same : (fun char : Char => decide ('0' ≤ char) && decide (char ≤ '9')) = Char.isDigit := by
    funext char
    simp [Char.isDigit, Char.le_def]
  rw [digitsAt, same, takeWhile_append_of_pos are]
  cases rest with
  | nil => exact append_nil _
  | cons char rest =>
    rw [takeWhile_cons_of_neg (by simp [ends char rfl]), append_nil]

section Spelling

variable (spelling : Spelling)

theorem fractionLength_spelling (closes : Closes rest) :
    fractionLength (spelling.fraction ++ (spelling.exponent ++ rest)) = spelling.fraction.length := by
  have ends : ∀ char ∈ (spelling.exponent ++ rest).head?, char.isDigit = false ∧ char ≠ '.' := by
    rcases spelling.power with none | ⟨sign, digits, -, -, -, is⟩
    · rw [none]
      exact fun char member => ⟨(closes char member).1, (closes char member).2.1⟩
    · rw [is]
      rintro _ ⟨⟩
      decide
  rcases spelling.point with none | ⟨digits, some, are, is⟩
  · rw [none, nil_append]
    unfold fractionLength
    split
    · next rest' same =>
      rw [same] at ends
      exact absurd rfl (ends '.' rfl).2
    · rfl
  · rw [is, cons_append, fractionLength,
      digitsAt_append are fun char member => (ends char member).1]
    simp [some]

theorem exponentLength_spelling (closes : Closes rest) :
    exponentLength (spelling.exponent ++ rest) = spelling.exponent.length := by
  rcases spelling.power with none | ⟨sign, digits, which, some, are, is⟩
  · rw [none, nil_append]
    cases rest with
    | nil => rfl
    | cons char more =>
      have not := closes char rfl
      simp [exponentLength, not]
  · have read := digitsAt_append are fun char member => (closes char member).1
    rw [is]
    rcases which with rfl | rfl <;>
    · simp only [exponentLength, cons_append, drop_succ_cons, drop_zero, read,
        length_cons]
      simp [some]
      omega

/-- A number is read to its end: an integer if it has neither point nor exponent. -/
theorem readNumber_spelling (closes : Closes rest) (position : Nat) :
    readNumber ⟨spelling.chars ++ rest, position⟩ =
      if spelling.fraction ++ spelling.exponent = [] then
        if Decimal.digitLimit < spelling.whole.length then
          .error ⟨.tooManyDigits spelling.whole.length, position⟩
        else
          let value : Int := Decimal.digitsValue spelling.whole
          .ok (.int (if spelling.negative then -value else value),
            ⟨rest, position + spelling.chars.length⟩)
      else
        .ok (.float ((Decimal.readDecimal (String.ofList spelling.chars)).getD 0.0),
          ⟨rest, position + spelling.chars.length⟩) := by
  have tail : ∀ char ∈ (spelling.fraction ++ (spelling.exponent ++ rest)).head?,
      char.isDigit = false := by
    rcases spelling.point with none | ⟨digits, -, -, is⟩
    · rcases spelling.power with none' | ⟨sign, digits, -, -, -, is⟩
      · rw [none, none']
        exact fun char member => (closes char member).1
      · rw [none, is]
        rintro _ ⟨⟩
        decide
    · rw [is]
      rintro _ ⟨⟩
      decide
  have chars : spelling.chars ++ rest = (if spelling.negative then ['-'] else []) ++
      (spelling.whole ++ (spelling.fraction ++ (spelling.exponent ++ rest))) := by
    simp [Spelling.chars]
  obtain ⟨first, others, whole⟩ := List.exists_cons_of_ne_nil spelling.some
  have unsigned : first ≠ '-' := by
    rintro rfl
    cases spelling.digits '-' (whole ▸ List.mem_cons_self)
  -- The parts are found one after the other.
  have sign : (if (spelling.chars ++ rest).head? = some '-' then 1 else 0) =
      if spelling.negative then 1 else 0 := by
    rw [chars, whole]
    cases spelling.negative <;> simp [unsigned]
  have body : (spelling.chars ++ rest).drop (if spelling.negative then 1 else 0) =
      spelling.whole ++ (spelling.fraction ++ (spelling.exponent ++ rest)) := by
    rw [chars]
    cases spelling.negative <;> simp
  have digits := digitsAt_append spelling.digits tail
  have leads : (if spelling.whole.head? = some '0' then ['0'] else spelling.whole) = spelling.whole := by
    split
    · next zero => exact (spelling.leading zero).symm
    · rfl
  have fraction : fractionLength ((spelling.whole ++ (spelling.fraction ++ (spelling.exponent ++ rest))).drop
      spelling.whole.length) = spelling.fraction.length := by
    rw [List.drop_left, fractionLength_spelling spelling closes]
  have exponent : exponentLength ((spelling.whole ++ (spelling.fraction ++ (spelling.exponent ++ rest))).drop
      (spelling.whole.length + spelling.fraction.length)) = spelling.exponent.length := by
    rw [← List.length_append, ← List.append_assoc, List.drop_left,
      exponentLength_spelling spelling closes]
  have length : (if spelling.negative then 1 else 0) + spelling.whole.length + spelling.fraction.length
      + spelling.exponent.length = spelling.chars.length := by
    cases negative : spelling.negative <;> simp [Spelling.chars, negative] <;> omega
  have apart : spelling.fraction.length + spelling.exponent.length = 0 ↔
      spelling.fraction ++ spelling.exponent = [] := by
    rw [← List.length_append, List.length_eq_zero_iff]
  have signed : (if spelling.negative then 1 else 0) = 1 ↔ spelling.negative = true := by
    cases spelling.negative <;> simp
  simp only [readNumber, sign, body, digits, leads, fraction, exponent, List.isEmpty_iff,
    spelling.some, if_false]
  simp only [length, apart, signed, Cursor.skip, List.take_left, List.drop_left]

end Spelling

/-! ### Texts -/

theorem hexNumber?_hexChars {width value : Nat} (fits : value < Nat.pow 16 width) :
    Text.hexNumber? (Text.hexChars width value) = some value := by
  have digits : ∀ digit < 16, Text.hexValue? (Text.hexDigit digit) = some digit := by decide
  induction width generalizing value with
  | zero =>
    rw [Nat.lt_one_iff.mp fits]
    rfl
  | succ width ih =>
    have before := @ih (value / 16) (by rw [Nat.pow, Nat.mul_eq] at fits; omega)
    rw [Text.hexNumber?] at before ⊢
    rw [Text.hexChars, foldl_append, before, foldl_cons, foldl_nil,
      digits _ (Nat.mod_lt _ (by decide))]
    change some (value / 16 * 16 + value % 16) = some value
    rw [Nat.div_add_mod']

theorem length_hexChars (width value : Nat) : (Text.hexChars width value).length = width := by
  induction width generalizing value with
  | zero => rfl
  | succ width ih => rw [Text.hexChars, length_append, ih]; rfl

/-- How a code point is written. -/
inductive Escape (code : Nat) : List Char → Prop where
  | letter {letter meant : Char} (other : letter ≠ 'u') (means : escaped? letter = some meant)
      (holds : Text.ofCode code = [meant]) : Escape code ['\\', letter]
  | plain {char : Char} (quote : char ≠ '"') (backslash : char ≠ '\\') (mark : char ≠ Text.mark)
      (visible : 32 ≤ char.toNat ∧ char.toNat < 127) (holds : Text.ofCode code = [char]) :
      Escape code [char]
  | unit (small : code < 0x10000) : Escape code (unitChars code)
  | pair {high low : Nat} (isHigh : Text.isHigh high = true) (isLow : Text.isLow low = true)
      (holds : Text.ofCode code = [Text.pairChar high low]) :
      Escape code (unitChars high ++ unitChars low)

theorem eq_toNat_of_ofNat_eq (nonzero : char ≠ Char.ofNat 0)
    (same : Char.ofNat code = char) : code = char.toNat := by
  by_cases valid : code.isValidChar
  · rw [← same, Text.toNat_ofNat valid]
  · refine absurd ?_ nonzero
    rw [← same, Char.ofNat, dif_neg valid]
    rfl

theorem escape_codeChars (inRange : code < 0x110000) : Escape code (codeChars code) := by
  have letter : ∀ char letter : Char, char ≠ Char.ofNat 0 → letter ≠ 'u' → escaped? letter = some char →
      Text.ofCode char.toNat = [char] → Char.ofNat code = char → Escape code ['\\', letter] := by
    intro char letter nonzero other means holds same
    exact .letter other means (eq_toNat_of_ofNat_eq nonzero same ▸ holds)
  unfold codeChars
  dsimp only
  split
  · next same => exact letter '"' '"' (by decide) (by decide) rfl (by decide) same
  split
  · next same => exact letter '\\' '\\' (by decide) (by decide) rfl (by decide) same
  split
  · next same => exact letter '\n' 'n' (by decide) (by decide) rfl (by decide) same
  split
  · next same => exact letter '\r' 'r' (by decide) (by decide) rfl (by decide) same
  split
  · next same => exact letter '\t' 't' (by decide) (by decide) rfl (by decide) same
  split
  · next same =>
    subst same
    exact .letter (by decide) rfl (by decide)
  split
  · next same =>
    subst same
    exact .letter (by decide) rfl (by decide)
  split
  · next quote backslash _ _ _ _ _ printable =>
    simp only [Bool.and_eq_true, decide_eq_true_eq] at printable
    have own : (Char.ofNat code).toNat = code :=
      Text.toNat_ofNat (by simp only [Nat.isValidChar]; omega)
    have unmarked : Char.ofNat code ≠ Text.mark := by
      intro same
      rw [same, Text.toNat_mark] at own
      omega
    refine .plain quote backslash unmarked (by omega) ?_
    have held := Text.ofCode_toNat unmarked
    rwa [own] at held
  split
  · next small => exact .unit small
  · next large =>
    have high : Text.isHigh (0xd800 + (code - 0x10000) / 0x400) = true := by
      simp only [Text.isHigh, Bool.and_eq_true, decide_eq_true_eq]
      omega
    have low : Text.isLow (0xdc00 + (code - 0x10000) % 0x400) = true := by
      simp only [Text.isLow, Bool.and_eq_true, decide_eq_true_eq]
      omega
    refine .pair high low ?_
    have whole : Text.isHalf code = false := by
      simp only [Text.isHalf, Text.isHigh, Text.isLow, Bool.or_eq_false_iff, Bool.and_eq_false_iff,
        decide_eq_false_iff_not]
      omega
    have apart : code ≠ Text.mark.toNat := by
      rw [Text.toNat_mark]
      omega
    have number : 0x10000 + (0xd800 + (code - 0x10000) / 0x400 - 0xd800) * 0x400 +
        (0xdc00 + (code - 0x10000) % 0x400 - 0xdc00) = code := by
      omega
    rw [Text.ofCode, whole, if_neg (by simp), if_neg apart, Text.pairChar, number]

section Text

variable {opening position : Nat} {read more : List Char}

theorem readText_letter {letter meant : Char} (other : letter ≠ 'u') (means : escaped? letter = some meant) :
    readText opening read position ('\\' :: letter :: rest) =
      readText opening (meant :: read) (position + 2) rest := by
  simp [readText, means]

theorem readText_plain (quote : char ≠ '"') (backslash : char ≠ '\\')
    (mark : char ≠ Text.mark) (visible : 32 ≤ char.toNat) :
    readText opening read position (char :: rest) =
      readText opening (char :: read) (position + 1) rest := by
  simp [readText, backslash, mark, Nat.not_lt.mpr visible]

theorem take_hexChars (unit : Nat) : (Text.hexChars 4 unit ++ more).take 4 = Text.hexChars 4 unit :=
  take_left' (length_hexChars 4 unit)

theorem drop_hexChars (unit : Nat) : (Text.hexChars 4 unit ++ more).drop 4 = more :=
  drop_left' (length_hexChars 4 unit)

theorem readUnit_hexChars (small : unit < 0x10000) (nonnil : more ≠ []) :
    readUnit position (Text.hexChars 4 unit ++ more) = .ok unit := by
  rw [readUnit, drop_hexChars, if_neg (by simpa using nonnil), take_hexChars, hexNumber?_hexChars small]

theorem readSecondUnit?_unitChars (small : unit < 0x10000) (nonnil : more ≠ []) :
    readSecondUnit? position (unitChars unit ++ more) = .ok (.some unit) := by
  rw [unitChars, cons_append, cons_append, readSecondUnit?, drop_hexChars,
    if_neg (by simpa using nonnil), take_hexChars, hexNumber?_hexChars small]

/-- No unit that ends a pair comes next. -/
def NoLow (chars : List Char) : Prop :=
  ∀ place, readSecondUnit? place chars = .ok none ∨
    ∃ second, readSecondUnit? place chars = .ok (some second) ∧ Text.isLow second = false

theorem readText_unit (small : unit < 0x10000) (nonnil : more ≠ [])
    (alone : Text.isHigh unit = true → NoLow more) :
    readText opening read position (unitChars unit ++ more) =
      readText opening (hold unit read) (position + 6) more := by
  rw [unitChars, cons_append, cons_append, readText, readUnit_hexChars small nonnil,
    drop_hexChars]
  simp only [bind, Except.bind, pure, Except.pure]
  by_cases high : Text.isHigh unit = true
  · rcases alone high (position + 6) with none | ⟨second, found, other⟩
    · simp only [high, if_true, none]
    · simp only [high, if_true, found, other]
      rfl
  · simp only [high]
    rfl

theorem readText_pair {high low : Nat} (isHigh : Text.isHigh high = true)
    (isLow : Text.isLow low = true) (nonnil : more ≠ []) :
    readText opening read position (unitChars high ++ (unitChars low ++ more)) =
      readText opening (Text.pairChar high low :: read) (position + 12) more := by
  have bounds : high < 0x10000 ∧ low < 0x10000 := by
    simp only [Text.isHigh, Text.isLow, Bool.and_eq_true, decide_eq_true_eq] at isHigh isLow
    omega
  have rest : (Text.hexChars 4 high ++ (unitChars low ++ more)).drop 10 = more := by
    rw [← append_assoc]
    exact drop_left' (by simp [unitChars, length_hexChars])
  rw [unitChars, cons_append, cons_append, readText,
    readUnit_hexChars bounds.1 (by simp [unitChars]), drop_hexChars, rest]
  simp only [bind, Except.bind, isHigh, if_true, readSecondUnit?_unitChars bounds.2 nonnil, isLow]

theorem noLow_of_head? (other : more.head? ≠ some '\\') : NoLow more := by
  intro place
  left
  unfold readSecondUnit?
  split
  · exact absurd rfl other
  · rfl

/-- A code point that ends no pair does not begin with a unit that does. -/
theorem noLow_escape {chars : List Char} (escape : Escape code chars)
    (other : Text.isLow code = false) (nonnil : more ≠ []) : NoLow (chars ++ more) := by
  cases escape with
  | letter other =>
    intro place
    left
    simp [readSecondUnit?, other]
  | plain _ backslash => exact noLow_of_head? (by simpa using backslash)
  | unit small => exact fun place => .inr ⟨code, readSecondUnit?_unitChars small nonnil, other⟩
  | pair high low =>
    rename_i first second _
    have bounds : first < 0x10000 ∧ Text.isLow first = false := by
      simp only [Text.isHigh, Bool.and_eq_true, decide_eq_true_eq] at high
      simp only [Text.isLow, Bool.and_eq_false_iff, decide_eq_false_iff_not]
      omega
    rw [append_assoc]
    exact fun place =>
      .inr ⟨first, readSecondUnit?_unitChars bounds.1 (by simp [unitChars]), bounds.2⟩

theorem noLow_codeChars (inRange : ∀ code ∈ points, code < 0x110000)
    (other : ∀ code ∈ points.head?, Text.isLow code = false) :
    NoLow (points.flatMap codeChars ++ '"' :: rest) := by
  cases points with
  | nil => exact noLow_of_head? (by simp)
  | cons code later =>
    rw [List.flatMap_cons, List.append_assoc]
    exact noLow_escape (escape_codeChars (inRange code List.mem_cons_self)) (other code rfl) (by simp)

theorem readText_codeChars (inRange : ∀ code ∈ points, code < 0x110000)
    (apart : points.IsChain fun first second =>
      ¬ (Text.isHigh first = true ∧ Text.isLow second = true)) :
    ∃ after, readText opening read position (points.flatMap codeChars ++ '"' :: rest) =
      .ok (String.ofList (read.reverse ++ points.flatMap Text.ofCode), ⟨rest, after⟩) := by
  induction points generalizing read position with
  | nil =>
    refine ⟨position + 1, ?_⟩
    rw [flatMap_nil, nil_append, flatMap_nil, append_nil, readText]
  | cons code later ih =>
    have inRange' : ∀ other ∈ later, other < 0x110000 :=
      (forall_mem_cons.mp inRange).2
    have follows : ∀ read position, ∃ after,
        readText opening ((Text.ofCode code).reverse ++ read) position
          (later.flatMap codeChars ++ '"' :: rest) =
        .ok (String.ofList (read.reverse ++ (code :: later).flatMap Text.ofCode), ⟨rest, after⟩) := by
      intro read position
      obtain ⟨after, found⟩ := @ih position ((Text.ofCode code).reverse ++ read) inRange' apart.tail
      refine ⟨after, found.trans ?_⟩
      rw [List.reverse_append, List.reverse_reverse, List.flatMap_cons, List.append_assoc]
    have some : later.flatMap codeChars ++ '"' :: rest ≠ [] := by simp
    rw [flatMap_cons, append_assoc]
    have escape := escape_codeChars (inRange code mem_cons_self)
    generalize codeChars code = chars at escape ⊢
    cases escape with
    | letter other means holds =>
      rw [cons_append, cons_append, nil_append, readText_letter other means]
      have next := follows read (position + 2)
      rwa [holds] at next
    | plain quote backslash mark visible holds =>
      rw [cons_append, nil_append, readText_plain quote backslash mark visible.1]
      have next := follows read (position + 1)
      rwa [holds] at next
    | unit small =>
      have alone : Text.isHigh code = true → NoLow (later.flatMap codeChars ++ '"' :: rest) := by
        intro high
        refine noLow_codeChars inRange' fun second member => ?_
        obtain ⟨others, rfl⟩ := List.head?_eq_some_iff.mp member
        have := List.isChain_cons_cons.mp apart
        simpa [high] using this.1
      rw [readText_unit small some alone]
      exact follows read (position + 6)
    | pair high low holds =>
      rw [List.append_assoc, readText_pair high low some]
      have next := follows read (position + 12)
      rwa [holds] at next

theorem readText_quote {text : String} (wellFormed : Text.IsWellFormed text) :
    ∃ after, readText opening [] position ((Text.codes text).flatMap codeChars ++ '"' :: rest) =
      .ok (text, ⟨rest, after⟩) := by
  have inRange : ∀ code ∈ Text.codes text, code < 0x110000 := by
    intro code member
    rw [Text.codes_eq_codesOf] at member
    exact Text.lt_of_mem_codesOf member
  obtain ⟨after, found⟩ := readText_codeChars inRange wellFormed.apart
  refine ⟨after, found.trans ?_⟩
  rw [wellFormed.whole, reverse_nil, nil_append, String.ofList_toList]

end Text

end Whittle.Value.Json
