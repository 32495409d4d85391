import Whittle.Proofs.Json.Scalars

/-!
Values are read back from JSON, with their doubles read anew (`Json.echo`). What makes some
characters good for that is said once (`Writes`), and it does not matter which blanks stand between the
parts of a list or a mapping (`writes_list`, `writes_map`). A call of the reader takes at least one
character: as many calls as there are characters are enough.
-/

namespace Whittle.Value.Json

open List

open Decimal (Spelling)

variable {fuel depth level position : Nat} {rest chars : List Char} {char : Char} {value : Value}
  {key : String} {entries : List (Value × Value)}

/-! ### Values -/

/-- The double that is read from the text of a double. -/
def reread (value : Float) : Float :=
  match Decimal.parts value.toBits with
  | .nan => 0.0 / 0.0
  | .infinite negative => if negative then -(1.0 / 0.0) else 1.0 / 0.0
  | .finite _ _ => (Decimal.readDecimal (double value)).getD 0.0

mutual

def echo : Value → Value
  | .float value => .float (reread value)
  | .list items => .list (echoItems items)
  | .map entries => .map (echoEntries entries)
  | value => value

def echoItems : List Value → List Value
  | [] => []
  | item :: rest => echo item :: echoItems rest

def echoEntries : List (Value × Value) → List (Value × Value)
  | [] => []
  | entry :: rest => echoEntry entry :: echoEntries rest

def echoEntry : Value × Value → Value × Value
  | (key, value) => (key, echo value)

end

mutual

/-- JSON can hold a value and give it back: integers are not too long, texts are well formed, keys
are texts and no two of them the same, and no more than `depth` lists and mappings stand inside each
other. -/
def Holds : Value → Nat → Prop
  | .null, _ | .bool _, _ | .float _, _ => True
  | .int value, _ => isTooLong value = false
  | .text value, _ => Text.IsWellFormed value
  | .list items, depth + 1 => HoldsItems items depth
  | .map entries, depth + 1 => HoldsEntries entries depth ∧ (entries.map Prod.fst).Nodup
  | _, _ => False

def HoldsItems : List Value → Nat → Prop
  | [], _ => True
  | item :: rest, depth => Holds item depth ∧ HoldsItems rest depth

def HoldsEntries : List (Value × Value) → Nat → Prop
  | [], _ => True
  | entry :: rest, depth => HoldsEntry entry depth ∧ HoldsEntries rest depth

def HoldsEntry : Value × Value → Nat → Prop
  | (key, value), depth => (∃ name, key = .text name ∧ Text.IsWellFormed name) ∧ Holds value depth

end

/-! ### Characters -/

/-- A character of a written value: a visible one, a blank or a newline. -/
def IsWritten (char : Char) : Prop :=
  char = '\n' ∨ 32 ≤ char.toNat ∧ char.toNat < 127

theorem isWritten_of_isDigit (digit : char.isDigit = true) : IsWritten char := by
  right
  simp only [Char.isDigit, Bool.and_eq_true, decide_eq_true_eq, ge_iff_le, UInt32.le_iff_toNat_le] at digit
  change 32 ≤ char.val.toNat ∧ char.val.toNat < 127
  have : '0'.val.toNat = 48 := rfl
  have : '9'.val.toNat = 57 := rfl
  omega

theorem isWritten_spelling (spelling : Spelling) : ∀ char ∈ spelling.chars, IsWritten char := by
  intro char member
  rw [Spelling.chars, mem_append, mem_append, mem_append] at member
  rcases member with sign | whole | fraction | exponent
  · split at sign
    · rw [mem_singleton.mp sign]
      exact .inr (by decide)
    · cases sign
  · exact isWritten_of_isDigit (spelling.digits char whole)
  · rcases spelling.point with none | ⟨digits, -, are, is⟩
    · rw [none] at fraction
      cases fraction
    · rw [is, mem_cons] at fraction
      rcases fraction with rfl | digit
      · exact .inr (by decide)
      · exact isWritten_of_isDigit (are char digit)
  · rcases spelling.power with none | ⟨sign, digits, which, -, are, is⟩
    · rw [none] at exponent
      cases exponent
    · rw [is, mem_cons, mem_cons] at exponent
      rcases exponent with rfl | rfl | digit
      · exact .inr (by decide)
      · rcases which with rfl | rfl <;> exact .inr (by decide)
      · exact isWritten_of_isDigit (are char digit)

theorem isWritten_unitChars (unit : Nat) : ∀ char ∈ unitChars unit, IsWritten char := by
  have digits : ∀ digit < 16, 32 ≤ (Text.hexDigit digit).toNat ∧ (Text.hexDigit digit).toNat < 127 := by
    decide
  have all : ∀ width value, ∀ char ∈ Text.hexChars width value, IsWritten char := by
    intro width
    induction width with
    | zero => exact fun _ _ member => by cases member
    | succ width ih =>
      intro value char member
      rw [Text.hexChars, mem_append, mem_singleton] at member
      rcases member with before | rfl
      · exact ih _ char before
      · exact .inr (digits _ (Nat.mod_lt _ (by decide)))
  intro char member
  rw [unitChars, mem_cons, mem_cons] at member
  rcases member with rfl | rfl | digit
  · exact .inr (by decide)
  · exact .inr (by decide)
  · exact all 4 unit char digit

theorem toList_quote (text : String) (rest : List Char) : (quote text).toList ++ rest =
    '"' :: ((Text.codes text).flatMap codeChars ++ '"' :: rest) := by
  simp [quote]

theorem isWritten_quote (text : String) : ∀ char ∈ (quote text).toList, IsWritten char := by
  intro char member
  rw [← append_nil (quote text).toList, toList_quote, mem_cons, mem_append] at member
  rcases member with rfl | inside | last
  · exact .inr (by decide)
  · obtain ⟨code, held, member⟩ := mem_flatMap.mp inside
    rw [Text.codes_eq_codesOf] at held
    have escape := escape_codeChars (Text.lt_of_mem_codesOf held)
    generalize codeChars code = chars at escape member
    cases escape with
    | letter _ means =>
      rw [mem_cons, mem_singleton] at member
      rcases member with rfl | rfl
      · exact .inr (by decide)
      · unfold escaped? at means
        split at means <;> first | exact .inr (by decide) | cases means
    | plain _ _ _ visible => exact .inr (mem_singleton.mp member ▸ visible)
    | unit => exact isWritten_unitChars _ char member
    | pair =>
      rcases mem_append.mp member with first | second
      · exact isWritten_unitChars _ char first
      · exact isWritten_unitChars _ char second
  · rw [mem_singleton.mp last]
    exact .inr (by decide)

/-! ### Words, numbers and texts -/

/-- A written value begins neither with a blank nor with the end of a list or a mapping. -/
def Leads (chars : List Char) : Prop :=
  ∃ first more, chars = first :: more ∧ isSpace first = false ∧ first ≠ ']' ∧ first ≠ '\x7d'

/-- Some characters write a value: they begin as one does, they are written, and the value is read back
from them, with as many calls as there are characters. -/
structure Writes (depth : Nat) (value : Value) (chars : List Char) : Prop where
  leads : Leads chars
  written : ∀ char ∈ chars, IsWritten char
  reads : ∀ fuel position rest, chars.length ≤ fuel → Closes rest →
    ∃ after, readValue fuel depth ⟨chars ++ rest, position⟩ = .ok (echo value, ⟨rest, after⟩)

theorem Writes.of_succ (leads : Leads chars) (written : ∀ char ∈ chars, IsWritten char)
    (reads : ∀ fuel position rest, chars.length ≤ fuel + 1 → Closes rest → ∃ after,
      readValue (fuel + 1) depth ⟨chars ++ rest, position⟩ = .ok (echo value, ⟨rest, after⟩)) :
    Writes depth value chars := by
  refine ⟨leads, written, fun fuel position rest enough => ?_⟩
  obtain ⟨first, more, rfl, -⟩ := leads
  cases fuel with
  | zero => cases enough
  | succ fuel => exact reads fuel position rest enough

/-- What is neither a text nor a list nor a mapping is a word or a number. -/
theorem readValue_other (other : ∀ char ∈ chars.head?, char ≠ '"' ∧ char ≠ '[' ∧ char ≠ '\x7b') :
    readValue (fuel + 1) depth ⟨chars, position⟩ =
      match readWord? ⟨chars, position⟩ with
      | some result => .ok result
      | none => readNumber ⟨chars, position⟩ := by
  rw [readValue.eq_def]
  split
  · next zero => cases zero
  · next same => exact absurd rfl (other '"' (congrArg List.head? same :)).1
  · next same => exact absurd rfl (other '[' (congrArg List.head? same :)).2.1
  · next same => exact absurd rfl (other '\x7b' (congrArg List.head? same :)).2.2
  · rfl

theorem isDigit_ne {other : Char} (digit : char.isDigit = true) (not : other.isDigit = false) :
    char ≠ other := by
  rintro rfl
  rw [digit] at not
  cases not

/-- A written number begins with a digit, perhaps after a sign. -/
theorem exists_cons_chars (spelling : Spelling) :
    ∃ first more, spelling.chars = first :: more ∧ (first.isDigit = true ∨ first = '-' ∧
      ∃ digit others, more = digit :: others ∧ digit.isDigit = true) := by
  obtain ⟨digit, others, whole⟩ := exists_cons_of_ne_nil spelling.some
  have is := spelling.digits digit (whole ▸ mem_cons_self)
  cases negative : spelling.negative with
  | false => exact ⟨digit, _, by rw [Spelling.chars, negative, whole]; rfl, .inl is⟩
  | true =>
    exact ⟨'-', _, by rw [Spelling.chars, negative, whole]; rfl, .inr ⟨rfl, digit, _, rfl, is⟩⟩

theorem readValue_spelling (spelling : Spelling) :
    readValue (fuel + 1) depth ⟨spelling.chars ++ rest, position⟩ =
      readNumber ⟨spelling.chars ++ rest, position⟩ := by
  obtain ⟨first, more, is, which⟩ := exists_cons_chars spelling
  have word : readWord? ⟨spelling.chars ++ rest, position⟩ = none := by
    rw [is, readWord?, Option.map_eq_none_iff, List.find?_eq_none]
    intro word member begins
    -- Every word has a first or a second letter that the number has not.
    obtain ⟨tail, same⟩ := isPrefixOf_iff_prefix.mp begins
    obtain ⟨initial, next, others, letters, notDigit, notDigit'⟩ : ∃ initial next others,
        word.1.toList = initial :: next :: others ∧ initial.isDigit = false ∧ next.isDigit = false := by
      revert member
      simp only [mem_cons, not_mem_nil, or_false]
      rintro (rfl | rfl | rfl | rfl | rfl | rfl) <;> exact ⟨_, _, _, rfl, rfl, rfl⟩
    rw [letters] at same
    obtain ⟨rfl, later⟩ := List.cons.inj same
    rcases which with digit | ⟨-, digit, others', rfl, digits⟩
    · exact isDigit_ne digit notDigit rfl
    · exact isDigit_ne digits notDigit' (List.cons.inj later).1.symm
  rw [readValue_other, word]
  rw [is]
  rintro _ ⟨⟩
  rcases which with digit | ⟨rfl, -⟩
  · exact ⟨isDigit_ne digit rfl, isDigit_ne digit rfl, isDigit_ne digit rfl⟩
  · decide

theorem writes_word {word : String} (first : Char) (more : List Char) (is : word.toList = first :: more)
    (visible : word.toList.all fun char => 32 ≤ char.toNat ∧ char.toNat < 127)
    (begins : isSpace first = false ∧ first ∉ ['"', '[', ']', '\x7b', '\x7d'])
    (listed : ∀ rest position, readWord? ⟨word.toList ++ rest, position⟩ =
      some (echo value, ⟨rest, position + word.length⟩)) : Writes depth value word.toList := by
  simp only [mem_cons, not_mem_nil, or_false, not_or] at begins
  refine .of_succ ⟨first, more, is, begins.1, begins.2.2.2.1, begins.2.2.2.2.2⟩
    (fun char member => .inr (of_decide_eq_true (all_eq_true.mp visible char member))) fun _ _ _ _ _ => ?_
  rw [readValue_other, listed]
  · exact ⟨_, rfl⟩
  · rw [is]
    rintro _ ⟨⟩
    exact ⟨begins.2.1, begins.2.2.1, begins.2.2.2.2.1⟩

theorem leads_chars (spelling : Spelling) : Leads spelling.chars := by
  obtain ⟨first, more, is, which⟩ := exists_cons_chars spelling
  refine ⟨first, more, is, ?_⟩
  rcases which with digit | ⟨rfl, -⟩
  · refine ⟨?_, isDigit_ne digit rfl, isDigit_ne digit rfl⟩
    have blank : first ≠ ' ' ∧ first ≠ '\t' ∧ first ≠ '\n' ∧ first ≠ '\r' :=
      ⟨isDigit_ne digit rfl, isDigit_ne digit rfl, isDigit_ne digit rfl, isDigit_ne digit rfl⟩
    simp [isSpace, blank]
  · decide

theorem writes_int {value : Int} (fits : isTooLong value = false) :
    Writes depth (.int value) (toString value).toList := by
  have short : ¬ Decimal.digitLimit < (Spelling.ofInt value).whole.length := by
    simpa [isTooLong, Spelling.ofInt] using fits
  have whole : (Spelling.ofInt value).fraction ++ (Spelling.ofInt value).exponent = [] := rfl
  rw [← Spelling.chars_ofInt]
  refine .of_succ (leads_chars _) (isWritten_spelling _) fun _ _ _ _ closes => ?_
  rw [readValue_spelling, readNumber_spelling _ closes, if_pos whole, if_neg short]
  refine ⟨_, congrArg (fun number => Except.ok (Value.int number, _)) ?_⟩
  change (if decide (value < 0) = true then
    -(Decimal.digitsValue (Nat.toDigits 10 value.natAbs) : Int)
    else Decimal.digitsValue (Nat.toDigits 10 value.natAbs)) = value
  rw [Decimal.digitsValue_toDigits]
  split
  · next negative =>
    have := of_decide_eq_true negative
    omega
  · next positive =>
    have := of_decide_eq_false (Bool.eq_false_iff.mpr positive)
    omega

theorem writes_double (value : Float) : Writes depth (.float value) (double value).toList := by
  rw [double, Decimal.writeWith]
  cases parts : Decimal.parts value.toBits with
  | nan =>
    have number : echo (.float value) = .float (0.0 / 0.0) := by rw [echo, reread, parts]
    exact writes_word 'N' ['a', 'N'] rfl (by simp) (by decide) fun _ _ => by rw [number]; rfl
  | infinite negative =>
    cases negative with
    | false =>
      have number : echo (.float value) = .float (1.0 / 0.0) := by rw [echo, reread, parts]; rfl
      exact writes_word 'I' _ rfl (by simp) (by decide) fun _ _ => by rw [number]; rfl
    | true =>
      have number : echo (.float value) = .float (-(1.0 / 0.0)) := by rw [echo, reread, parts]; rfl
      exact writes_word '-' _ rfl (by simp) (by decide) fun _ _ => by rw [number]; rfl
  | finite negative magnitude =>
    obtain ⟨spelling, chars, apart⟩ := Decimal.exists_spelling negative magnitude
    have number : echo (.float value) =
        .float ((Decimal.readDecimal (magnitude.write negative)).getD 0.0) := by
      simp only [echo, reread, double, Decimal.writeWith, parts]
    dsimp only
    rw [← chars]
    refine .of_succ (leads_chars _) (isWritten_spelling _) fun _ _ _ _ closes => ?_
    rw [readValue_spelling, readNumber_spelling _ closes, if_neg apart, chars, String.ofList_toList, number]
    exact ⟨_, rfl⟩

theorem leads_quote (text : String) (rest : List Char) : Leads ((quote text).toList ++ rest) := by
  rw [toList_quote]
  exact ⟨_, _, rfl, by decide⟩

theorem writes_text {text : String} (wellFormed : Text.IsWellFormed text) :
    Writes depth (.text text) (quote text).toList := by
  refine .of_succ (append_nil (quote text).toList ▸ leads_quote text []) (isWritten_quote text)
    fun _ position rest _ _ => ?_
  obtain ⟨after, found⟩ : ∃ after, readText position [] (position + 1)
      ((Text.codes text).flatMap codeChars ++ '"' :: rest) = .ok (text, ⟨rest, after⟩) :=
    readText_quote wellFormed
  refine ⟨after, ?_⟩
  rw [toList_quote, readValue.eq_def]
  simp only [found]
  rfl

theorem writes_atom (holds : Holds value depth) (noList : ∀ items, value ≠ .list items)
    (noMap : ∀ entries, value ≠ .map entries) : Writes depth value (atom value).toList := by
  cases value with
  | null => exact writes_word 'n' _ rfl (by decide) (by decide) fun _ _ => rfl
  | bool value =>
    cases value with
    | false => exact writes_word 'f' _ rfl (by decide) (by decide) fun _ _ => rfl
    | true => exact writes_word 't' _ rfl (by decide) (by decide) fun _ _ => rfl
  | int value =>
    rw [Holds] at holds
    exact writes_int holds
  | float value => exact writes_double value
  | text value =>
    rw [Holds] at holds
    exact writes_text holds
  | list items => exact absurd rfl (noList items)
  | map entries => exact absurd rfl (noMap entries)
  | _ => simp [Holds] at holds

/-! ### Blanks -/

/-- Blanks that may stand between the parts of a written value. -/
def IsGap (chars : List Char) : Prop :=
  ∀ char ∈ chars, isSpace char = true ∧ IsWritten char

/-- A text does not begin with a blank. -/
def Starts (chars : List Char) : Prop :=
  ∀ char ∈ chars.head?, isSpace char = false

def IsBracket (char : Char) : Prop :=
  char = ']' ∨ char = '\x7d'

section Gaps

variable {gap last : List Char} {close : Char} (blank : IsGap gap)

theorem isGap_nil : IsGap [] :=
  fun _ member => by cases member

theorem starts_cons (stops : isSpace char = false) : Starts (char :: rest) := by
  rintro _ ⟨⟩
  exact stops

theorem Leads.starts (leads : Leads chars) (rest : List Char) : Starts (chars ++ rest) := by
  obtain ⟨first, more, rfl, stops, -⟩ := leads
  exact starts_cons stops

theorem IsBracket.starts (bracket : IsBracket close) : Starts (close :: rest) := by
  rcases bracket with rfl | rfl <;> exact starts_cons rfl

include blank

theorem skipSpace_append (starts : Starts rest) :
    Cursor.skipSpace ⟨gap ++ rest, position⟩ = ⟨rest, position + gap.length⟩ := by
  have taken : (gap ++ rest).takeWhile isSpace = gap := by
    rw [takeWhile_append_of_pos fun char member => (blank char member).1]
    cases rest with
    | nil => exact append_nil _
    | cons char more => rw [takeWhile_cons_of_neg (by simp [starts char rfl]), append_nil]
  rw [Cursor.skipSpace, taken, Cursor.skip, drop_left]

theorem skip_skipSpace (starts : Starts rest) : (Cursor.skip ⟨char :: (gap ++ rest), position⟩ 1).skipSpace =
      ⟨rest, position + 1 + gap.length⟩ :=
  skipSpace_append blank starts

/-- A number may end before blanks. -/
theorem IsGap.closes (ends : Closes rest) : Closes (gap ++ rest) := by
  cases gap with
  | nil => exact ends
  | cons first more =>
    rintro _ ⟨⟩
    have space := (blank first mem_cons_self).1
    simp only [isSpace, Bool.or_eq_true, decide_eq_true_eq] at space
    rcases space with ((rfl | rfl) | rfl) | rfl <;> decide

end Gaps

theorem skipSpace_cons (stops : isSpace char = false) :
    Cursor.skipSpace ⟨char :: rest, position⟩ = ⟨char :: rest, position⟩ :=
  skipSpace_append isGap_nil (starts_cons stops)

theorem closes_comma : Closes (',' :: rest) := by
  rintro _ ⟨⟩
  decide

theorem IsBracket.closes {close : Char} (bracket : IsBracket close) : Closes (close :: rest) := by
  rintro _ ⟨⟩
  rcases bracket with rfl | rfl <;> decide

theorem insert_new (new : ∀ entry ∈ entries, ∃ name, entry.1 = .text name ∧ name ≠ key) :
    Value.insert (.text key) value entries = entries ++ [(.text key, value)] := by
  induction entries with
  | nil => rfl
  | cons entry others ih =>
    obtain ⟨other, old⟩ := entry
    obtain ⟨name, rfl, apart⟩ := new (other, old) mem_cons_self
    have differs : same (.text name) (.text key) = false := by simpa [same] using apart
    rw [Value.insert, if_neg (by simp [differs]), ih (forall_mem_cons.mp new).2, cons_append]

/-! ### Parts with commas between them -/

/-- What the reader does after a part: it is done at the bracket, and goes on after a comma. -/
def proceed {α : Type} (close : Char) (read : α) (next : Cursor → Except Stop (α × Cursor))
    (after : Cursor) : Except Stop (α × Cursor) :=
  let place := after.skipSpace
  match place.rest with
  | ',' :: _ => next (place.skip 1).skipSpace
  | char :: _ =>
    if char = close then .ok (read, place.skip 1) else .error ⟨.comma, place.position⟩
  | [] => .error ⟨.comma, place.position⟩

/-- The blanks after a bracket, after a comma, after a colon and before the bracket that closes. -/
structure Gaps where
  first : List Char
  comma : List Char
  colon : List Char
  last : List Char
  blank : IsGap first ∧ IsGap comma ∧ IsGap colon ∧ IsGap last

namespace Gaps

variable {gaps : Gaps} {parts : List (List Char)} {part : List Char}

def join (gaps : Gaps) (parts : List (List Char)) : List Char :=
  (',' :: gaps.comma).intercalate parts

def enclose (gaps : Gaps) (opening : Char) (parts : List (List Char)) (close : Char) : List Char :=
  opening :: (gaps.first ++ (gaps.join parts ++ (gaps.last ++ [close])))

theorem join_cons_cons (part next : List Char) (others : List (List Char)) :
    gaps.join (part :: next :: others) = part ++ (',' :: (gaps.comma ++ gaps.join (next :: others))) := by
  simp [join, intercalate_cons_cons]

theorem leads_join (gaps : Gaps) (parts : List (List Char)) (leads : Leads part) :
    Leads (gaps.join (part :: parts)) := by
  obtain ⟨first, more, rfl, begins⟩ := leads
  cases parts with
  | nil => exact ⟨first, more, intercalate_singleton, begins⟩
  | cons next others => exact ⟨first, _, join_cons_cons _ _ _, begins⟩

theorem length_join_cons (gaps : Gaps) (part : List Char) (parts : List (List Char)) :
    part.length ≤ (gaps.join (part :: parts)).length ∧
      (parts ≠ [] → (gaps.join parts).length < (gaps.join (part :: parts)).length) := by
  cases parts with
  | nil => simp [join]
  | cons next others =>
    rw [join_cons_cons]
    simp only [length_append, length_cons]
    exact ⟨by omega, fun _ => by omega⟩

theorem isWritten_join (all : ∀ part ∈ parts, ∀ char ∈ part, IsWritten char) :
    ∀ char ∈ gaps.join parts, IsWritten char := by
  induction parts with
  | nil => exact fun _ member => by cases member
  | cons part parts ih =>
    cases parts with
    | nil =>
      rw [join, intercalate_singleton]
      exact all part mem_cons_self
    | cons next others =>
      intro char member
      rw [join_cons_cons, mem_append, mem_cons, mem_append] at member
      rcases member with here | rfl | blank | later
      · exact all part mem_cons_self char here
      · exact .inr (by decide)
      · exact (gaps.blank.2.1 char blank).2
      · exact ih (forall_mem_cons.mp all).2 char later

theorem isWritten_enclose {opening close : Char} (brackets : ∀ char ∈ [opening, close], IsWritten char)
    (all : ∀ part ∈ parts, ∀ char ∈ part, IsWritten char) :
    ∀ char ∈ gaps.enclose opening parts close, IsWritten char := by
  intro char member
  simp only [enclose, mem_cons, mem_append, not_mem_nil, or_false] at member
  rcases member with rfl | blank | within | blank | rfl
  · exact brackets _ mem_cons_self
  · exact (gaps.blank.1 char blank).2
  · exact isWritten_join all char within
  · exact (gaps.blank.2.2.2 char blank).2
  · exact brackets _ (by simp)

variable {α : Type} {opening close : Char}

theorem enclose_append : gaps.enclose opening parts close ++ rest =
    opening :: (gaps.first ++ (gaps.join parts ++ (gaps.last ++ close :: rest))) := by
  simp [enclose]

theorem length_join_lt (enough : (gaps.enclose opening parts close).length ≤ fuel + 1) :
    (gaps.join parts).length < fuel := by
  simp only [enclose, length_cons, length_append] at enough
  omega

/-- The reader comes through some characters to a bracket, with a result. -/
def Ends (gaps : Gaps) (close : Char) (reads : Cursor → Except Stop (α × Cursor)) (chars : List Char)
    (result : α) : Prop :=
  ∀ position rest, ∃ after,
    reads ⟨chars ++ (gaps.last ++ close :: rest), position⟩ = .ok (result, ⟨rest, after⟩)

/-- The reader comes through parts if it does through the first, and then through the others. -/
theorem ends_join {reads : Cursor → Except Stop (α × Cursor)} {result : α} (read : α)
    (next : Cursor → Except Stop (α × Cursor)) (bracket : IsBracket close)
    (first : ∀ position rest, Closes rest → ∃ after,
      reads ⟨part ++ rest, position⟩ = proceed close read next ⟨rest, after⟩)
    (last : parts = [] → read = result)
    (later : parts ≠ [] → Leads (gaps.join parts) ∧ gaps.Ends close next (gaps.join parts) result) :
    gaps.Ends close reads (gaps.join (part :: parts)) result := by
  intro position rest
  cases parts with
  | nil =>
    obtain ⟨after, found⟩ := first position _ (gaps.blank.2.2.2.closes bracket.closes)
    rw [join, intercalate_singleton, found, proceed, skipSpace_append gaps.blank.2.2.2 bracket.starts,
      last rfl]
    rcases bracket with rfl | rfl <;> exact ⟨_, rfl⟩
  | cons other others =>
    obtain ⟨leads, ends⟩ := later (cons_ne_nil _ _)
    obtain ⟨after, found⟩ := first position (',' :: (gaps.comma ++
      (gaps.join (other :: others) ++ (gaps.last ++ close :: rest)))) closes_comma
    rw [join_cons_cons]
    simp only [append_assoc, cons_append]
    rw [found, proceed, skipSpace_cons rfl]
    dsimp only
    rw [skip_skipSpace gaps.blank.2.1 (leads.starts _)]
    exact ends _ rest

end Gaps

/-! ### Lists and mappings -/

section Parts

variable {items : List Value} {item : Value} {entry : Value × Value} {gaps : Gaps}
  {text : Value → List Char}

theorem readItems_succ (read : List Value) (cursor : Cursor) :
    readItems (fuel + 1) depth read cursor = (do
      let (item, after) ← readValue fuel depth cursor
      proceed ']' (item :: read).reverse (readItems fuel depth (item :: read)) after) := by
  rw [readItems]
  congr 1
  funext ⟨item, after⟩
  dsimp only [proceed]
  split
  · next same => rw [same]; rfl
  · next same => rw [same]; rfl
  · next noEnd noComma => split <;> simp_all

theorem ends_items (gaps : Gaps) (all : ∀ other ∈ item :: items, Writes depth other (text other))
    (enough : (gaps.join ((item :: items).map text)).length < fuel) (read : List Value) :
    gaps.Ends ']' (readItems fuel depth read) (gaps.join ((item :: items).map text))
      (read.reverse ++ echoItems (item :: items)) := by
  induction fuel generalizing item items read with
  | zero => cases enough
  | succ fuel ih =>
    obtain ⟨short, shorter⟩ := gaps.length_join_cons (text item) (items.map text)
    rw [map_cons] at enough
    refine Gaps.ends_join (echo item :: read).reverse (readItems fuel depth (echo item :: read)) (.inl rfl)
      (fun position rest closes => ?_) ?_ ?_
    · obtain ⟨after, found⟩ := (all item mem_cons_self).reads fuel position rest (by omega) closes
      exact ⟨after, by rw [readItems_succ, found]; rfl⟩
    · intro none
      rw [map_eq_nil_iff.mp none]
      exact reverse_cons
    · intro more
      cases items with
      | nil => exact absurd rfl more
      | cons next items =>
        have all := (forall_mem_cons.mp all).2
        have ends := ih all (Nat.lt_of_lt_of_le (shorter more) (Nat.le_of_lt_succ enough)) (echo item :: read)
        rw [reverse_cons, append_assoc] at ends
        exact ⟨gaps.leads_join _ (all next mem_cons_self).leads, ends⟩

/-- The text of an entry. -/
def Gaps.field (gaps : Gaps) (text : Value → List Char) (entry : Value × Value) : List Char :=
  (quote (keyText entry.1)).toList ++ (':' :: (gaps.colon ++ text entry.2))

theorem readEntries_entry (wellFormed : Text.IsWellFormed key)
    (writes : Writes depth value (text value)) (enough : (text value).length ≤ fuel)
    (read : List (Value × Value)) (position : Nat) (closes : Closes rest) :
    ∃ after, readEntries (fuel + 1) depth read ⟨gaps.field text (.text key, value) ++ rest, position⟩ =
      proceed '\x7d' (Value.insert (.text key) (echo value) read)
        (readEntries fuel depth (Value.insert (.text key) (echo value) read)) ⟨rest, after⟩ := by
  obtain ⟨after, found⟩ : ∃ after, readText position [] (position + 1) ((Text.codes key).flatMap codeChars ++
      '"' :: (':' :: (gaps.colon ++ (text value ++ rest)))) =
        .ok (key, ⟨':' :: (gaps.colon ++ (text value ++ rest)), after⟩) :=
    readText_quote wellFormed
  obtain ⟨last, reads⟩ := writes.reads fuel (after + 1 + gaps.colon.length) rest enough closes
  have chars : gaps.field text (.text key, value) ++ rest = '"' :: ((Text.codes key).flatMap codeChars ++
      '"' :: (':' :: (gaps.colon ++ (text value ++ rest)))) := by
    simp [Gaps.field, keyText, quote]
  refine ⟨last, ?_⟩
  rw [chars, readEntries.eq_def]
  simp only [found, skipSpace_cons (show isSpace ':' = false from rfl),
    skip_skipSpace gaps.blank.2.2.1 (writes.leads.starts rest), reads, bind, Except.bind]
  dsimp only [proceed]
  split
  · next same => rw [same]; rfl
  · next same => rw [same]; rfl
  · next noEnd noComma => split <;> simp_all

/-- An entry can be written under a text, which is its key. -/
def WritesEntry (depth : Nat) (text : Value → List Char) (entry : Value × Value) : Prop :=
  (∃ name, entry.1 = .text name ∧ Text.IsWellFormed name) ∧ Writes depth entry.2 (text entry.2)

theorem ends_entries (gaps : Gaps)
    (all : ∀ other ∈ entry :: entries, WritesEntry depth text other)
    (enough : (gaps.join ((entry :: entries).map (gaps.field text))).length < fuel)
    (read : List (Value × Value)) (apart : ((read ++ entry :: entries).map Prod.fst).Nodup)
    (texts : ∀ entry ∈ read, ∃ name, entry.1 = .text name) :
    gaps.Ends '\x7d' (readEntries fuel depth read) (gaps.join ((entry :: entries).map (gaps.field text)))
      (read ++ echoEntries (entry :: entries)) := by
  induction fuel generalizing entry entries read with
  | zero => cases enough
  | succ fuel ih =>
    obtain ⟨key, value⟩ := entry
    obtain ⟨⟨⟨name, is, wellFormed⟩, (writes : Writes depth value (text value))⟩, others⟩ :=
      forall_mem_cons.mp all
    cases is
    have new : ∀ entry ∈ read, ∃ other, entry.1 = .text other ∧ other ≠ name := by
      intro entry member
      obtain ⟨other, is⟩ := texts entry member
      refine ⟨other, is, ?_⟩
      rintro rfl
      rw [map_append, nodup_append] at apart
      exact apart.2.2 _ (mem_map_of_mem member) _ (by simp) is
    obtain ⟨short, shorter⟩ := gaps.length_join_cons (gaps.field text (.text name, value))
      (entries.map (gaps.field text))
    rw [map_cons] at enough
    refine Gaps.ends_join (read ++ [(.text name, echo value)])
      (readEntries fuel depth (read ++ [(.text name, echo value)])) (.inr rfl)
      (fun position rest closes => ?_) ?_ ?_
    · have fits := Nat.le_trans short (Nat.le_of_lt_succ enough)
      simp only [Gaps.field, length_append, length_cons] at fits
      rw [← insert_new new]
      exact readEntries_entry wellFormed writes (by omega) read position closes
    · intro none
      rw [map_eq_nil_iff.mp none]
      rfl
    · intro more
      cases entries with
      | nil => exact absurd rfl more
      | cons next entries =>
        have texts : ∀ entry ∈ read ++ [(.text name, echo value)], ∃ name, entry.1 = .text name := by
          intro other member
          rcases mem_append.mp member with old | this
          · exact texts other old
          · exact ⟨name, by rw [mem_singleton.mp this]⟩
        have ends := ih others (Nat.lt_of_lt_of_le (shorter more) (Nat.le_of_lt_succ enough))
          (read ++ [(.text name, echo value)]) (by simpa using apart) texts
        rw [append_assoc] at ends
        exact ⟨gaps.leads_join _ (leads_quote _ _), ends⟩

theorem writes_empty : Writes (depth + 1) (.list []) ['[', ']'] ∧
    Writes (depth + 1) (.map []) ['\x7b', '\x7d'] := by
  constructor <;>
  · refine .of_succ ⟨_, _, rfl, by decide⟩ (by simp [IsWritten]) fun fuel position rest _ _ => ?_
    rw [readValue.eq_def]
    exact ⟨_, rfl⟩

theorem writes_list (gaps : Gaps)
    (all : ∀ other ∈ item :: items, Writes depth other (text other)) :
    Writes (depth + 1) (.list (item :: items)) (gaps.enclose '[' ((item :: items).map text) ']') := by
  refine .of_succ ⟨_, _, rfl, by decide⟩ (Gaps.isWritten_enclose (by simp [IsWritten]) ?_) ?_
  · exact forall_mem_map.mpr fun item member => (all item member).written
  intro fuel position rest enough _
  obtain ⟨after, read⟩ :=
    ends_items gaps all (gaps.length_join_lt enough) [] (position + 1 + gaps.first.length) rest
  have leads : Leads (gaps.join ((item :: items).map text)) :=
    gaps.leads_join _ (all item mem_cons_self).leads
  refine ⟨after, ?_⟩
  rw [gaps.enclose_append, readValue.eq_def, echo]
  simp only [skip_skipSpace gaps.blank.1 (leads.starts _), Nat.add_sub_cancel, read]
  obtain ⟨first, more, same, -, noEnd, -⟩ := leads
  rw [same]
  simp [noEnd, bind, Except.bind, pure, Except.pure]

theorem writes_map (gaps : Gaps) (all : ∀ other ∈ entry :: entries, WritesEntry depth text other)
    (apart : ((entry :: entries).map Prod.fst).Nodup) :
    Writes (depth + 1) (.map (entry :: entries))
      (gaps.enclose '\x7b' ((entry :: entries).map (gaps.field text)) '\x7d') := by
  refine .of_succ ⟨_, _, rfl, by decide⟩ (Gaps.isWritten_enclose (by simp [IsWritten]) ?_) ?_
  · refine forall_mem_map.mpr fun entry member char within => ?_
    rw [Gaps.field, mem_append, mem_cons, mem_append] at within
    rcases within with name | rfl | blank | inside
    · exact isWritten_quote _ char name
    · exact .inr (by decide)
    · exact (gaps.blank.2.2.1 char blank).2
    · exact (all entry member).2.written char inside
  intro fuel position rest enough _
  obtain ⟨after, read⟩ := ends_entries gaps all (gaps.length_join_lt enough) [] apart (by simp)
    (position + 1 + gaps.first.length) rest
  have leads : Leads (gaps.join ((entry :: entries).map (gaps.field text))) :=
    gaps.leads_join _ (leads_quote _ _)
  refine ⟨after, ?_⟩
  rw [gaps.enclose_append, readValue.eq_def, echo]
  simp only [skip_skipSpace gaps.blank.1 (leads.starts _), Nat.add_sub_cancel, read]
  obtain ⟨first, more, same, -, -, noEnd⟩ := leads
  rw [same]
  simp [noEnd, bind, Except.bind, pure, Except.pure]

end Parts

end Whittle.Value.Json
