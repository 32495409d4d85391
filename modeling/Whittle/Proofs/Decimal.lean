import Whittle.Decimal.Numeral
import Whittle.Decimal.Shortest

/-!
How numbers are written. A decimal integer has no zeros in front and is the value of its
digits; the text of a finite double has digits before a point or an exponent
(`Decimal.Spelling`), so that it is told from an integer and from the end of the number.
-/

namespace Whittle.Decimal

open List

variable {value coefficient : Nat} {magnitude : Magnitude} {power : Int} {digits : List Char}

/-! ### Digits -/

theorem toDigits_some (value : Nat) : Nat.toDigits 10 value ≠ [] := by
  rw [Nat.toDigits_eq_if (by decide)]
  split <;> simp

theorem isDigit_of_mem_toDigits {char : Char} (member : char ∈ Nat.toDigits 10 value) :
    char.isDigit = true :=
  Nat.isDigit_of_mem_toDigits (by decide) (by decide) member

theorem digitsValue_toDigits (value : Nat) : digitsValue (Nat.toDigits 10 value) = value := by
  have same : digitsValue (Nat.toDigits 10 value) = Nat.ofDigitChars 10 (Nat.toDigits 10 value) 0 := by
    rw [digitsValue, Nat.ofDigitChars]
    congr 1
    funext value digit
    rw [Nat.mul_comm]
    rfl
  rw [same, Nat.ofDigitChars_toDigits (by decide) (by decide)]

/-- A number other than zero does not begin with one. -/
theorem head?_toDigits_ne (nonzero : value ≠ 0) : (Nat.toDigits 10 value).head? ≠ .some '0' := by
  induction value using Nat.strongRecOn with
  | ind value ih =>
    rw [Nat.toDigits_eq_if (by decide)]
    split
    · next small =>
      have digits : ∀ digit < 10, digit ≠ 0 → [digit.digitChar].head? ≠ .some '0' := by decide
      exact digits value small nonzero
    · next large =>
      have before := ih (value / 10) (by omega) (by omega)
      obtain ⟨first, rest, digits⟩ := exists_cons_of_ne_nil (toDigits_some (value / 10))
      rw [digits] at before ⊢
      exact before

/-! ### Spellings -/

/-- The parts of a written number: its sign, the digits before the point, the point and the digits
after it, and the exponent. The last two may be missing. -/
structure Spelling where
  negative : Bool
  whole : List Char
  fraction : List Char
  exponent : List Char
  some : whole ≠ []
  digits : ∀ char ∈ whole, char.isDigit = true
  leading : whole.head? = .some '0' → whole = ['0']
  point : fraction = [] ∨ ∃ digits, digits ≠ [] ∧ (∀ char ∈ digits, char.isDigit = true) ∧
    fraction = '.' :: digits
  power : exponent = [] ∨ ∃ sign digits, (sign = '+' ∨ sign = '-') ∧ digits ≠ [] ∧
    (∀ char ∈ digits, char.isDigit = true) ∧ exponent = 'e' :: sign :: digits

namespace Spelling

def chars (spelling : Spelling) : List Char :=
  (if spelling.negative then ['-'] else []) ++
    (spelling.whole ++ (spelling.fraction ++ spelling.exponent))

def ofInt (value : Int) : Spelling where
  negative := value < 0
  whole := Nat.toDigits 10 value.natAbs
  fraction := []
  exponent := []
  some := toDigits_some _
  digits _ := isDigit_of_mem_toDigits
  leading zero := by
    by_cases none : value.natAbs = 0
    · rw [none]
      rfl
    · exact absurd zero (head?_toDigits_ne none)
  point := .inl rfl
  power := .inl rfl

theorem chars_ofInt (value : Int) : (ofInt value).chars = (toString value).toList := by
  have parts : (ofInt value).chars =
      (if value < 0 then ['-'] else []) ++ Nat.toDigits 10 value.natAbs := by
    simp [chars, ofInt]
  rw [parts, Int.toString_eq_repr, Int.repr_eq_if]
  by_cases positive : 0 ≤ value
  · have size : value.natAbs = value.toNat := by omega
    rw [if_pos positive, if_neg (Int.not_lt.mpr positive), Nat.repr_eq_ofList_toDigits,
      String.toList_ofList, size, nil_append]
  · have size : value.natAbs = (-value).toNat := by omega
    rw [if_neg positive, if_pos (Int.not_le.mp positive), Nat.repr_eq_ofList_toDigits,
      String.toList_append, String.toList_ofList, String.toList_ofList, size]

end Spelling

/-! ### Doubles -/

section

variable (nonzero : magnitude.mantissa ≠ 0)

include nonzero

theorem coefficient_ne_zero_of_contains (contains : magnitude.contains coefficient power = true) :
    coefficient ≠ 0 := by
  rintro rfl
  have low : 0 < magnitude.interval.low := by
    rw [Magnitude.interval]
    dsimp only
    split <;> omega
  have scaled : ∀ first second : Nat, 0 < magnitude.interval.low * (Nat.pow 10 first * Nat.pow 2 second) :=
    fun first second => Nat.mul_pos low
      (Nat.mul_pos (Nat.pow_pos (by decide)) (Nat.pow_pos (by decide)))
  simp only [Magnitude.contains, Nat.zero_mul] at contains
  split at contains
  · have := of_decide_eq_true (Bool.and_eq_true_iff.mp contains).1
    have := scaled (-power).toNat (magnitude.exponent - 2).toNat
    omega
  · have := of_decide_eq_true (Bool.and_eq_true_iff.mp contains).1
    omega

theorem coefficient_ne_zero_of_onGrid? (found : magnitude.onGrid? power = .some coefficient) :
    coefficient ≠ 0 := by
  have tried : ∀ first second : Nat,
      (if magnitude.contains first power then Option.some first
        else if magnitude.contains second power then .some second else none) = .some coefficient →
      magnitude.contains coefficient power = true := by
    intro first second found
    split at found
    · next preferred =>
      cases found
      exact preferred
    · split at found
      · next other =>
        cases found
        exact other
      · cases found
  exact coefficient_ne_zero_of_contains nonzero (tried _ _ found)

theorem shortestFrom_ne_zero (power : Int)
    (tries : Nat) : (magnitude.shortestFrom power tries).1 ≠ 0 := by
  induction tries generalizing power with
  | zero => exact nonzero
  | succ tries ih =>
    rw [Magnitude.shortestFrom]
    split
    · next found => exact coefficient_ne_zero_of_onGrid? nonzero found
    · exact ih _

end

/-- Zeros at the end can be left out of digits that do not begin with one. -/
theorem dropTrailingZeros_spec (nonnil : digits ≠ []) (leading : digits.head? ≠ .some '0') :
    dropTrailingZeros digits ≠ [] ∧ (dropTrailingZeros digits).head? = digits.head? ∧
      ∀ char ∈ dropTrailingZeros digits, char ∈ digits := by
  have kept : (digits.reverse.dropWhile (· == '0')).reverse <+: digits := by
    have suffix := dropWhile_suffix (l := digits.reverse) (· == '0')
    rw [← reverse_prefix, reverse_reverse] at suffix
    exact suffix
  obtain ⟨first, rest, rfl⟩ := exists_cons_of_ne_nil nonnil
  have stays : (((first :: rest).reverse.dropWhile (· == '0')).reverse).isEmpty = false := by
    rw [Bool.eq_false_iff, ne_eq, List.isEmpty_iff, reverse_eq_nil_iff]
    intro gone
    have all : (first :: rest).reverse.takeWhile (· == '0') = (first :: rest).reverse := by
      have split := takeWhile_append_dropWhile (p := (· == '0')) (l := (first :: rest).reverse)
      rwa [gone, append_nil] at split
    have zeros := all_takeWhile (p := (· == '0')) (l := (first :: rest).reverse)
    rw [all, all_eq_true] at zeros
    exact leading (congrArg Option.some (by simpa using zeros first (by simp)))
  rw [dropTrailingZeros]
  generalize ((first :: rest).reverse.dropWhile (· == '0')).reverse = short at kept stays ⊢
  obtain ⟨head, others, rfl⟩ := exists_cons_of_ne_nil fun empty : short = [] => by
    rw [empty] at stays
    cases stays
  obtain ⟨more, whole⟩ := kept
  exact ⟨by simp, (congrArg head? whole :), fun char member => whole ▸ mem_append_left _ member⟩

theorem exists_layOut {point : Int} (negative : Bool) (nonnil : digits ≠ [])
    (are : ∀ char ∈ digits, char.isDigit = true) (leading : digits.head? ≠ .some '0') :
    ∃ spelling : Spelling, spelling.negative = negative ∧
      spelling.whole ++ (spelling.fraction ++ spelling.exponent) = layOut digits point ∧
      spelling.fraction ++ spelling.exponent ≠ [] := by
  obtain ⟨first, rest, rfl⟩ := exists_cons_of_ne_nil nonnil
  have nonzero : first ≠ '0' := fun same => leading (congrArg Option.some same)
  have zeros : ∀ count, ∀ char ∈ replicate count '0', char.isDigit = true := by
    intro count char member
    rw [(mem_replicate.mp member).2]
    rfl
  rw [layOut]
  split
  · split
    · -- Zeros stand before the digits.
      refine ⟨⟨negative, ['0'], '.' :: (replicate (-point).toNat '0' ++ first :: rest), [], by simp,
        forall_mem_singleton.mpr rfl, fun _ => rfl, .inr ⟨_, by simp, ?_, rfl⟩, .inl rfl⟩,
        rfl, by simp, by simp⟩
      intro char member
      rcases mem_append.mp member with zero | digit
      · exact zeros _ char zero
      · exact are char digit
    · split
      · -- Zeros stand after them.
        refine ⟨⟨negative, first :: (rest ++ replicate (point.toNat - (first :: rest).length) '0'),
          ['.', '0'], [], by simp, ?_, fun zero => absurd (Option.some.inj zero) nonzero,
          .inr ⟨['0'], by simp, forall_mem_singleton.mpr rfl, rfl⟩, .inl rfl⟩, rfl, by simp, by simp⟩
        intro char member
        rw [← cons_append, mem_append] at member
        rcases member with digit | zero
        · exact are char digit
        · exact zeros _ char zero
      · -- The point stands between them.
        next positive inside =>
        obtain ⟨count, is⟩ : ∃ count, point.toNat = count + 1 :=
          Nat.exists_eq_succ_of_ne_zero (by omega)
        rw [is]
        refine ⟨⟨negative, first :: rest.take count, '.' :: rest.drop count, [], by simp, ?_,
          fun zero => absurd (Option.some.inj zero) nonzero, .inr ⟨rest.drop count, ?_, ?_, rfl⟩, .inl rfl⟩,
          rfl, by simp, by simp⟩
        · exact fun char member => are char (mem_of_mem_take (i := count + 1) member)
        · rw [ne_eq, drop_eq_nil_iff]
          rw [length_cons] at inside
          omega
        · exact fun char member => are char (mem_cons_of_mem _ (mem_of_mem_drop member))
  · -- An exponent follows.
    have size : ∀ value : Nat, (if (Nat.toDigits 10 value).length < 2 then '0' :: Nat.toDigits 10 value
        else Nat.toDigits 10 value) ≠ [] ∧ ∀ char ∈ (if (Nat.toDigits 10 value).length < 2 then
          '0' :: Nat.toDigits 10 value else Nat.toDigits 10 value), char.isDigit = true := by
      intro value
      split
      · refine ⟨by simp, fun char member => ?_⟩
        rcases mem_cons.mp member with rfl | digit
        · rfl
        · exact isDigit_of_mem_toDigits digit
      · exact ⟨toDigits_some value, fun _ => isDigit_of_mem_toDigits⟩
    obtain ⟨shown, are'⟩ := size (point - 1).natAbs
    have sign : (if point - 1 < 0 then '-' else '+') = '+' ∨ (if point - 1 < 0 then '-' else '+') = '-' := by
      split <;> simp
    have one : ∀ char ∈ [first], char.isDigit = true := fun char member =>
      are char (mem_singleton.mp member ▸ mem_cons_self)
    have leads : [first].head? = .some '0' → [first] = ['0'] :=
      fun zero => absurd (Option.some.inj zero) nonzero
    cases rest with
    | nil =>
      exact ⟨⟨negative, [first], [], _, by simp, one, leads, .inl rfl,
        .inr ⟨_, _, sign, shown, are', rfl⟩⟩, rfl, rfl, by simp⟩
    | cons second others =>
      refine ⟨⟨negative, [first], '.' :: second :: others, _, by simp, one, leads,
        .inr ⟨_, by simp, (forall_mem_cons.mp are).2, rfl⟩,
        .inr ⟨_, _, sign, shown, are', rfl⟩⟩, rfl, rfl, by simp⟩

/-- The text of a finite double has a point or an exponent. -/
theorem exists_spelling (negative : Bool) (magnitude : Magnitude) :
    ∃ spelling : Spelling, spelling.chars = (magnitude.write negative).toList ∧
      spelling.fraction ++ spelling.exponent ≠ [] := by
  obtain ⟨spelling, sign, body, apart⟩ : ∃ spelling : Spelling, spelling.negative = negative ∧
      spelling.whole ++ (spelling.fraction ++ spelling.exponent) =
        (if magnitude.mantissa = 0 then ['0', '.', '0']
          else layOut (dropTrailingZeros (Nat.toDigits 10 magnitude.shortest.1))
            ((Nat.toDigits 10 magnitude.shortest.1).length + magnitude.shortest.2)) ∧
      spelling.fraction ++ spelling.exponent ≠ [] := by
    split
    · have zero : ∀ char ∈ ['0'], char.isDigit = true := forall_mem_singleton.mpr rfl
      exact ⟨⟨negative, ['0'], ['.', '0'], [], by simp, zero, fun _ => rfl,
        .inr ⟨['0'], by simp, zero, rfl⟩, .inl rfl⟩, rfl, rfl, by simp⟩
    · next some =>
      have first := head?_toDigits_ne (shortestFrom_ne_zero some (magnitude.decimalExponent - 1) 17)
      obtain ⟨stays, head, kept⟩ := dropTrailingZeros_spec (toDigits_some _) first
      exact exists_layOut negative stays (fun char member => isDigit_of_mem_toDigits (kept char member))
        (head ▸ first)
  refine ⟨spelling, ?_, apart⟩
  rw [Spelling.chars, sign, body, Magnitude.write]
  cases negative <;> simp

end Whittle.Decimal
