import Mathlib.Data.List.Basic
import Mathlib.Tactic.SplitIfs

/-!
# Numerals and separated fields as text

Reading a positional numeral back from its digits, and cutting a text at the
first or the last occurrence of a separator. Printing is `Nat.toDigits`; joining
and splitting fields are `List.intercalate` and `List.splitOn`.
-/

namespace KoAgent.NumeralText

set_option autoImplicit false

abbrev Text := List Char

/-- A decidable property of each of finitely many characters. -/
theorem each_symbol (symbols : Text) (holds : Char → Prop) [DecidablePred holds]
    (all : (symbols.all fun symbol => decide (holds symbol)) = true) :
    ∀ symbol ∈ symbols, holds symbol := fun symbol member =>
  of_decide_eq_true (List.all_eq_true.mp all symbol member)

def digitValue (symbol : Char) : Option Nat :=
  if '0' ≤ symbol ∧ symbol ≤ '9' then some (symbol.toNat - '0'.toNat)
  else if 'a' ≤ symbol ∧ symbol ≤ 'f' then some (symbol.toNat - 'a'.toNat + 10)
  else if 'A' ≤ symbol ∧ symbol ≤ 'F' then some (symbol.toNat - 'A'.toNat + 10)
  else none

def readDigit (base : Nat) (symbol : Char) : Option Nat := (digitValue symbol).filter (· < base)

def readDigits (base : Nat) : Nat → Text → Option Nat
  | value, [] => some value
  | value, symbol :: rest => do
      let digit ← readDigit base symbol
      readDigits base (base * value + digit) rest

/-- The value of a non-empty run of digits; no sign, no separator. -/
def readNumeral (base : Nat) (text : Text) : Option Nat :=
  if text = [] then none else readDigits base 0 text

theorem digit_value_digit_char (digit : Nat) (small : digit < 16) :
    digitValue digit.digitChar = some digit := by
  have cases : ∀ value : Fin 16, digitValue value.val.digitChar = some value.val := by decide
  exact cases ⟨digit, small⟩

theorem read_digit_digit_char (base digit : Nat) (bound : base ≤ 16) (small : digit < base) :
    readDigit base digit.digitChar = some digit := by
  rw [readDigit, digit_value_digit_char digit (by omega)]
  simp [Option.filter, small]

theorem read_digits_append (base value : Nat) (left right : Text) :
    readDigits base value (left ++ right) =
      (readDigits base value left).bind fun middle => readDigits base middle right := by
  induction left generalizing value with
  | nil => rfl
  | cons symbol rest induction =>
      simp only [List.cons_append, readDigits, Option.bind_eq_bind, Option.bind_assoc]
      cases readDigit base symbol with
      | none => rfl
      | some digit => exact induction _

theorem read_digits_to_digits (base number : Nat) (lower : 1 < base) (upper : base ≤ 16) :
    readDigits base 0 (Nat.toDigits base number) = some number := by
  induction number using Nat.base_induction base lower with
  | single digit small =>
      simp [Nat.toDigits_of_lt_base small, readDigits,
        read_digit_digit_char base digit upper small]
  | digit leading digit small positive induction =>
      rw [← Nat.toDigits_append_toDigits lower positive small, read_digits_append, induction,
        Nat.toDigits_of_lt_base small]
      simp [readDigits, read_digit_digit_char base digit upper small]

theorem read_numeral_to_digits (base number : Nat) (lower : 1 < base) (upper : base ≤ 16) :
    readNumeral base (Nat.toDigits base number) = some number := by
  rw [readNumeral, if_neg Nat.toDigits_ne_nil]
  exact read_digits_to_digits base number lower upper

theorem to_digits_symbols (base number : Nat) (lower : 1 < base)
    (symbol : Char) (member : symbol ∈ Nat.toDigits base number) :
    ∃ digit, digit < base ∧ symbol = digit.digitChar := by
  induction number using Nat.base_induction base lower with
  | single digit small =>
      rw [Nat.toDigits_of_lt_base small, List.mem_singleton] at member
      exact ⟨digit, small, member⟩
  | digit leading digit small positive induction =>
      rw [← Nat.toDigits_append_toDigits lower positive small, List.mem_append,
        Nat.toDigits_of_lt_base small, List.mem_singleton] at member
      rcases member with early | last
      · exact induction early
      · exact ⟨digit, small, last⟩

/-- A separator is a symbol that is no digit, so no numeral contains it. -/
theorem separator_not_in_digits (base number : Nat) (lower : 1 < base) (upper : base ≤ 16)
    (separator : Char) (noDigit : digitValue separator = none) :
    separator ∉ Nat.toDigits base number := by
  intro member
  obtain ⟨digit, small, rfl⟩ := to_digits_symbols base number lower separator member
  rw [digit_value_digit_char digit (by omega)] at noDigit
  cases noDigit

/-- Only the numeral of zero begins with the digit zero. -/
theorem to_digits_leading_zero (base number : Nat) (lower : 1 < base)
    (leading : (Nat.toDigits base number).head? = some '0') : number = 0 := by
  induction number using Nat.base_induction base lower with
  | single digit small =>
      simpa [Nat.toDigits_of_lt_base small] using leading
  | digit front digit small positive induction =>
      rw [← Nat.toDigits_append_toDigits lower positive small,
        List.head?_append_of_ne_nil _ Nat.toDigits_ne_nil] at leading
      have := induction leading
      omega

/-- The parts before and after the first occurrence of `separator`. -/
def cutFirst (separator : Char) : Text → Option (Text × Text)
  | [] => none
  | symbol :: rest =>
      if symbol = separator then some ([], rest)
      else (cutFirst separator rest).map fun parts => (symbol :: parts.1, parts.2)

/-- The parts before and after the last occurrence of `separator`. -/
def cutLast (separator : Char) : Text → Option (Text × Text)
  | [] => none
  | symbol :: rest =>
      match cutLast separator rest with
      | some (before, after) => some (symbol :: before, after)
      | none => if symbol = separator then some ([], rest) else none

theorem cut_first_append (separator : Char) (before after : Text)
    (absent : separator ∉ before) :
    cutFirst separator (before ++ separator :: after) = some (before, after) := by
  induction before with
  | nil => simp [cutFirst]
  | cons symbol rest induction =>
      simp only [List.mem_cons, not_or] at absent
      simp [cutFirst, Ne.symm absent.1, induction absent.2]

theorem cut_first_absent (separator : Char) (text : Text) (absent : separator ∉ text) :
    cutFirst separator text = none := by
  induction text with
  | nil => rfl
  | cons symbol rest induction =>
      simp only [List.mem_cons, not_or] at absent
      simp [cutFirst, Ne.symm absent.1, induction absent.2]

theorem cut_last_absent (separator : Char) (text : Text) (absent : separator ∉ text) :
    cutLast separator text = none := by
  induction text with
  | nil => rfl
  | cons symbol rest induction =>
      simp only [List.mem_cons, not_or] at absent
      simp [cutLast, induction absent.2, Ne.symm absent.1]

theorem cut_last_append (separator : Char) (before after : Text) (absent : separator ∉ after) :
    cutLast separator (before ++ separator :: after) = some (before, after) := by
  induction before with
  | nil => simp [cutLast, cut_last_absent separator after absent]
  | cons symbol rest induction => simp [cutLast, induction]

end KoAgent.NumeralText
