import KoAgent.NotInRewrite

/-!
# The tokens of a filter expression

CEL reads an expression as white space and lexemes, each lexeme the longest one
at its place. The lexemes here are words, numbers, operators and brackets, and
string literals between single or double quotes. A text with a raw, bytes or
triple-quoted literal or with a comment is not read. `Item` keeps the white space
in front of each token, so that a text is the concatenation of its items.
-/

namespace KoAgent.CelTokens

open KoAgent.NumeralText KoAgent.NotInRewrite

set_option autoImplicit false

def isDigit (symbol : Char) : Bool := '0' ≤ symbol && symbol ≤ '9'

def isHex (symbol : Char) : Bool :=
  isDigit symbol || ('a' ≤ symbol && symbol ≤ 'f') || ('A' ≤ symbol && symbol ≤ 'F')

def isOctal (symbol : Char) : Bool := '0' ≤ symbol && symbol ≤ '7'

def isWordPart (symbol : Char) : Bool := isIdentStart symbol || isDigit symbol

def isQuote (symbol : Char) : Bool := symbol == '"' || symbol == '\''

def isWord : Text → Bool
  | [] => false
  | symbol :: rest => isIdentStart symbol && rest.all isWordPart

def isDigits (word : Text) : Bool := !word.isEmpty && word.all isDigit

def isExponent : Text → Bool
  | letter :: sign :: rest =>
      (letter == 'e' || letter == 'E') &&
        (((sign == '+' || sign == '-') && isDigits rest) || isDigits (sign :: rest))
  | _ => false

def isInt (word : Text) : Bool :=
  isDigits word || match word with
    | '0' :: 'x' :: rest => !rest.isEmpty && rest.all isHex
    | _ => false

def isUint (word : Text) : Bool :=
  (word.getLast? == some 'u' || word.getLast? == some 'U') && isInt word.dropLast

def isFloat (word : Text) : Bool :=
  match word.dropWhile isDigit with
  | '.' :: rest =>
      !(rest.takeWhile isDigit).isEmpty &&
        ((rest.dropWhile isDigit).isEmpty || isExponent (rest.dropWhile isDigit))
  | exponent => !(word.takeWhile isDigit).isEmpty && isExponent exponent

def isNumber (word : Text) : Bool := isInt word || isUint word || isFloat word

/-- Where a reader stands: between tokens or in one of the plain ones, inside a
string literal, or behind a backslash in it. -/
inductive Mode where
  | outside
  | inside (quote : Char)
  | escaped (quote : Char)
  deriving DecidableEq

def Mode.step : Mode → Char → Mode
  | .outside, symbol => if isQuote symbol then .inside symbol else .outside
  | .inside quote, symbol =>
      if symbol = '\\' then .escaped quote else if symbol = quote then .outside else .inside quote
  | .escaped quote, _ => .inside quote

/-- A string literal ends with the first quote that is not escaped, on its own line. -/
def quotedFrom : Mode → Text → Bool
  | mode, [] => mode == .outside
  | .outside, _ :: _ => false
  | mode, symbol :: rest =>
      symbol != '\n' && symbol != '\r' && quotedFrom (mode.step symbol) rest

def escapeOk : Text → Bool
  | [] => false
  | symbol :: rest =>
      symbol ∈ ['a', 'b', 'f', 'n', 'r', 't', 'v', '"', '\'', '\\', '?', '`'] ||
        ((symbol == 'x' || symbol == 'X') && (rest.take 2).length == 2 && (rest.take 2).all isHex) ||
        (symbol == 'u' && (rest.take 4).length == 4 && (rest.take 4).all isHex) ||
        (symbol == 'U' && (rest.take 8).length == 8 && (rest.take 8).all isHex) ||
        ('0' ≤ symbol && symbol ≤ '3' && (rest.take 2).length == 2 && (rest.take 2).all isOctal)

/-- Every backslash that is not escaped itself starts an escape sequence of CEL. -/
def escapesOk : Bool → Text → Bool
  | _, [] => true
  | true, _ :: rest => escapesOk false rest
  | false, symbol :: rest =>
      if symbol = '\\' then escapeOk rest && escapesOk true rest else escapesOk false rest

def isQuoted : Text → Bool
  | [] => false
  | quote :: body => isQuote quote && quotedFrom (.inside quote) body && escapesOk false body

def operators : List Text :=
  [['=', '='], ['!', '='], ['<'], ['<', '='], ['>', '='], ['>'], ['&', '&'], ['|', '|'], ['['],
    [']'], ['{'], ['}'], ['('], [')'], ['.'], [','], ['-'], ['!'], ['?'], [':'], ['+'], ['*'],
    ['/'], ['%']]

def isPlain (word : Text) : Bool := isWord word || isNumber word || operators.contains word

def isLexeme (word : Text) : Bool := isPlain word || isQuoted word

/-- The longest lexeme of at most `length` characters at the front of the text. -/
def munchFrom (text : Text) : Nat → Option (Text × Text)
  | 0 => none
  | length + 1 =>
      if isLexeme (text.take (length + 1)) then some (text.take (length + 1), text.drop (length + 1))
      else munchFrom text length

def munch (text : Text) : Option (Text × Text) := munchFrom text text.length

/-- Words that make the literal behind them a raw or bytes literal. -/
def literalTags : List Text :=
  [['r'], ['R'], ['b'], ['B'], ['r', 'b'], ['r', 'B'], ['R', 'b'], ['R', 'B'], ['b', 'r'],
    ['b', 'R'], ['B', 'r'], ['B', 'R']]

/-- The token does not run on into a comment, a triple-quoted or a tagged literal. -/
def ends (raw after : Text) : Bool :=
  match after with
  | [] => true
  | symbol :: _ =>
      !(isQuote symbol && (literalTags.contains raw || raw == ['"', '"'] || raw == ['\'', '\''])) &&
        !(symbol == '/' && raw == ['/'])

structure Item where
  gap : Text
  raw : Text
  deriving DecidableEq

/-- The items of a text, and the white space behind the last of them. -/
def lexItems : Nat → Text → Option (List Item × Text)
  | 0, text => if text.all isSpace then some ([], text) else none
  | fuel + 1, text =>
      if text.all isSpace then some ([], text)
      else do
        let (raw, after) ← munch (text.dropWhile isSpace)
        if ends raw after then do
          let (items, tail) ← lexItems fuel after
          some ({ gap := text.takeWhile isSpace, raw := raw } :: items, tail)
        else none

def lex (text : Text) : Option (List Item × Text) := lexItems text.length text

def tokens (text : Text) : Option (List Text) := (lex text).map fun lexed => lexed.1.map Item.raw

example : tokens "a.b not in ['x', \"y\\\"\"]".toList =
    some (["a", ".", "b", "not", "in", "[", "'x'", ",", "\"y\\\"\"", "]"].map String.toList) := by
  decide +kernel

def plainSymbols : Text :=
  ['=', '!', '<', '>', '&', '|', '[', ']', '{', '}', '(', ')', '.', ',', '-', '?', ':', '+', '*',
    '/', '%']

/-- What a plain lexeme has behind its first character: no blank, no quote, and
neither of the characters `!` and `)`. -/
def runsOn (symbol : Char) : Bool :=
  isWordPart symbol || ['=', '&', '|', '.', '+', '-'].contains symbol

theorem is_digit_runs_on (symbol : Char) (digit : isDigit symbol = true) :
    runsOn symbol = true := by
  simp [runsOn, isWordPart, digit]

theorem is_hex_runs_on (symbol : Char) (hex : isHex symbol = true) : runsOn symbol = true := by
  simp only [isHex, isDigit, Bool.or_eq_true, Bool.and_eq_true, decide_eq_true_eq, Char.le_def] at hex
  simp only [runsOn, isWordPart, isIdentStart, isDigit, Bool.or_eq_true, Bool.and_eq_true,
    decide_eq_true_eq, Char.le_def]
  have f : 'f'.val ≤ 'z'.val := by decide
  have F : 'F'.val ≤ 'Z'.val := by decide
  rcases hex with (digit | lower) | upper
  · exact Or.inl (Or.inr digit)
  · exact Or.inl (Or.inl (Or.inl (Or.inr ⟨lower.1, UInt32.le_trans lower.2 f⟩)))
  · exact Or.inl (Or.inl (Or.inl (Or.inl ⟨upper.1, UInt32.le_trans upper.2 F⟩)))

theorem digits_run_on (word : Text) (digits : isDigits word = true) : word.all runsOn = true := by
  simp only [isDigits, Bool.and_eq_true, List.all_eq_true] at digits
  exact List.all_eq_true.mpr fun symbol member => is_digit_runs_on symbol (digits.2 symbol member)

theorem exponent_runs_on (word : Text) (exponent : isExponent word = true) :
    word.all runsOn = true := by
  match word with
  | [] => rfl
  | [_] => cases exponent
  | letter :: sign :: rest =>
      simp only [isExponent, Bool.and_eq_true, Bool.or_eq_true, beq_iff_eq] at exponent
      obtain ⟨isLetter, signed | unsigned⟩ := exponent
      · have tail := digits_run_on rest signed.2
        rcases isLetter with rfl | rfl <;> rcases signed.1 with rfl | rfl <;>
          simp [runsOn, isWordPart, isIdentStart, tail]
      · have tail := digits_run_on (sign :: rest) unsigned
        rcases isLetter with rfl | rfl <;>
          simp only [List.all_cons, Bool.and_eq_true] at tail ⊢ <;>
          exact ⟨by decide, tail⟩

theorem int_runs_on (word : Text) (int : isInt word = true) : word.all runsOn = true := by
  simp only [isInt, Bool.or_eq_true] at int
  rcases int with digits | hex
  · exact digits_run_on word digits
  · split at hex
    · rename_i rest
      simp only [Bool.and_eq_true, List.all_eq_true] at hex
      have tail := List.all_eq_true.mpr fun symbol member =>
        is_hex_runs_on symbol (hex.2 symbol member)
      simp only [List.all_cons, Bool.and_eq_true]
      exact ⟨by decide, by decide, tail⟩
    · cases hex

theorem uint_runs_on (word : Text) (uint : isUint word = true) : word.all runsOn = true := by
  simp only [isUint, Bool.and_eq_true, Bool.or_eq_true, beq_iff_eq] at uint
  have front := int_runs_on _ uint.2
  rcases uint.1 with last | last <;>
    rw [← List.dropLast_append_getLast? _ last, List.all_append, front] <;> rfl

theorem float_runs_on (word : Text) (float : isFloat word = true) : word.all runsOn = true := by
  have digits : ∀ text : Text, (text.takeWhile isDigit).all runsOn = true := by
    intro text
    exact List.all_eq_true.mpr fun symbol member =>
      is_digit_runs_on symbol (List.mem_takeWhile_imp member)
  rw [← List.takeWhile_append_dropWhile (p := isDigit) (l := word), List.all_append, digits,
    Bool.true_and]
  simp only [isFloat] at float
  split at float
  · rename_i rest equal
    simp only [Bool.and_eq_true, Bool.or_eq_true, List.isEmpty_iff] at float
    rw [equal, List.all_cons, ← List.takeWhile_append_dropWhile (p := isDigit) (l := rest),
      List.all_append, digits]
    rcases float.2 with empty | exponent
    · rw [empty]
      decide
    · rw [exponent_runs_on _ exponent]
      decide
  · simp only [Bool.and_eq_true] at float
    exact exponent_runs_on _ float.2

theorem word_runs_on (word : Text) (isWord : isWord word = true) : word.all runsOn = true := by
  match word with
  | [] => rfl
  | symbol :: rest =>
      simp only [CelTokens.isWord, Bool.and_eq_true, List.all_eq_true] at isWord
      simp only [List.all_cons, Bool.and_eq_true, List.all_eq_true]
      refine ⟨by simp [runsOn, isWordPart, isWord.1], fun part member => ?_⟩
      simp [runsOn, isWord.2 part member]

theorem number_runs_on (word : Text) (number : isNumber word = true) : word.all runsOn = true := by
  simp only [isNumber, Bool.or_eq_true] at number
  rcases number with (int | uint) | float
  · exact int_runs_on word int
  · exact uint_runs_on word uint
  · exact float_runs_on word float

theorem operator_runs_on (word : Text) (member : word ∈ operators) :
    ∃ symbol rest, word = symbol :: rest ∧ symbol ∈ plainSymbols ∧ rest.all runsOn = true := by
  have all : ∀ word ∈ operators, word.head?.any plainSymbols.contains = true ∧
      word.tail.all runsOn = true := by decide +kernel
  obtain ⟨first, rest⟩ := all word member
  match word with
  | [] => cases first
  | symbol :: tail => exact ⟨symbol, tail, rfl, List.contains_iff_mem.mp first, rest⟩

/-- A plain lexeme starts with a character that can stand in a word or a number
or with one of the operators, and runs on without blanks and quotes. -/
theorem plain_shape (word : Text) (plain : isPlain word = true) :
    ∃ symbol rest, word = symbol :: rest ∧ (runsOn symbol = true ∨ symbol ∈ plainSymbols) ∧
      rest.all runsOn = true := by
  have running : word ≠ [] → word.all runsOn = true →
      ∃ symbol rest, word = symbol :: rest ∧ (runsOn symbol = true ∨ symbol ∈ plainSymbols) ∧
        rest.all runsOn = true := by
    intro filled all
    obtain ⟨symbol, rest, rfl⟩ := List.exists_cons_of_ne_nil filled
    simp only [List.all_cons, Bool.and_eq_true] at all
    exact ⟨symbol, rest, rfl, Or.inl all.1, all.2⟩
  simp only [isPlain, Bool.or_eq_true, List.contains_iff_mem] at plain
  rcases plain with (isWord | number) | operator
  · exact running (by rintro rfl; cases isWord) (word_runs_on word isWord)
  · exact running (by rintro rfl; revert number; decide) (number_runs_on word number)
  · obtain ⟨symbol, rest, equal, plain, all⟩ := operator_runs_on word operator
    exact ⟨symbol, rest, equal, Or.inr plain, all⟩

theorem runs_on_excludes (symbol excluded : Char) (running : runsOn symbol = true)
    (member : excluded ∈ [' ', '\t', '\n', '\r', '\x0c', '"', '\'', '!', ')', '[', ']']) :
    symbol ≠ excluded := by
  rintro rfl
  have all : ∀ excluded ∈ [' ', '\t', '\n', '\r', '\x0c', '"', '\'', '!', ')', '[', ']'],
      runsOn excluded = false :=
    each_symbol _ (fun symbol => runsOn symbol = false) (by decide)
  rw [all symbol member] at running
  cases running

theorem runs_on_not_space (symbol : Char) (running : runsOn symbol = true) :
    isSpace symbol = false := by
  apply Bool.eq_false_iff.mpr
  intro space
  exact runs_on_excludes symbol symbol running
    (List.mem_append_left ['"', '\'', '!', ')', '[', ']'] (of_decide_eq_true space)) rfl

theorem runs_on_not_quote (symbol : Char) (running : runsOn symbol = true) :
    isQuote symbol = false := by
  simp only [isQuote, Bool.or_eq_false_iff, beq_eq_false_iff_ne]
  exact ⟨runs_on_excludes symbol _ running (by decide),
    runs_on_excludes symbol _ running (by decide)⟩

theorem plain_symbols (word : Text) (plain : isPlain word = true) :
    word ≠ [] ∧ ∀ symbol ∈ word, isSpace symbol = false ∧ isQuote symbol = false := by
  obtain ⟨symbol, rest, rfl, first, tail⟩ := plain_shape word plain
  have symbols : ∀ symbol ∈ plainSymbols, isSpace symbol = false ∧ isQuote symbol = false :=
    each_symbol _ (fun symbol => isSpace symbol = false ∧ isQuote symbol = false) (by decide)
  refine ⟨List.cons_ne_nil _ _, fun part member => ?_⟩
  have ordinary : runsOn part = true → isSpace part = false ∧ isQuote part = false := fun running =>
    ⟨runs_on_not_space part running, runs_on_not_quote part running⟩
  rcases List.mem_cons.mp member with rfl | member
  · exact first.elim ordinary (symbols part)
  · exact ordinary (List.all_eq_true.mp tail part member)

/-- The mode of the reader behind a text. -/
def Mode.after (mode : Mode) (text : Text) : Mode := text.foldl Mode.step mode

theorem mode_after_append (mode : Mode) (left right : Text) :
    mode.after (left ++ right) = (mode.after left).after right := List.foldl_append

theorem mode_after_cons (mode : Mode) (symbol : Char) (rest : Text) :
    mode.after (symbol :: rest) = (mode.step symbol).after rest := rfl

theorem outside_after (text : Text) (unquoted : ∀ symbol ∈ text, isQuote symbol = false) :
    Mode.outside.after text = .outside := by
  induction text with
  | nil => rfl
  | cons symbol rest induction =>
      have step : Mode.outside.step symbol = .outside := by
        simp [Mode.step, unquoted symbol List.mem_cons_self]
      rw [mode_after_cons, step]
      exact induction fun part member => unquoted part (List.mem_cons_of_mem symbol member)

theorem space_not_quote (symbol : Char) (space : isSpace symbol = true) :
    isQuote symbol = false :=
  of_space symbol space (fun symbol => isQuote symbol = false) (by decide)

theorem quoted_from_step (mode : Mode) (symbol : Char) (rest : Text)
    (quoted : quotedFrom mode (symbol :: rest) = true) :
    mode ≠ .outside ∧ quotedFrom (mode.step symbol) rest = true := by
  cases mode <;> simp only [quotedFrom, Bool.and_eq_true] at quoted
  · cases quoted
  · exact ⟨Mode.noConfusion, quoted.2⟩
  · exact ⟨Mode.noConfusion, quoted.2⟩

theorem quoted_from_after (mode : Mode) (body : Text) (quoted : quotedFrom mode body = true) :
    mode.after body = .outside := by
  induction body generalizing mode with
  | nil =>
      simp only [quotedFrom] at quoted
      exact beq_iff_eq.mp quoted
  | cons symbol rest induction => exact induction _ (quoted_from_step mode symbol rest quoted).2

/-- Only the end of a string literal leaves it. -/
theorem quoted_from_inside (mode : Mode) (front rest : Text)
    (quoted : quotedFrom mode (front ++ rest) = true) (more : rest ≠ []) :
    mode.after front ≠ .outside := by
  induction front generalizing mode with
  | nil =>
      rintro (rfl : mode = .outside)
      obtain ⟨symbol, tail, rfl⟩ := List.exists_cons_of_ne_nil more
      cases quoted
  | cons symbol front induction => exact induction _ (quoted_from_step mode symbol _ quoted).2

def Mode.quote? : Mode → Option Char
  | .outside => none
  | .inside quote => some quote
  | .escaped quote => some quote

theorem step_quote (mode : Mode) (symbol : Char) (valid : ∀ quote ∈ mode.quote?, isQuote quote = true) :
    ∀ quote ∈ (mode.step symbol).quote?, isQuote quote = true := by
  cases mode with
  | outside =>
      rw [Mode.step]
      split
      · rename_i quote
        rintro _ ⟨⟩
        exact quote
      · rintro _ ⟨⟩
  | inside quote =>
      rw [Mode.step]
      split
      · exact valid
      · split
        · rintro _ ⟨⟩
        · exact valid
  | escaped quote => exact valid

theorem after_quote (mode : Mode) (text : Text) (valid : ∀ quote ∈ mode.quote?, isQuote quote = true) :
    ∀ quote ∈ (mode.after text).quote?, isQuote quote = true := by
  induction text generalizing mode with
  | nil => exact valid
  | cons symbol rest induction => exact induction _ (step_quote mode symbol valid)

/-- Behind anything but a backslash, a reader that is not between tokens is inside
a string literal. -/
theorem inside_after (front : Text) (symbol : Char) (solid : symbol ≠ '\\')
    (within : Mode.outside.after (front ++ [symbol]) ≠ .outside) :
    ∃ quote, isQuote quote = true ∧ Mode.outside.after (front ++ [symbol]) = .inside quote := by
  have valid := after_quote .outside (front ++ [symbol]) (by rintro _ ⟨⟩)
  rw [mode_after_append] at within valid ⊢
  change ((Mode.outside.after front).step symbol) ≠ .outside at within
  change ∀ quote ∈ ((Mode.outside.after front).step symbol).quote?, isQuote quote = true at valid
  change ∃ quote, isQuote quote = true ∧ (Mode.outside.after front).step symbol = .inside quote
  rcases mode : (Mode.outside.after front).step symbol with _ | quote | quote
  · exact (within mode).elim
  · rw [mode] at valid
    exact ⟨quote, valid quote rfl, rfl⟩
  · exfalso
    cases before : Mode.outside.after front with
    | outside =>
        rw [before, Mode.step] at mode
        split at mode <;> cases mode
    | inside opened =>
        rw [before, Mode.step, if_neg solid] at mode
        split at mode <;> cases mode
    | escaped opened =>
        rw [before] at mode
        cases mode

/-- A string literal is only left through its quote. -/
theorem closing_quote (quote : Char) (mode : Mode) (text : Text) (opened : mode.quote? = some quote)
    (closed : mode.after text = .outside) : quote ∈ text := by
  induction text generalizing mode with
  | nil =>
      obtain rfl : mode = .outside := closed
      cases opened
  | cons symbol rest induction =>
      by_cases same : symbol = quote
      · exact same ▸ List.mem_cons_self
      · refine List.mem_cons_of_mem symbol (induction (mode.step symbol) ?_ closed)
        cases mode with
        | outside => cases opened
        | inside opening =>
            cases opened
            rw [Mode.step, if_neg same]
            split <;> rfl
        | escaped opening => exact opened

theorem quoted_shape (raw : Text) (quoted : isQuoted raw = true) :
    ∃ quote body, raw = quote :: body ∧ isQuote quote = true ∧
      quotedFrom (.inside quote) body = true := by
  match raw with
  | [] => cases quoted
  | quote :: body =>
      simp only [isQuoted, Bool.and_eq_true] at quoted
      exact ⟨quote, body, rfl, quoted.1.1, quoted.1.2⟩

theorem outside_step_quote (quote : Char) (isQuote : isQuote quote = true) :
    Mode.outside.step quote = .inside quote := by
  simp [Mode.step, isQuote]

theorem lexeme_after (raw : Text) (lexeme : isLexeme raw = true) :
    Mode.outside.after raw = .outside := by
  simp only [isLexeme, Bool.or_eq_true] at lexeme
  rcases lexeme with plain | quoted
  · exact outside_after raw fun symbol member => ((plain_symbols raw plain).2 symbol member).2
  · obtain ⟨quote, body, rfl, isQuote, closed⟩ := quoted_shape raw quoted
    rw [mode_after_cons, outside_step_quote quote isQuote]
    exact quoted_from_after _ body closed

theorem quote_not_space (symbol : Char) (quote : isQuote symbol = true) :
    isSpace symbol = false := by
  apply Bool.eq_false_iff.mpr
  intro space
  rw [space_not_quote symbol space] at quote
  cases quote

theorem lexeme_head (raw : Text) (lexeme : isLexeme raw = true) :
    ∃ symbol rest, raw = symbol :: rest ∧ isSpace symbol = false := by
  simp only [isLexeme, Bool.or_eq_true] at lexeme
  rcases lexeme with plain | quoted
  · obtain ⟨filled, symbols⟩ := plain_symbols raw plain
    obtain ⟨symbol, rest, rfl⟩ := List.exists_cons_of_ne_nil filled
    exact ⟨symbol, rest, rfl, (symbols symbol List.mem_cons_self).1⟩
  · obtain ⟨quote, body, rfl, isQuote, -⟩ := quoted_shape raw quoted
    exact ⟨quote, body, rfl, quote_not_space quote isQuote⟩

/-- A lexeme that starts with a quote is a string literal. -/
theorem lexeme_quoted (quote : Char) (body : Text) (isQuote : isQuote quote = true)
    (lexeme : isLexeme (quote :: body) = true) : quotedFrom (.inside quote) body = true := by
  simp only [isLexeme, Bool.or_eq_true] at lexeme
  rcases lexeme with plain | quoted
  · have unquoted := ((plain_symbols _ plain).2 quote List.mem_cons_self).2
    rw [isQuote] at unquoted
    cases unquoted
  · obtain ⟨_, _, equal, -, closed⟩ := quoted_shape _ quoted
    cases equal
    exact closed

/-- The token `raw` is what is read in front of `after`. -/
structure LexemeAt (raw after : Text) : Prop where
  lexeme : isLexeme raw = true
  longest : ∀ more rest, after = more ++ rest → isLexeme (raw ++ more) = true → more = []
  apart : ends raw after = true

theorem munch_from_read (text raw after : Text) (length : Nat) (bound : length ≤ text.length)
    (read : munchFrom text length = some (raw, after)) :
    text = raw ++ after ∧ isLexeme raw = true ∧
      ∀ more, raw.length < more → more ≤ length → isLexeme (text.take more) = false := by
  induction length with
  | zero => cases read
  | succ length induction =>
      rw [munchFrom] at read
      split at read
      · rename_i lexeme
        cases read
        refine ⟨(List.take_append_drop _ text).symm, lexeme, fun more lower upper => ?_⟩
        rw [List.length_take] at lower
        omega
      · rename_i refused
        obtain ⟨equal, lexeme, longest⟩ := induction (by omega) read
        refine ⟨equal, lexeme, fun more lower upper => ?_⟩
        rcases Nat.lt_or_ge length more with exceeds | within
        · obtain rfl : more = length + 1 := by omega
          exact Bool.eq_false_iff.mpr refused
        · exact longest more lower within

theorem munch_from_longest (raw after : Text) (length : Nat) (lexeme : isLexeme raw = true)
    (longest : ∀ more rest, after = more ++ rest → isLexeme (raw ++ more) = true → more = [])
    (lower : raw.length ≤ length) (upper : length ≤ (raw ++ after).length) :
    munchFrom (raw ++ after) length = some (raw, after) := by
  induction length with
  | zero =>
      obtain ⟨symbol, rest, rfl, -⟩ := lexeme_head raw lexeme
      cases lower
  | succ length induction =>
      rw [munchFrom]
      rcases Nat.lt_or_ge length raw.length with reached | longer
      · obtain same : length + 1 = raw.length := by omega
        rw [same, List.take_left, List.drop_left, if_pos lexeme]
      · rw [if_neg, induction longer (by omega)]
        intro exceeding
        -- A longer lexeme would be the token followed by a piece of `after`.
        have extent : (raw ++ after).take (length + 1) =
            raw ++ after.take (length + 1 - raw.length) := by
          rw [List.take_append, List.take_of_length_le (by omega)]
        rw [extent] at exceeding
        have nothing := longest _ _ (List.take_append_drop (length + 1 - raw.length) after).symm
          exceeding
        have size := congrArg List.length nothing
        simp only [List.length_take, List.length_nil, List.length_append] at size upper
        omega

theorem munch_iff (text raw after : Text) :
    (munch text = some (raw, after) ∧ ends raw after = true) ↔
      text = raw ++ after ∧ LexemeAt raw after := by
  constructor
  · rintro ⟨read, apart⟩
    obtain ⟨rfl, lexeme, longest⟩ := munch_from_read text raw after _ (Nat.le_refl _) read
    refine ⟨rfl, lexeme, fun more rest equal exceeding => ?_, apart⟩
    by_contra filled
    have size := List.length_pos_iff.mpr filled
    have refused := longest (raw.length + more.length) (by omega) (by simp [equal])
    rw [equal, ← List.append_assoc, List.take_append_of_le_length (by simp),
      List.take_of_length_le (by simp), exceeding] at refused
    cases refused
  · rintro ⟨rfl, lexeme, longest, apart⟩
    exact ⟨munch_from_longest raw after _ lexeme longest (by simp) (Nat.le_refl _), apart⟩

/-- The text of a list of items in front of `tail`. -/
def flattenItems : List Item → Text → Text
  | [], tail => tail
  | item :: items, tail => item.gap ++ (item.raw ++ flattenItems items tail)

/-- Each item is a token of the text that the items spell out in front of `tail`. -/
def Chain : List Item → Text → Prop
  | [], _ => True
  | item :: items, tail =>
      Blank item.gap ∧ LexemeAt item.raw (flattenItems items tail) ∧ Chain items tail

theorem flatten_items_append (left right : List Item) (tail : Text) :
    flattenItems (left ++ right) tail = flattenItems left (flattenItems right tail) := by
  induction left with
  | nil => rfl
  | cons item left induction => simp only [List.cons_append, flattenItems, induction]

theorem flatten_items_tail (items : List Item) (tail : Text) :
    flattenItems items tail = flattenItems items [] ++ tail := by
  induction items with
  | nil => rfl
  | cons item items induction => rw [flattenItems, flattenItems, induction]; simp

theorem chain_append (left right : List Item) (tail : Text) :
    Chain (left ++ right) tail ↔ Chain left (flattenItems right tail) ∧ Chain right tail := by
  induction left with
  | nil => simp [Chain]
  | cons item left induction =>
      simp only [List.cons_append, Chain, induction, flatten_items_append, and_assoc]

theorem blank_split (gap body : Text) (blank : Blank gap)
    (solid : ∀ symbol ∈ body.head?, isSpace symbol = false) :
    (gap ++ body).takeWhile isSpace = gap ∧ (gap ++ body).dropWhile isSpace = body :=
  take_while_stops isSpace gap body blank solid

theorem blank_cancel (gap otherGap body other : Text) (blank : Blank gap) (otherBlank : Blank otherGap)
    (solid : ∀ symbol ∈ body.head?, isSpace symbol = false)
    (otherSolid : ∀ symbol ∈ other.head?, isSpace symbol = false)
    (equal : gap ++ body = otherGap ++ other) : body = other := by
  rw [← (blank_split gap body blank solid).2, equal,
    (blank_split otherGap other otherBlank otherSolid).2]

theorem flatten_items_length (items : List Item) (tail : Text) (chain : Chain items tail) :
    items.length ≤ (flattenItems items tail).length := by
  induction items with
  | nil => exact Nat.zero_le _
  | cons item items induction =>
      obtain ⟨symbol, rest, equal, -⟩ := lexeme_head item.raw chain.2.1.lexeme
      have inner := induction chain.2.2
      rw [flattenItems, equal]
      simp only [List.length_cons, List.length_append]
      omega

theorem lex_items_read (fuel : Nat) (text tail : Text) (items : List Item)
    (read : lexItems fuel text = some (items, tail)) :
    text = flattenItems items tail ∧ Chain items tail ∧ Blank tail := by
  have nothing : ∀ text items, text.all isSpace = true →
      some (([] : List Item), text) = some (items, tail) →
        text = flattenItems items tail ∧ Chain items tail ∧ Blank tail := by
    intro text items blank equal
    cases equal
    exact ⟨rfl, trivial, List.all_eq_true.mp blank⟩
  induction fuel generalizing text items with
  | zero =>
      rw [lexItems] at read
      split at read
      · rename_i blank
        exact nothing text items blank read
      · cases read
  | succ fuel induction =>
      rw [lexItems] at read
      split at read
      · rename_i blank
        exact nothing text items blank read
      · simp only [Option.bind_eq_bind, Option.bind_eq_some_iff, Prod.exists] at read
        obtain ⟨raw, after, munched, read⟩ := read
        split at read
        · rename_i apart
          simp only [Option.bind_eq_some_iff, Prod.exists, Option.some.injEq, Prod.mk.injEq] at read
          obtain ⟨rest, last, more, rfl, rfl⟩ := read
          obtain ⟨equal, here⟩ := (munch_iff _ raw after).mp ⟨munched, apart⟩
          obtain ⟨rfl, chain, blank⟩ := induction after rest more
          refine ⟨?_, ⟨fun symbol member => List.mem_takeWhile_imp member, here, chain⟩, blank⟩
          rw [flattenItems, ← equal, List.takeWhile_append_dropWhile]
        · cases read

theorem lex_items_chain (fuel : Nat) (items : List Item) (tail : Text) (chain : Chain items tail)
    (blank : Blank tail) (enough : items.length ≤ fuel) :
    lexItems fuel (flattenItems items tail) = some (items, tail) := by
  induction items generalizing fuel with
  | nil =>
      have allBlank : tail.all isSpace = true := List.all_eq_true.mpr blank
      cases fuel <;> rw [flattenItems, lexItems, if_pos allBlank]
  | cons item items induction =>
      obtain ⟨gapBlank, here, rest⟩ := chain
      obtain ⟨symbol, body, equal, solid⟩ := lexeme_head item.raw here.lexeme
      obtain ⟨fuel, rfl⟩ : ∃ less, fuel = less + 1 := ⟨fuel - 1, by simp at enough; omega⟩
      obtain ⟨taken, dropped⟩ := blank_split item.gap (item.raw ++ flattenItems items tail) gapBlank
        (by simp [equal, solid])
      obtain ⟨read, apart⟩ := (munch_iff _ item.raw _).mpr ⟨rfl, here⟩
      rw [flattenItems, lexItems, if_neg (by simp [equal, solid]), taken, dropped, read]
      dsimp only [Option.bind_eq_bind, Option.bind_some]
      rw [if_pos apart, induction fuel rest (by simpa using enough)]
      rfl

/-- What a text is read as spells the text out. -/
theorem lex_iff (text tail : Text) (items : List Item) :
    lex text = some (items, tail) ↔ text = flattenItems items tail ∧ Chain items tail ∧ Blank tail := by
  constructor
  · exact lex_items_read _ text tail items
  · rintro ⟨rfl, chain, blank⟩
    exact lex_items_chain _ items tail chain blank (flatten_items_length items tail chain)

/-- The text without the white space between its tokens. -/
def strip : Mode → Text → Text
  | _, [] => []
  | mode, symbol :: rest =>
      if mode = .outside ∧ isSpace symbol = true then strip mode rest
      else symbol :: strip (mode.step symbol) rest

theorem strip_kept (mode : Mode) (symbol : Char) (rest : Text)
    (kept : ¬(mode = .outside ∧ isSpace symbol = true)) :
    strip mode (symbol :: rest) = symbol :: strip (mode.step symbol) rest := by
  rw [strip, if_neg kept]

theorem outside_step_space (symbol : Char) (space : isSpace symbol = true) :
    Mode.outside.step symbol = .outside := by
  simp [Mode.step, space_not_quote symbol space]

theorem strip_append (mode : Mode) (left right : Text) :
    strip mode (left ++ right) = strip mode left ++ strip (mode.after left) right := by
  induction left generalizing mode with
  | nil => rfl
  | cons symbol left induction =>
      rw [List.cons_append, strip, strip, mode_after_cons]
      split
      · rename_i dropped
        obtain ⟨rfl, space⟩ := dropped
        rw [induction, outside_step_space symbol space]
      · rw [induction, List.cons_append]

theorem strip_length (mode : Mode) (text : Text) : (strip mode text).length ≤ text.length := by
  induction text generalizing mode with
  | nil => exact Nat.le_refl _
  | cons symbol rest induction =>
      rw [strip]
      split
      · exact Nat.le_succ_of_le (induction mode)
      · exact Nat.succ_le_succ (induction _)

theorem strip_blank (gap : Text) (blank : Blank gap) : strip .outside gap = [] := by
  induction gap with
  | nil => rfl
  | cons symbol gap induction =>
      rw [strip, if_pos ⟨rfl, blank symbol List.mem_cons_self⟩]
      exact induction fun part member => blank part (List.mem_cons_of_mem symbol member)

theorem blank_after (gap : Text) (blank : Blank gap) : Mode.outside.after gap = .outside :=
  outside_after gap fun symbol member => space_not_quote symbol (blank symbol member)

theorem strip_blank_append (gap text : Text) (blank : Blank gap) :
    strip .outside (gap ++ text) = strip .outside text := by
  rw [strip_append, strip_blank gap blank, blank_after gap blank, List.nil_append]

theorem strip_quoted_from (mode : Mode) (body : Text) (quoted : quotedFrom mode body = true) :
    strip mode body = body := by
  induction body generalizing mode with
  | nil => rfl
  | cons symbol rest induction =>
      obtain ⟨inside, closed⟩ := quoted_from_step mode symbol rest quoted
      rw [strip_kept mode symbol rest fun dropped => inside dropped.1, induction _ closed]

theorem strip_solid (text : Text)
    (solid : ∀ symbol ∈ text, isSpace symbol = false ∧ isQuote symbol = false) :
    strip .outside text = text := by
  induction text with
  | nil => rfl
  | cons symbol rest induction =>
      obtain ⟨notSpace, unquoted⟩ := solid symbol List.mem_cons_self
      have step : Mode.outside.step symbol = .outside := by simp [Mode.step, unquoted]
      rw [strip_kept _ _ _ (by simp [notSpace]), step]
      rw [induction fun part member => solid part (List.mem_cons_of_mem symbol member)]

theorem strip_lexeme (raw : Text) (lexeme : isLexeme raw = true) : strip .outside raw = raw := by
  simp only [isLexeme, Bool.or_eq_true] at lexeme
  rcases lexeme with plain | quoted
  · exact strip_solid raw (plain_symbols raw plain).2
  · obtain ⟨quote, body, rfl, isQuote, closed⟩ := quoted_shape raw quoted
    rw [strip_kept _ _ _ (by simp [quote_not_space quote isQuote]),
      outside_step_quote quote isQuote, strip_quoted_from _ body closed]

theorem strip_lexeme_append (raw text : Text) (lexeme : isLexeme raw = true) :
    strip .outside (raw ++ text) = raw ++ strip .outside text := by
  rw [strip_append, strip_lexeme raw lexeme, lexeme_after raw lexeme]

/-- Without the white space between them, the tokens of a text stand in a row. -/
theorem strip_flatten_items (items : List Item) (old tail : Text) (chain : Chain items old) :
    strip .outside (flattenItems items tail) =
      (items.map Item.raw).flatten ++ strip .outside tail := by
  induction items with
  | nil => rfl
  | cons item items induction =>
      obtain ⟨blank, here, rest⟩ := chain
      rw [flattenItems, strip_blank_append _ _ blank, strip_lexeme_append _ _ here.lexeme,
        induction rest, List.map_cons, List.flatten_cons, List.append_assoc]

theorem flatten_items_after (items : List Item) (tail : Text) (chain : Chain items tail) :
    Mode.outside.after (flattenItems items []) = .outside := by
  induction items with
  | nil => rfl
  | cons item items induction =>
      obtain ⟨blank, here, rest⟩ := chain
      rw [flattenItems, mode_after_append, blank_after _ blank, mode_after_append,
        lexeme_after _ here.lexeme, induction rest]

/-- The new text is the old one, or departs from it with one of the characters
that no lexeme runs on into. -/
def Follows (old new : Text) : Prop :=
  new = old ∨ ∃ shared symbol departed rest, old = shared ++ departed ∧
    new = shared ++ symbol :: rest ∧ symbol ∈ [' ', '!', ')']

theorem follows_append (front old new : Text) (follows : Follows old new) :
    Follows (front ++ old) (front ++ new) := by
  rcases follows with rfl | ⟨shared, symbol, departed, rest, rfl, rfl, member⟩
  · exact Or.inl rfl
  · exact Or.inr ⟨front ++ shared, symbol, departed, rest, by simp, by simp, member⟩

/-- A lexeme does not run on into a blank, `!` or `)`. -/
theorem lexeme_stops (raw more : Text) (symbol : Char) (rest : Text)
    (lexeme : isLexeme raw = true) (longer : isLexeme (raw ++ (more ++ symbol :: rest)) = true)
    (member : symbol ∈ [' ', '!', ')']) : False := by
  obtain ⟨first, body, rfl, -⟩ := lexeme_head raw lexeme
  by_cases quote : isQuote first = true
  · have closed := lexeme_quoted first body quote lexeme
    have unclosed := lexeme_quoted first _ quote longer
    exact quoted_from_inside _ body _ unclosed (by simp) (quoted_from_after _ body closed)
  · simp only [isLexeme, Bool.or_eq_true] at longer
    rcases longer with plain | quoted
    · obtain ⟨_, _, equal, -, running⟩ := plain_shape _ plain
      cases equal
      have inTail := List.all_eq_true.mp running symbol (by simp)
      refine runs_on_excludes symbol symbol inTail ?_ rfl
      exact each_symbol [' ', '!', ')'] (fun symbol =>
        symbol ∈ [' ', '\t', '\n', '\r', '\x0c', '"', '\'', '!', ')', '[', ']']) (by decide) symbol member
    · obtain ⟨_, _, equal, isQuote, -⟩ := quoted_shape _ quoted
      cases equal
      exact quote isQuote

theorem lexeme_at_follows (raw old new : Text) (here : LexemeAt raw old)
    (follows : Follows old new) : LexemeAt raw new := by
  rcases follows with rfl | ⟨shared, symbol, departed, rest, rfl, rfl, member⟩
  · exact here
  · refine ⟨here.lexeme, fun more behind equal longer => ?_, ?_⟩
    · rcases List.append_eq_append_iff.mp equal with ⟨extra, rfl, split⟩ | ⟨extra, rfl, split⟩
      · match extra with
        | [] => exact here.longest (shared ++ []) departed (by simp) longer
        | head :: extra =>
            cases split
            exact (lexeme_stops raw shared symbol extra here.lexeme longer member).elim
      · exact here.longest more (extra ++ departed) (by simp) longer
    · match shared with
      | [] =>
          have other := each_symbol [' ', '!', ')']
            (fun symbol => isQuote symbol = false ∧ (symbol == '/') = false) (by decide) symbol member
          simp [ends, other]
      | head :: shared => exact here.apart

theorem chain_follows (items : List Item) (old new : Text) (chain : Chain items old)
    (follows : Follows old new) : Chain items new := by
  have spelled : ∀ items, Follows (flattenItems items old) (flattenItems items new) := by
    intro items
    rw [flatten_items_tail items old, flatten_items_tail items new]
    exact follows_append _ old new follows
  induction items with
  | nil => trivial
  | cons item items induction =>
      exact ⟨chain.1, lexeme_at_follows _ _ _ chain.2.1 (spelled items), induction chain.2.2⟩

/-- A lexeme that starts with a symbol of neither words, numbers nor literals is
an operator. -/
theorem symbol_lexeme (symbol : Char) (more : Text) (stops : runsOn symbol = false)
    (unquoted : isQuote symbol = false) (lexeme : isLexeme (symbol :: more) = true) :
    (symbol :: more) ∈ operators := by
  simp only [isLexeme, isPlain, Bool.or_eq_true, List.contains_iff_mem] at lexeme
  have running : (symbol :: more).all runsOn = true → False := by
    simp [stops]
  rcases lexeme with ((isWord | number) | operator) | quoted
  · exact (running (word_runs_on _ isWord)).elim
  · exact (running (number_runs_on _ number)).elim
  · exact operator
  · obtain ⟨_, _, equal, isQuote, -⟩ := quoted_shape _ quoted
    cases equal
    rw [unquoted] at isQuote
    cases isQuote

theorem lexeme_at_bracket (bracket : Char) (after : Text)
    (member : bracket ∈ ['(', ')', '[', ']']) : LexemeAt [bracket] after := by
  have all : ∀ bracket ∈ ['(', ')', '[', ']'], runsOn bracket = false ∧ isQuote bracket = false ∧
      (∀ operator ∈ operators, operator.head? = some bracket → operator = [bracket]) ∧
      isLexeme [bracket] = true ∧ literalTags.contains [bracket] = false ∧
      ([bracket] == ['/']) = false := each_symbol _ (fun _ => _) (by decide +kernel)
  obtain ⟨stops, unquoted, alone, lexeme, untagged, noSlash⟩ := all bracket member
  refine ⟨lexeme, fun more rest equal longer => ?_, ?_⟩
  · have operator := alone _ (symbol_lexeme bracket more stops unquoted longer) rfl
    exact List.cons_inj_right bracket |>.mp operator
  · match after with
    | [] => rfl
    | symbol :: after =>
        simp only [ends, untagged, noSlash]
        simp

theorem lexeme_at_not (after : Text) : LexemeAt ['!'] ('(' :: after) := by
  refine ⟨by decide, fun more rest equal longer => ?_, by simp [ends]; decide⟩
  have operator := symbol_lexeme '!' more (by decide) (by decide) longer
  have all : ∀ operator ∈ operators, operator.head? = some '!' → '(' ∉ operator.tail.head? := by
    decide +kernel
  match more with
  | [] => rfl
  | symbol :: more =>
      cases equal
      exact (all _ operator rfl rfl).elim

theorem lexeme_at_in (after : Text) : LexemeAt ['i', 'n'] (' ' :: after) := by
  refine ⟨by decide, fun more rest equal longer => ?_, by simp [ends]; decide⟩
  match more with
  | [] => rfl
  | symbol :: more =>
      cases equal
      exact (lexeme_stops ['i', 'n'] [] ' ' more (by decide) longer (by decide)).elim

/-- A word is read to its end. -/
theorem word_ends (word after : Text) (isWord : isWord word = true) (here : LexemeAt word after) :
    ∀ symbol ∈ after.head?, isWordPart symbol = false := by
  intro symbol first
  match after with
  | [] => cases first
  | head :: rest =>
      cases first
      apply Bool.eq_false_iff.mpr
      intro part
      have longer : isLexeme (word ++ [symbol]) = true := by
        match word with
        | [] => cases isWord
        | start :: body =>
            simp only [CelTokens.isWord, Bool.and_eq_true] at isWord
            simp [isLexeme, isPlain, CelTokens.isWord, isWord.1, isWord.2, part]
      cases here.longest [symbol] rest rfl longer

/-- Outside string literals a closing bracket is a token of its own. -/
theorem plain_bracket (word : Text) (plain : isPlain word = true) (bracket : ']' ∈ word) :
    word = [']'] := by
  have stops : ¬ word.all runsOn = true := by
    intro running
    exact runs_on_excludes ']' ']' (List.all_eq_true.mp running _ bracket) (by decide) rfl
  simp only [isPlain, Bool.or_eq_true, List.contains_iff_mem] at plain
  rcases plain with (isWord | number) | operator
  · exact (stops (word_runs_on word isWord)).elim
  · exact (stops (number_runs_on word number)).elim
  · have all : ∀ operator ∈ operators, ']' ∈ operator → operator = [']'] := by decide +kernel
    exact all word operator bracket

end KoAgent.CelTokens
