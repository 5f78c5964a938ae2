import Mathlib.Data.List.Infix
import KoAgent.NotInTokens

/-!
# When the `not in` rewrite keeps the tokens

The regular expression reads an operand by its characters. What it takes can
fall short of the operand or reach beyond it; each way leaves a trace in the
written text, so the rewrite gives the replaced tokens only where the phrases in
the text are the occurrences.
-/

namespace KoAgent.RewriteExactness

open KoAgent.NumeralText KoAgent.NotInRewrite KoAgent.CelTokens KoAgent.NotInTokens

set_option autoImplicit false

/-- The text `word` that the regular expression takes for an operand spelled `whole`. -/
inductive Extent (whole word : Text) : Prop where
  | same (equal : word = whole)
  | inside (missing : Text) (quote : Char) (isQuote : isQuote quote = true)
      (short : whole = word ++ missing) (mode : Mode.outside.after word = .inside quote)
  | apart (missing : Text) (next : Char) (rest : Text) (short : whole = word ++ missing)
      (mode : Mode.outside.after word = .outside) (first : strip .outside missing = next :: rest)
      (other : next ≠ ')')
  | beyond (more : Text) (long : word = whole ++ '.' :: more)

theorem extent_append (front whole word : Text) (mode : Mode.outside.after front = .outside)
    (extent : Extent whole word) : Extent (front ++ whole) (front ++ word) := by
  cases extent with
  | same equal => exact .same (by rw [equal])
  | inside missing quote isQuote short within =>
      refine .inside missing quote isQuote (by rw [short, List.append_assoc]) ?_
      rw [mode_after_append, mode, within]
  | apart missing next rest short between first other =>
      refine .apart missing next rest (by rw [short, List.append_assoc]) ?_ first other
      rw [mode_after_append, mode, between]
  | beyond more long => exact .beyond more (by rw [long, List.append_assoc])

theorem extent_apart (word gap raw rest : Text) (mode : Mode.outside.after word = .outside)
    (blank : Blank gap) (lexeme : isLexeme raw = true) (other : raw.head? ≠ some ')') :
    Extent (word ++ (gap ++ (raw ++ rest))) word := by
  obtain ⟨next, body, rfl, -⟩ := lexeme_head raw lexeme
  refine .apart (gap ++ (next :: body ++ rest)) next (body ++ strip .outside rest) rfl mode ?_ ?_
  · rw [strip_blank_append _ _ blank, strip_lexeme_append _ _ lexeme]
    rfl
  · rintro rfl
    exact other rfl

theorem ident_part_eq (symbol : Char) : isIdentPart symbol = (isWordPart symbol || symbol == '.') :=
  rfl

theorem run_behind_word (text : Text) (stops : ∀ symbol ∈ text.head?, isWordPart symbol = false) :
    Extent [] (text.takeWhile isIdentPart) := by
  match text with
  | [] => exact .same rfl
  | symbol :: rest =>
      by_cases dot : symbol = '.'
      · rw [dot, List.takeWhile_cons_of_pos (by decide)]
        exact .beyond _ rfl
      · rw [List.takeWhile_cons_of_neg]
        · exact .same rfl
        · rw [ident_part_eq, stops symbol rfl]
          simp [dot]

theorem word_parts (word : Text) (isWord : isWord word = true) :
    ∃ start body, word = start :: body ∧ isIdentStart start = true ∧
      ∀ symbol ∈ word, isIdentPart symbol = true := by
  match word with
  | [] => cases isWord
  | start :: body =>
      simp only [CelTokens.isWord, Bool.and_eq_true, List.all_eq_true] at isWord
      refine ⟨start, body, rfl, isWord.1, fun symbol member => ?_⟩
      rcases List.mem_cons.mp member with rfl | member
      · simp [isIdentPart, isWord.1]
      · rw [ident_part_eq, isWord.2 symbol member]
        rfl

theorem identifier_word (word : Text) (identifier : isIdentifier word = true) :
    isWord word = true := by
  simp only [isIdentifier, Bool.and_eq_true] at identifier
  exact identifier.1.1

theorem blank_run (gap text : Text) (filled : gap ≠ []) (blank : Blank gap) :
    (gap ++ text).takeWhile isIdentPart = [] := by
  obtain ⟨symbol, rest, rfl⟩ := List.exists_cons_of_ne_nil filled
  exact List.takeWhile_cons_of_neg (of_space symbol (blank symbol List.mem_cons_self)
    (fun symbol => ¬ isIdentPart symbol = true) (by decide))

/-- The run of name characters behind the first word of a dotted identifier. -/
theorem dotted_extent : ∀ (items : List Item) (tail : Text), Chain items tail →
    (∀ symbol ∈ (flattenItems items tail).head?, isWordPart symbol = false) →
    Extent (flattenItems (items.take (dottedLength (items.map Item.raw))) [])
      ((flattenItems items tail).takeWhile isIdentPart)
  | [], tail, _, stops => run_behind_word tail stops
  | [item], tail, _, stops => run_behind_word _ stops
  | dot :: word :: rest, tail, chain, stops => by
      rw [List.map_cons, List.map_cons, dottedLength]
      split
      · rename_i dotted
        obtain ⟨isDot, identifier⟩ := dotted
        obtain ⟨dotBlank, dotHere, wordBlank, wordHere, restChain⟩ := chain
        have isWord := identifier_word word.raw identifier
        obtain ⟨start, body, spelled, isStart, parts⟩ := word_parts word.raw isWord
        have inner := dotted_extent rest tail restChain (word_ends word.raw _ isWord wordHere)
        have wordLexeme := wordHere.lexeme
        simp only [List.take_succ_cons, flattenItems, isDot]
        by_cases dotGap : dot.gap = []
        · by_cases wordGap : word.gap = []
          · -- Nothing stands between the words: the run goes on behind this one.
            rw [dotGap, wordGap]
            simp only [List.nil_append, List.cons_append]
            rw [List.takeWhile_cons_of_pos (by decide), List.takeWhile_append_of_pos parts]
            refine extent_append ('.' :: word.raw) _ _ ?_ inner
            rw [mode_after_cons]
            exact lexeme_after word.raw wordLexeme
          · rw [dotGap]
            simp only [List.nil_append, List.cons_append]
            rw [List.takeWhile_cons_of_pos (by decide), blank_run _ _ wordGap wordBlank]
            refine extent_apart ['.'] word.gap word.raw _ rfl wordBlank wordLexeme ?_
            rw [spelled]
            rintro ⟨⟩
            cases isStart
        · rw [blank_run _ _ dotGap dotBlank]
          exact extent_apart [] dot.gap ['.'] _ rfl dotBlank (by decide) (by decide)
      · exact run_behind_word _ stops

/-- The characters of a text outside its string literals, opening quotes included. -/
def unquoted : Mode → Text → Text
  | _, [] => []
  | mode, symbol :: rest =>
      if mode = .outside then symbol :: unquoted (mode.step symbol) rest
      else unquoted (mode.step symbol) rest

theorem unquoted_append (mode : Mode) (left right : Text) :
    unquoted mode (left ++ right) = unquoted mode left ++ unquoted (mode.after left) right := by
  induction left generalizing mode with
  | nil => rfl
  | cons symbol left induction =>
      rw [List.cons_append, unquoted, unquoted, mode_after_cons]
      split
      · rw [induction, List.cons_append]
      · rw [induction]

theorem unquoted_mem (mode : Mode) (text : Text) (symbol : Char)
    (member : symbol ∈ unquoted mode text) : symbol ∈ text := by
  induction text generalizing mode with
  | nil => exact member
  | cons first rest induction =>
      rw [unquoted] at member
      split at member
      · rcases List.mem_cons.mp member with rfl | member
        · exact List.mem_cons_self
        · exact List.mem_cons_of_mem first (induction _ member)
      · exact List.mem_cons_of_mem first (induction _ member)

theorem unquoted_quoted_from (mode : Mode) (body : Text) (quoted : quotedFrom mode body = true) :
    unquoted mode body = [] := by
  induction body generalizing mode with
  | nil => rfl
  | cons symbol rest induction =>
      obtain ⟨inside, closed⟩ := quoted_from_step mode symbol rest quoted
      rw [unquoted, if_neg inside, induction _ closed]

theorem lexeme_bracket (raw : Text) (lexeme : isLexeme raw = true)
    (bracket : ']' ∈ unquoted .outside raw) : raw = [']'] := by
  simp only [isLexeme, Bool.or_eq_true] at lexeme
  rcases lexeme with plain | quoted
  · exact plain_bracket raw plain (unquoted_mem _ _ _ bracket)
  · obtain ⟨quote, body, rfl, isQuote, closed⟩ := quoted_shape raw quoted
    rw [unquoted, if_pos rfl, outside_step_quote quote isQuote, unquoted_quoted_from _ _ closed,
      List.mem_singleton] at bracket
    rw [← bracket] at isQuote
    cases isQuote

theorem blank_no_bracket (gap : Text) (blank : Blank gap) : ']' ∉ gap := by
  intro member
  cases blank ']' member

theorem items_no_bracket (items : List Item) (tail : Text) (chain : Chain items tail)
    (absent : ∀ item ∈ items, item.raw ≠ [']']) :
    ']' ∉ unquoted .outside (flattenItems items []) := by
  induction items with
  | nil => exact List.not_mem_nil
  | cons item items induction =>
      obtain ⟨blank, here, rest⟩ := chain
      rw [flattenItems, unquoted_append, unquoted_append, blank_after _ blank,
        lexeme_after _ here.lexeme]
      intro member
      rcases List.mem_append.mp member with inGap | member
      · exact blank_no_bracket _ blank (unquoted_mem _ _ _ inGap)
      rcases List.mem_append.mp member with inRaw | member
      · exact absent item List.mem_cons_self (lexeme_bracket _ here.lexeme inRaw)
      · exact induction rest (fun other inside => absent other (List.mem_cons_of_mem item inside)) member

/-- A bracket that no reader meets between tokens stands inside a string literal. -/
theorem bracket_inside (front behind : Text)
    (absent : ']' ∉ unquoted .outside (front ++ ']' :: behind)) :
    ∃ quote, isQuote quote = true ∧ Mode.outside.after (front ++ [']']) = .inside quote := by
  have within : Mode.outside.after front ≠ .outside := by
    intro between
    rw [unquoted_append, between, unquoted, if_pos rfl] at absent
    exact absent (List.mem_append_right _ List.mem_cons_self)
  apply inside_after front ']' (by decide)
  rw [mode_after_append]
  have valid := after_quote .outside front (by rintro _ ⟨⟩)
  change (Mode.outside.after front).step ']' ≠ .outside
  cases mode : Mode.outside.after front with
  | outside => exact (within mode).elim
  | inside quote =>
      rw [mode] at valid
      have other : ']' ≠ quote := by
        rintro rfl
        cases valid ']' rfl
      rw [Mode.step, if_neg (by decide), if_neg other]
      exact fun equal => by cases equal
  | escaped quote => exact fun equal => by cases equal

theorem literal_extent (raw after word rest : Text) (quoted : isQuoted raw = true)
    (found : operand (raw ++ after) = some (word, rest)) : Extent raw word := by
  obtain ⟨quote, body, rfl, isQuote, closed⟩ := quoted_shape raw quoted
  obtain ⟨spelled, shape⟩ := operand_shape _ word rest found
  cases shape with
  | name symbol parts start _ _ =>
      obtain rfl := (List.cons_eq_cons.mp spelled).1
      simp only [CelTokens.isQuote, Bool.or_eq_true, beq_iff_eq] at isQuote
      rcases isQuote with rfl | rfl <;> cases start
  | list inner absent =>
      obtain rfl := (List.cons_eq_cons.mp spelled).1
      cases isQuote
  | literal inner absent =>
      simp only [List.cons_append, List.cons.injEq] at spelled
      obtain ⟨rfl, spelled⟩ := spelled
      rcases List.append_eq_append_iff.mp spelled with ⟨extra, whole, -⟩ | ⟨missing, rfl, -⟩
      · rcases List.eq_nil_or_concat extra with rfl | ⟨front, last, rfl⟩
        · rw [List.append_nil] at whole
          exact .same (by rw [← whole]; rfl)
        · -- The literal would be closed before its only quote.
          rw [List.concat_eq_append, ← List.append_assoc] at whole
          obtain ⟨rfl, -⟩ := List.append_inj' whole rfl
          have member := closing_quote '"' (.inside '"') body rfl (quoted_from_after _ _ closed)
          exact (absent (List.mem_append_left front member)).elim
      · by_cases empty : missing = []
        · exact .same (by rw [empty]; simp)
        · have within : Mode.outside.after ('"' :: inner ++ ['"']) ≠ .outside :=
            quoted_from_inside _ (inner ++ ['"']) missing closed empty
          obtain ⟨quote, valid, mode⟩ := inside_after ('"' :: inner) '"' (by decide) within
          exact .inside missing quote valid rfl mode

theorem list_extent (inner after word rest : Text) (absent : ']' ∉ unquoted .outside inner)
    (found : operand ('[' :: (inner ++ ']' :: after)) = some (word, rest)) :
    Extent ('[' :: (inner ++ [']'])) word := by
  obtain ⟨spelled, shape⟩ := operand_shape _ word rest found
  cases shape with
  | name symbol parts start _ _ =>
      obtain rfl := (List.cons_eq_cons.mp spelled).1
      cases start
  | literal body missing => cases (List.cons_eq_cons.mp spelled).1
  | list body missing =>
      simp only [List.cons_append, List.append_assoc, List.nil_append, List.cons.injEq,
        true_and] at spelled
      rcases List.append_eq_append_iff.mp spelled with ⟨extra, rfl, behind⟩ | ⟨extra, rfl, behind⟩
      · match extra with
        | [] => exact .same (by simp)
        | symbol :: extra =>
            cases behind
            exact (missing (List.mem_append_right inner List.mem_cons_self)).elim
      · match extra with
        | [] => exact .same (by simp)
        | symbol :: extra =>
            cases behind
            have outer : ']' ∉ unquoted .outside (('[' :: body) ++ ']' :: extra) := by
              rw [List.cons_append, unquoted, if_pos rfl]
              intro member
              rcases List.mem_cons.mp member with equal | member
              · cases equal
              · exact absent member
            obtain ⟨quote, valid, mode⟩ := bracket_inside ('[' :: body) extra outer
            exact .inside (extra ++ [']']) quote valid (by simp) mode

theorem name_extent (item : Item) (behind : List Item) (tail word rest : Text)
    (chain : Chain (item :: behind) tail) (identifier : isIdentifier item.raw = true)
    (found : operand (item.raw ++ flattenItems behind tail) = some (word, rest)) :
    Extent (item.raw ++ flattenItems (behind.take (dottedLength (behind.map Item.raw))) []) word := by
  have isWord := identifier_word item.raw identifier
  obtain ⟨start, body, spelled, isStart, parts⟩ := word_parts item.raw isWord
  have inner := dotted_extent behind tail chain.2.2 (word_ends _ _ isWord chain.2.1)
  have taken : operand (item.raw ++ flattenItems behind tail) =
      some (item.raw ++ (flattenItems behind tail).takeWhile isIdentPart,
        (flattenItems behind tail).dropWhile isIdentPart) := by
    rw [spelled] at parts ⊢
    have bodyParts : ∀ symbol ∈ body, isIdentPart symbol = true := fun symbol member =>
      parts symbol (List.mem_cons_of_mem start member)
    rw [List.cons_append, operand_name _ _ isStart, List.takeWhile_append_of_pos bodyParts,
      List.dropWhile_append_of_pos bodyParts]
    rfl
  obtain ⟨rfl, -⟩ := Prod.mk.inj (Option.some.inj (found.symm.trans taken))
  exact extent_append item.raw _ _ (lexeme_after _ chain.2.1.lexeme) inner

theorem bracketed_text (item closing : Item) (body more : List Item) (tail : Text)
    (opening : item.raw = ['[']) (closes : closing.raw = [']']) :
    flattenItems (bare (item :: (body ++ closing :: more))) tail =
      '[' :: ((flattenItems body [] ++ closing.gap) ++ ']' :: flattenItems more tail) := by
  simp only [bare, withGap, flattenItems, flatten_items_append, opening, closes]
  rw [flatten_items_tail body]
  simp

theorem bracketed_extent (item closing : Item) (body behind : List Item) (tail word rest : Text)
    (chain : Chain (item :: (body ++ closing :: behind)) tail) (opening : item.raw = ['['])
    (closes : closing.raw = [']']) (absent : ∀ inner ∈ body, inner.raw ≠ [']'])
    (found : operand (flattenItems (bare (item :: (body ++ closing :: behind))) tail) =
      some (word, rest)) :
    Extent (flattenItems (bare (item :: (body ++ [closing]))) []) word := by
  obtain ⟨bodyChain, closingBlank, -, -⟩ := (chain_append _ _ _).mp chain.2.2
  have noBracket : ']' ∉ unquoted .outside (flattenItems body [] ++ closing.gap) := by
    rw [unquoted_append, flatten_items_after _ _ bodyChain]
    intro member
    rcases List.mem_append.mp member with member | member
    · exact items_no_bracket body _ bodyChain absent member
    · exact blank_no_bracket _ closingBlank (unquoted_mem _ _ _ member)
  rw [bracketed_text _ _ _ _ _ opening closes] at found ⊢
  exact list_extent _ _ _ _ noBracket found

/-- What the regular expression takes for an operand that the tokens start with. -/
theorem operand_extent (items : List Item) (tail word rest : Text) (length : Nat)
    (chain : Chain items tail) (shape : OperandTokens (items.map Item.raw) length)
    (found : operand (flattenItems (bare items) tail) = some (word, rest)) :
    Extent (flattenItems (bare (items.take length)) []) word := by
  generalize tokens : items.map Item.raw = toks at shape
  cases shape with
  | dotted first others identifier =>
      obtain ⟨item, behind, rfl, rfl, rfl⟩ := List.map_eq_cons_iff.mp tokens
      exact name_extent item behind tail word rest chain identifier found
  | literal first others quoted =>
      obtain ⟨item, behind, rfl, rfl, rfl⟩ := List.map_eq_cons_iff.mp tokens
      have whole : flattenItems (bare ((item :: behind).take 1)) [] = item.raw :=
        List.append_nil item.raw
      rw [whole]
      exact literal_extent item.raw _ word rest quoted found
  | list body others absent =>
      obtain ⟨item, fromBody, rfl, opening, behindOpening⟩ := List.map_eq_cons_iff.mp tokens
      obtain ⟨bodyItems, fromClosing, rfl, rfl, behindBody⟩ :=
        List.map_eq_append_iff.mp behindOpening
      obtain ⟨closing, behind, rfl, closes, rfl⟩ := List.map_eq_cons_iff.mp behindBody
      have taken : (item :: (bodyItems ++ closing :: behind)).take
          ((bodyItems.map Item.raw).length + 2) = item :: (bodyItems ++ [closing]) := by
        rw [List.length_map, List.take_succ_cons, List.take_append]
        simp
      rw [taken]
      refine bracketed_extent item closing bodyItems behind tail word rest chain opening closes ?_ found
      intro inner member equal
      exact absent (List.mem_map.mpr ⟨inner, member, equal⟩)

/-- A token is written as it stands only where no match starts in it. -/
theorem token_unmatched (mode : Mode) (front text expected : Text) (kept : strip mode front = front)
    (closed : mode.after front = .outside)
    (written : strip mode (rewriteText (front ++ text)) = front ++ expected) :
    (∀ offset < front.length, notInMatch ((front ++ text).drop offset) = none) ∧
      strip .outside (rewriteText text) = expected := by
  induction front generalizing mode with
  | nil =>
      obtain rfl : mode = .outside := closed
      exact ⟨fun offset bound => (Nat.not_lt_zero offset bound).elim, written⟩
  | cons symbol front induction =>
      have solid : ¬(mode = .outside ∧ isSpace symbol = true) := by
        intro dropped
        rw [strip, if_pos dropped] at kept
        have size := strip_length mode front
        rw [kept, List.length_cons] at size
        omega
      rw [List.cons_append] at written
      rcases missed : notInMatch (symbol :: (front ++ text)) with _ | ⟨left, right, after⟩
      · rw [rewrite_text_copies _ _ missed, strip_kept _ _ _ solid] at written
        rw [strip_kept _ _ _ solid] at kept
        obtain ⟨inner, behind⟩ := induction (mode.step symbol) (List.cons_eq_cons.mp kept).2 closed
          (List.cons_eq_cons.mp written).2
        refine ⟨fun offset bound => ?_, behind⟩
        cases offset with
        | zero => exact missed
        | succ offset => exact inner offset (Nat.lt_of_succ_lt_succ bound)
      · rw [rewrite_text_match _ _ _ _ missed] at written
        simp only [List.cons_append, List.append_assoc] at written
        rw [strip_kept _ _ _ fun dropped => absurd dropped.2 (by decide)] at written
        obtain rfl := (List.cons_eq_cons.mp written).1
        rw [not_in_match_starts '!' _ (by decide) (by decide) (by decide)] at missed
        cases missed

theorem inside_keeps (quote : Char) (symbol : Char) (rest : Text) :
    strip (.inside quote) (symbol :: rest) =
      symbol :: strip ((Mode.inside quote).step symbol) rest :=
  strip_kept _ _ _ fun dropped => by cases dropped.1

theorem inside_step (quote symbol : Char) (isQuote : isQuote quote = true)
    (plain : CelTokens.isQuote symbol = false) (solid : symbol ≠ '\\') :
    (Mode.inside quote).step symbol = .inside quote := by
  have other : symbol ≠ quote := by
    rintro rfl
    rw [isQuote] at plain
    cases plain
  rw [Mode.step, if_neg solid, if_neg other]

theorem space_not_backslash (symbol : Char) (space : isSpace symbol = true) : symbol ≠ '\\' := by
  rintro rfl
  revert space
  decide

/-- Inside a literal the written blank and `in` cannot stand for the blanks and
`not` of the text. -/
theorem inside_not_in (quote : Char) (missing gap behind after expected written : Text)
    (isQuote : isQuote quote = true) (closed : (Mode.inside quote).after missing = .outside)
    (filled : gap ≠ []) (blank : Blank gap) (text : gap ++ 'n' :: behind = missing ++ after)
    (equal : strip (.inside quote) (' ' :: 'i' :: written) =
      strip (.inside quote) missing ++ expected) : False := by
  obtain ⟨space, gap, rfl⟩ := List.exists_cons_of_ne_nil filled
  have isSpace := blank space List.mem_cons_self
  have stays := inside_step quote space isQuote (space_not_quote space isSpace)
    (space_not_backslash space isSpace)
  match missing with
  | [] => cases closed
  | [symbol] =>
      cases text
      rw [mode_after_cons, stays] at closed
      cases closed
  | symbol :: second :: missing =>
      obtain ⟨rfl, behindSpace⟩ := List.cons_eq_cons.mp text
      rw [inside_keeps, inside_keeps quote space, stays, inside_keeps,
        inside_step quote ' ' isQuote (by decide) (by decide), inside_keeps] at equal
      obtain rfl := (List.cons_eq_cons.mp (List.cons_eq_cons.mp equal).2).1
      match gap with
      | [] => cases (List.cons_eq_cons.mp behindSpace).1
      | next :: gap =>
          obtain rfl := (List.cons_eq_cons.mp behindSpace).1
          exact absurd (blank 'i' (by simp)) (by decide)

/-- What two texts share at the front can be cut off. -/
theorem strip_behind (front missing written expected : Text) (mode : Mode)
    (reached : Mode.outside.after front = mode)
    (equal : strip .outside (front ++ written) = strip .outside (front ++ missing) ++ expected) :
    strip mode written = strip mode missing ++ expected := by
  rw [strip_append, strip_append, reached, List.append_assoc, List.append_cancel_left_eq] at equal
  exact equal

theorem left_exact (whole word gap behind after expected written : Text) (extent : Extent whole word)
    (filled : gap ≠ []) (blank : Blank gap) (text : word ++ (gap ++ 'n' :: behind) = whole ++ after)
    (next : ∀ symbol ∈ after.head?, symbol ≠ '.') (closed : Mode.outside.after whole = .outside)
    (equal : strip .outside (word ++ ' ' :: 'i' :: written) = strip .outside whole ++ expected) :
    word = whole := by
  cases extent with
  | same equal => exact equal
  | inside missing quote isQuote short mode =>
      subst short
      rw [List.append_assoc, List.append_cancel_left_eq] at text
      have behindWord := strip_behind _ _ _ _ _ mode equal
      rw [mode_after_append, mode] at closed
      exact (inside_not_in quote missing gap behind after expected written isQuote closed filled blank
        text behindWord).elim
  | apart missing symbol rest short mode first other =>
      subst short
      rw [List.append_assoc, List.append_cancel_left_eq] at text
      have behindWord := strip_behind _ _ _ _ _ mode equal
      rw [first] at behindWord
      -- What is missing starts with the `n` of `not`, what is written with the `i` of `in`.
      have texts := congrArg (strip .outside) text
      rw [strip_blank_append _ _ blank, strip_append, first] at texts
      have n := (List.cons_eq_cons.mp texts).1
      have i := (List.cons_eq_cons.mp behindWord).1
      rw [← n] at i
      cases i
  | beyond more long =>
      subst long
      rw [List.append_assoc, List.append_cancel_left_eq] at text
      rw [← text] at next
      exact (next '.' rfl rfl).elim

/-- Inside a literal, a `)` written too early moves on for ever. -/
theorem inside_closing (quote : Char) (missing after expected : Text) (isQuote : isQuote quote = true)
    (closed : (Mode.inside quote).after missing = .outside)
    (equal : strip (.inside quote) (')' :: rewriteText (missing ++ after)) =
      strip (.inside quote) missing ++ expected) : False := by
  induction missing with
  | nil => cases closed
  | cons symbol missing induction =>
      have stays := inside_step quote ')' isQuote (by decide) (by decide)
      rw [inside_keeps, inside_keeps] at equal
      obtain ⟨rfl, equal⟩ := List.cons_eq_cons.mp equal
      rw [stays, List.cons_append, rewrite_text_copies] at equal
      · rw [mode_after_cons, stays] at closed
        exact induction closed equal
      · exact not_in_match_starts ')' _ (by decide) (by decide) (by decide)

theorem right_exact (whole word rest after expected : Text) (extent : Extent whole word)
    (text : word ++ rest = whole ++ after) (closed : Mode.outside.after whole = .outside)
    (equal : strip .outside (word ++ ')' :: rewriteText rest) =
      strip .outside whole ++ ')' :: expected) : word = whole := by
  cases extent with
  | same equal => exact equal
  | inside missing quote isQuote short mode =>
      subst short
      rw [List.append_assoc, List.append_cancel_left_eq] at text
      subst text
      have behindWord := strip_behind _ _ _ _ _ mode equal
      rw [mode_after_append, mode] at closed
      exact (inside_closing quote missing after _ isQuote closed behindWord).elim
  | apart missing symbol more short mode first other =>
      subst short
      have behindWord := strip_behind _ _ _ _ _ mode equal
      rw [first] at behindWord
      exact (other (List.cons_eq_cons.mp behindWord).1.symm).elim
  | beyond more long =>
      subst long
      rw [List.append_assoc, strip_append, closed, List.append_cancel_left_eq] at equal
      cases (List.cons_eq_cons.mp equal).1

theorem operand_first (toks : List Text) (length : Nat) (shape : OperandTokens toks length) :
    ∃ symbol body others, toks = (symbol :: body) :: others ∧ symbol ≠ '!' := by
  cases shape with
  | dotted word rest identifier =>
      obtain ⟨start, body, rfl, isStart, -⟩ := word_parts word (identifier_word word identifier)
      refine ⟨start, body, rest, rfl, ?_⟩
      rintro rfl
      cases isStart
  | literal word rest quoted =>
      obtain ⟨quote, body, rfl, isQuote, -⟩ := quoted_shape word quoted
      refine ⟨quote, body, rest, rfl, ?_⟩
      rintro rfl
      cases isQuote
  | list body rest absent => exact ⟨'[', [], _, rfl, by decide⟩

theorem operand_text_head (rest word : Text) (shape : OperandText rest word) :
    ∃ symbol body, word = symbol :: body ∧ isSpace symbol = false := by
  cases shape with
  | name symbol body start parts stops =>
      refine ⟨symbol, body, rfl, ?_⟩
      apply Bool.eq_false_iff.mpr
      intro space
      rw [(space_starts_nothing symbol space).2.2] at start
      cases start
  | list body absent => exact ⟨'[', _, rfl, by decide⟩
  | literal body absent => exact ⟨'"', _, rfl, by decide⟩

theorem flatten_bare_head (items : List Item) (tail : Text) (filled : items ≠ [])
    (chain : Chain items tail) :
    ∀ symbol ∈ (flattenItems (bare items) tail).head?, isSpace symbol = false := by
  match items with
  | [] => exact (filled rfl).elim
  | item :: items =>
      obtain ⟨first, body, spelled, solid⟩ := lexeme_head item.raw chain.2.1.lexeme
      intro symbol member
      change symbol ∈ (item.raw ++ flattenItems items tail).head? at member
      rw [spelled] at member
      cases member
      exact solid

section AtOccurrence

variable {items left right rest : List Item} {notItem inItem : Item} {tail : Text}

/-- The text of an occurrence, from its first token on. -/
theorem occurrence_text (here : Occurrence items left notItem inItem right rest) :
    flattenItems (bare items) tail =
      flattenItems (bare left) [] ++ (notItem.gap ++ (notWord ++ (inItem.gap ++ (inWord ++
        flattenItems (right ++ rest) tail)))) := by
  rw [here.spelled, bare_append _ _ (occurrence_left_filled here), flatten_items_append,
    flatten_items_tail (bare left)]
  simp only [flattenItems, here.notRaw, here.inRaw]

/-- Behind its left operand a match goes on as the tokens do, to the right operand. -/
theorem occurrence_middle (here : Occurrence items left notItem inItem right rest)
    (chain : Chain (notItem :: inItem :: (right ++ rest)) tail)
    (beforeNot beforeIn behindIn word after : Text) (notBlank : Blank beforeNot)
    (inBlank : Blank beforeIn) (wordBlank : Blank behindIn) (shape : OperandText after word)
    (text : beforeNot ++ (['n', 'o', 't'] ++ (beforeIn ++ (['i', 'n'] ++ (behindIn ++ (word ++ after))))) =
      notItem.gap ++ (notWord ++ (inItem.gap ++ (inWord ++ flattenItems (right ++ rest) tail)))) :
    flattenItems (bare (right ++ rest)) tail = word ++ after := by
  obtain ⟨notGap, -, inGap, -, rightChain⟩ := chain
  have filled : right ++ rest ≠ [] := by
    simp [occurrence_right_filled here]
  obtain ⟨first, others, equal⟩ := List.exists_cons_of_ne_nil filled
  obtain ⟨symbol, body, spelled, solid⟩ := operand_text_head after word shape
  have fromNot := blank_cancel _ _ _ _ notBlank notGap (by rintro _ ⟨⟩; decide)
    (by rintro _ ⟨⟩; decide) text
  have behindNot := List.append_cancel_left fromNot
  have fromIn := blank_cancel _ _ _ _ inBlank inGap (by rintro _ ⟨⟩; decide)
    (by rintro _ ⟨⟩; decide) behindNot
  have behind := List.append_cancel_left fromIn
  have wordSolid : ∀ symbol ∈ (word ++ after).head?, isSpace symbol = false := by
    rw [spelled]
    rintro _ ⟨⟩
    exact solid
  have gapped : flattenItems (right ++ rest) tail =
      first.gap ++ flattenItems (bare (right ++ rest)) tail := by
    rw [equal]
    rfl
  have firstBlank : Blank first.gap := by
    rw [equal] at rightChain
    exact rightChain.1
  rw [gapped] at behind
  exact (blank_cancel _ _ _ _ wordBlank firstBlank wordSolid
    (flatten_bare_head _ tail filled rightChain) behind).symm

/-- Where a match at an occurrence is written as the occurrence's replacement, its
operands are the occurrence's. -/
theorem match_exact (here : Occurrence items left notItem inItem right rest)
    (chain : Chain items tail) (leftWord rightWord after expected : Text)
    (found : notInMatch (flattenItems (bare items) tail) = some (leftWord, rightWord, after))
    (written : strip .outside (leftWord ++ ' ' :: 'i' :: 'n' :: ' ' ::
        (rightWord ++ ')' :: rewriteText after)) =
      strip .outside (flattenItems (bare left) []) ++ 'i' :: 'n' ::
        (strip .outside (flattenItems (bare right) []) ++ ')' :: expected)) :
    leftWord = flattenItems (bare left) [] ∧ rightWord = flattenItems (bare right) [] ∧
      after = flattenItems rest tail ∧ strip .outside (rewriteText after) = expected := by
  obtain ⟨leftChain, middleChain, behindChain, rightChain, restChain⟩ := occurrence_chains here chain
  obtain ⟨beforeNot, beforeIn, behindIn, spelled, ⟨notFilled, notBlank⟩, ⟨-, inBlank⟩,
    ⟨-, wordBlank⟩, ⟨_, leftFound⟩, rightFound⟩ := not_in_match_shape _ _ _ _ found
  have leftClosed := flatten_items_after (bare left) _ (chain_with_gap [] left _ blank_nil leftChain)
  have rightClosed :=
    flatten_items_after (bare right) _ (chain_with_gap [] right _ blank_nil rightChain)
  have leftExtent := operand_extent items tail _ _ _ chain here.leftOperand leftFound
  rw [occurrence_take here] at leftExtent
  have text := spelled.symm.trans (occurrence_text here)
  -- The left operand first: behind it stands `not`, never a dot.
  have leftSame : leftWord = flattenItems (bare left) [] := by
    refine left_exact _ _ _ _ _ _ _ leftExtent notFilled notBlank text ?_ leftClosed written
    have blank := middleChain.1
    match gap : notItem.gap with
    | [] =>
        rintro _ ⟨⟩
        decide
    | space :: more =>
        rintro _ ⟨⟩ rfl
        rw [gap] at blank
        cases blank '.' List.mem_cons_self
  subst leftSame
  have rightText := occurrence_middle here middleChain _ _ _ _ _ notBlank inBlank wordBlank
    (operand_shape _ _ _ rightFound).2 (List.append_cancel_left text)
  rw [strip_append, leftClosed, List.append_cancel_left_eq] at written
  have written := (List.cons_eq_cons.mp (List.cons_eq_cons.mp written).2).2
  change strip .outside (rightWord ++ ')' :: rewriteText after) = _ at written
  rw [← rightText] at rightFound
  have rightExtent := operand_extent (right ++ rest) tail _ _ _ behindChain here.rightOperand rightFound
  rw [List.take_left] at rightExtent
  have split : rightWord ++ after = flattenItems (bare right) [] ++ flattenItems rest tail := by
    rw [← rightText, bare_append _ _ (occurrence_right_filled here), flatten_items_append,
      flatten_items_tail (bare right)]
  have rightSame := right_exact _ _ _ _ _ rightExtent split rightClosed written
  subst rightSame
  obtain rfl := List.append_cancel_left split
  rw [strip_append, rightClosed, List.append_cancel_left_eq] at written
  exact ⟨rfl, rfl, rfl, (List.cons_eq_cons.mp written).2⟩

/-- Where an occurrence is written as its replacement, the match is the occurrence. -/
theorem occurrence_exact (here : Occurrence items left notItem inItem right rest)
    (chain : Chain items tail) (expected : Text)
    (written : strip .outside (rewriteText (flattenItems items tail)) =
      '!' :: '(' :: ((left.map Item.raw).flatten ++ 'i' :: 'n' ::
        ((right.map Item.raw).flatten ++ ')' :: expected))) :
    notInMatch (flattenItems (bare items) tail) =
        some (flattenItems (bare left) [], flattenItems (bare right) [], flattenItems rest tail) ∧
      strip .outside (rewriteText (flattenItems rest tail)) = expected := by
  obtain ⟨leftChain, -, -, rightChain, -⟩ := occurrence_chains here chain
  have leftStrip := strip_flatten_items (bare left) _ [] (chain_with_gap [] left _ blank_nil leftChain)
  have rightStrip :=
    strip_flatten_items (bare right) _ [] (chain_with_gap [] right _ blank_nil rightChain)
  rw [bare, with_gap_raw, strip, List.append_nil] at leftStrip rightStrip
  obtain ⟨symbol, body, raws, tokens, notBang⟩ := operand_first _ _ here.leftOperand
  obtain ⟨first, others, itemsEqual, firstRaw, -⟩ := List.map_eq_cons_iff.mp tokens
  obtain ⟨firstBlank, firstHere, -⟩ : Chain (first :: others) tail := itemsEqual ▸ chain
  have text : flattenItems items tail = first.gap ++ flattenItems (bare items) tail := by
    rw [itemsEqual]
    rfl
  have bareText : flattenItems (bare items) tail = symbol :: (body ++ flattenItems others tail) := by
    rw [itemsEqual]
    change first.raw ++ flattenItems others tail = _
    rw [firstRaw, List.cons_append]
  rw [text, rewrite_text_blank _ _ firstBlank, strip_blank_append _ _ firstBlank, ← leftStrip,
    ← rightStrip] at written
  rcases found : notInMatch (flattenItems (bare items) tail) with _ | ⟨leftWord, rightWord, after⟩
  · exfalso
    obtain ⟨_, _, equal, solid⟩ := lexeme_head first.raw firstHere.lexeme
    rw [firstRaw] at equal
    cases equal
    rw [bareText] at found written
    rw [rewrite_text_copies _ _ found, strip_kept _ _ _ (by simp [solid])] at written
    exact notBang (List.cons_eq_cons.mp written).1
  · rw [rewrite_text_match _ _ _ _ found] at written
    simp only [List.append_assoc, List.cons_append, List.nil_append] at written
    have behind := (List.cons_eq_cons.mp (List.cons_eq_cons.mp written).2).2
    obtain ⟨rfl, rfl, rfl, equal⟩ := match_exact here chain _ _ _ expected found behind
    exact ⟨rfl, equal⟩

end AtOccurrence

variable {constant : Text → Bool}

/-- Where the replaced tokens are what the written text is read as, the matches
are the occurrences. -/
theorem exact_aligned (fuel : Nat) (items : List Item) (tail : Text) (enough : items.length ≤ fuel)
    (chain : Chain items tail)
    (written : strip .outside (rewriteText (flattenItems items tail)) =
      (replaceLoop constant fuel (items.map Item.raw)).flatten) :
    alignedLoop constant fuel items tail = true := by
  induction fuel, items, enough using occurrence_induction constant with
  | nil fuel => cases fuel <;> rfl
  | token fuel item rest _ missed induction =>
      obtain ⟨blank, here, chain⟩ := chain
      rw [List.map_cons, replace_at_token fuel _ _ missed, flattenItems,
        rewrite_text_blank _ _ blank, strip_blank_append _ _ blank, List.flatten_cons] at written
      obtain ⟨unmatched, behind⟩ := token_unmatched .outside item.raw _ _
        (strip_lexeme _ here.lexeme) (lexeme_after _ here.lexeme) written
      exact (aligned_at_token fuel item rest tail missed).mpr ⟨unmatched, induction chain behind⟩
  | occurs fuel items left notItem inItem right rest _ _ here found induction =>
      obtain ⟨-, -, -, -, restChain⟩ := occurrence_chains here chain
      rw [replace_at_occurrence here fuel found] at written
      simp only [List.flatten_append, List.flatten_cons, inWord, List.append_assoc,
        List.cons_append, List.nil_append] at written
      obtain ⟨matched, behind⟩ := occurrence_exact here chain _ written
      exact (aligned_at_occurrence here fuel tail found).mpr ⟨matched, induction restChain behind⟩

/-- Without the words `not in` among the tokens, aligned matches are none. -/
theorem aligned_unchanged (fuel : Nat) (items : List Item) (tail : Text)
    (enough : items.length ≤ fuel) (chain : Chain items tail) (blank : Blank tail)
    (absent : ¬ [notWord, inWord] <:+: items.map Item.raw)
    (aligned : alignedLoop constant fuel items tail = true) :
    rewriteText (flattenItems items tail) = flattenItems items tail := by
  induction fuel, items, enough using occurrence_induction constant with
  | nil fuel => exact rewrite_text_tail tail blank
  | token fuel item rest _ missed induction =>
      obtain ⟨unmatched, aligned⟩ := (aligned_at_token fuel item rest tail missed).mp aligned
      have restAbsent : ¬ [notWord, inWord] <:+: rest.map Item.raw := fun infixed =>
        absent (infixed.trans (List.suffix_cons _ _).isInfix)
      rw [flattenItems, rewrite_text_blank _ _ chain.1, rewrite_text_unmatched _ _ unmatched,
        induction chain.2.2 restAbsent aligned]
  | occurs fuel items left notItem inItem right rest _ _ here found induction =>
      refine (absent ⟨left.map Item.raw, (right ++ rest).map Item.raw, ?_⟩).elim
      rw [here.spelled]
      simp [here.notRaw, here.inRaw]

theorem replace_keeps_literals (fuel : Nat) (items : List Item) (enough : items.length ≤ fuel) :
    (replaceLoop constant fuel (items.map Item.raw)).filter isQuoted =
      (items.map Item.raw).filter isQuoted := by
  induction fuel, items, enough using occurrence_induction constant with
  | nil fuel => cases fuel <;> rfl
  | token fuel item rest _ missed induction =>
      rw [List.map_cons, replace_at_token fuel _ _ missed, List.filter_cons, List.filter_cons,
        induction]
  | occurs fuel items left notItem inItem right rest _ _ here found induction =>
      rw [replace_at_occurrence here fuel found, here.spelled]
      have written : [['!'], ['(']].filter isQuoted = [] ∧ [inWord].filter isQuoted = [] ∧
        [[')']].filter isQuoted = [] := by decide
      have words : ∀ raws : List Text,
          (notWord :: inWord :: raws).filter isQuoted = raws.filter isQuoted := fun raws => by
        rw [List.filter_cons_of_neg (by decide), List.filter_cons_of_neg (by decide)]
      rw [List.map_append, List.map_cons, List.map_cons, here.notRaw, here.inRaw, List.map_append]
      simp only [List.filter_append, written, words, induction, List.nil_append, List.append_assoc]

/-- What the rewrite is to give for an expression read as `toks`. -/
structure RewriteExact (constant : Text → Bool) (expr : String) (toks : List Text) : Prop where
  replaced : tokens (rewriteNotIn expr).toList = some (replaceNotIn constant toks)
  literals : ∀ written, tokens (rewriteNotIn expr).toList = some written →
    written.filter isQuoted = toks.filter isQuoted
  unchanged : ¬ [notWord, inWord] <:+: toks → rewriteNotIn expr = expr

theorem tokens_read (text : Text) (toks : List Text) (read : tokens text = some toks) :
    ∃ items tail, lex text = some (items, tail) ∧ toks = items.map Item.raw := by
  simp only [tokens, Option.map_eq_some_iff, Prod.exists] at read
  obtain ⟨items, tail, lexed, equal⟩ := read
  exact ⟨items, tail, lexed, equal.symm⟩

/-- The rewrite replaces each operand `not in` operand and changes nothing else
exactly where the phrases in the text are these occurrences. -/
theorem rewrite_exact_iff (constant : Text → Bool) (expr : String) (toks : List Text)
    (read : tokens expr.toList = some toks) :
    RewriteExact constant expr toks ↔ PhrasesAligned constant expr.toList := by
  obtain ⟨items, tail, lexed, rfl⟩ := tokens_read expr.toList toks read
  obtain ⟨spelled, chain, blank⟩ := (lex_iff _ _ _).mp lexed
  have condition : matchesAligned constant expr.toList =
      alignedLoop constant items.length items tail := by
    rw [matchesAligned, lexed]
  have written : (rewriteNotIn expr).toList = rewriteText (flattenItems items tail) := by
    rw [rewrite_not_in_text, spelled]
  rw [phrases_aligned_iff, condition]
  constructor
  · intro kept
    have replaced := kept.replaced
    rw [written, replaceNotIn, List.length_map] at replaced
    obtain ⟨writtenItems, writtenTail, writtenLexed, equal⟩ := tokens_read _ _ replaced
    obtain ⟨writtenSpelled, writtenChain, writtenBlank⟩ := (lex_iff _ _ _).mp writtenLexed
    refine exact_aligned items.length items tail (Nat.le_refl _) chain ?_
    rw [equal, writtenSpelled, strip_flatten_items _ _ _ writtenChain, strip_blank _ writtenBlank,
      List.append_nil]
  · intro aligned
    obtain ⟨writtenItems, writtenChain, equal, raws, -⟩ :=
      aligned_rewrite items.length items tail (Nat.le_refl _) chain blank aligned
    have replaced : tokens (rewriteNotIn expr).toList =
        some (replaceNotIn constant (items.map Item.raw)) := by
      rw [written, tokens, (lex_iff _ _ _).mpr ⟨equal.symm, writtenChain, blank⟩, Option.map_some,
        raws, replaceNotIn, List.length_map]
    refine ⟨replaced, fun other found => ?_, fun absent => ?_⟩
    · obtain rfl := Option.some.inj (replaced.symm.trans found)
      rw [replaceNotIn, replace_keeps_literals _ _ (Nat.le_of_eq (List.length_map Item.raw).symm)]
    · rw [← String.toList_inj, written, spelled]
      exact aligned_unchanged items.length items tail (Nat.le_refl _) chain blank absent aligned

theorem rewrite_exact_iff_pod_list :
    RewriteExact (fun _ => false) "ko_pod not in [\"a\", \"b\"] && ko_rtt_us > 5"
      (["ko_pod", "not", "in", "[", "\"a\"", ",", "\"b\"", "]", "&&", "ko_rtt_us", ">", "5"].map
        String.toList) :=
  (rewrite_exact_iff _ _ _ (by decide +kernel)).mpr (by decide +kernel)

/-- A string literal that holds the words is no `not in`, and yet is rewritten. -/
theorem literal_text_rewritten :
    tokens "ko_pod == \"a not in b\"".toList =
        some (["ko_pod", "==", "\"a not in b\""].map String.toList) ∧
      rewriteNotIn "ko_pod == \"a not in b\"" = "ko_pod == \"!(a in b)\"" ∧
      ¬ RewriteExact (fun _ => false) "ko_pod == \"a not in b\""
        (["ko_pod", "==", "\"a not in b\""].map String.toList) := by
  have rewritten : rewriteNotIn "ko_pod == \"a not in b\"" = "ko_pod == \"!(a in b)\"" := by
    decide +kernel
  refine ⟨by decide +kernel, rewritten, fun exactly => ?_⟩
  have kept := exactly.unchanged (by decide +kernel)
  rw [rewritten] at kept
  revert kept
  decide

end KoAgent.RewriteExactness
