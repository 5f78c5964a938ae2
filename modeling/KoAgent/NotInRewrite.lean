import Mathlib.Data.List.TakeWhile
import KoAgent.NumeralText

/-!
# The `not in` rewrite of `pkg/filter/env.go`

`notInRe` matches an operand, the words `not` and `in` with white space around
them, and a second operand. Its three operand alternatives start with different
characters and each repetition is followed by a character outside its class, so
the leftmost greedy match of the regular expression is the deterministic scan
below; `ReplaceAllString` repeats it from the left without overlaps.
-/

namespace KoAgent.NotInRewrite

open KoAgent.NumeralText

set_option autoImplicit false

def isIdentStart (symbol : Char) : Bool :=
  ('A' ≤ symbol && symbol ≤ 'Z') || ('a' ≤ symbol && symbol ≤ 'z') || symbol == '_'

def isIdentPart (symbol : Char) : Bool :=
  isIdentStart symbol || ('0' ≤ symbol && symbol ≤ '9') || symbol == '.'

/-- `\s` of the regular expression syntax. -/
def isSpace (symbol : Char) : Bool := symbol ∈ [' ', '\t', '\n', '\r', '\x0c']

def operand : Text → Option (Text × Text)
  | [] => none
  | '[' :: rest => (cutFirst ']' rest).map fun parts => ('[' :: parts.1 ++ [']'], parts.2)
  | '"' :: rest => (cutFirst '"' rest).map fun parts => ('"' :: parts.1 ++ ['"'], parts.2)
  | symbol :: rest =>
      if isIdentStart symbol then
        some (symbol :: rest.takeWhile isIdentPart, rest.dropWhile isIdentPart)
      else none

def spaces : Text → Option Text
  | [] => none
  | symbol :: rest => if isSpace symbol then some (rest.dropWhile isSpace) else none

def keyword (word text : Text) : Option Text :=
  if word.isPrefixOf text then some (text.drop word.length) else none

/-- Both operands of a match at the front of the text, and what follows it. -/
def notInMatch (text : Text) : Option (Text × Text × Text) := do
  let (left, afterLeft) ← operand text
  let afterNot ← (spaces afterLeft).bind (keyword ['n', 'o', 't'])
  let afterIn ← (spaces afterNot).bind (keyword ['i', 'n'])
  let (right, rest) ← (spaces afterIn).bind operand
  some (left, right, rest)

def rewriteLoop : Nat → Text → Text
  | 0, text => text
  | _ + 1, [] => []
  | fuel + 1, symbol :: rest =>
      match notInMatch (symbol :: rest) with
      | some (left, right, after) =>
          ['!', '('] ++ left ++ [' ', 'i', 'n', ' '] ++ right ++ [')'] ++ rewriteLoop fuel after
      | none => symbol :: rewriteLoop fuel rest

/-- A step consumes at least one character, so the length is enough fuel. -/
def rewriteNotIn (expr : String) : String :=
  String.ofList (rewriteLoop expr.toList.length expr.toList)

example : rewriteNotIn "ko_pod not in [\"a\", \"b\"] && ko_rtt_us > 5" =
    "!(ko_pod in [\"a\", \"b\"]) && ko_rtt_us > 5" := by decide

def Blank (gap : Text) : Prop := ∀ symbol ∈ gap, isSpace symbol = true

theorem cut_first_shape (separator : Char) (text before after : Text)
    (cut : cutFirst separator text = some (before, after)) :
    text = before ++ separator :: after ∧ separator ∉ before := by
  induction text generalizing before with
  | nil => cases cut
  | cons symbol rest induction =>
      rw [cutFirst] at cut
      split at cut
      · rename_i same
        cases cut
        exact ⟨by rw [same]; rfl, List.not_mem_nil⟩
      · rename_i other
        simp only [Option.map_eq_some_iff, Prod.exists, Prod.mk.injEq] at cut
        obtain ⟨front, _, inner, rfl, rfl⟩ := cut
        obtain ⟨rfl, absent⟩ := induction front inner
        refine ⟨rfl, fun member => ?_⟩
        rcases List.mem_cons.mp member with same | member
        · exact other same.symm
        · exact absent member

/-- The operand alternatives of the regular expression, in its order, in front of `rest`.
A name is taken as far as it goes. -/
inductive OperandText (rest : Text) : Text → Prop where
  | name (symbol : Char) (body : Text) (start : isIdentStart symbol = true)
      (parts : ∀ part ∈ body, isIdentPart part = true)
      (stops : ∀ next ∈ rest.head?, isIdentPart next = false) : OperandText rest (symbol :: body)
  | list (body : Text) (absent : ']' ∉ body) : OperandText rest ('[' :: body ++ [']'])
  | literal (body : Text) (absent : '"' ∉ body) : OperandText rest ('"' :: body ++ ['"'])

/-- A match of `notInRe` at the front of a text, read off the regular expression:
two operands, the words between them and `after` behind them. -/
inductive Phrase (left right after : Text) : Text → Prop where
  | spelled (beforeNot beforeIn behindIn : Text)
      (notApart : beforeNot ≠ [] ∧ Blank beforeNot) (inApart : beforeIn ≠ [] ∧ Blank beforeIn)
      (rightApart : behindIn ≠ [] ∧ Blank behindIn)
      (leftOperand : OperandText beforeNot left) (rightOperand : OperandText after right) :
      Phrase left right after (left ++ (beforeNot ++ (['n', 'o', 't'] ++ (beforeIn ++
        (['i', 'n'] ++ (behindIn ++ (right ++ after)))))))

theorem operand_shape (text word rest : Text) (found : operand text = some (word, rest)) :
    text = word ++ rest ∧ OperandText rest word := by
  unfold operand at found
  split at found
  · cases found
  · simp only [Option.map_eq_some_iff, Prod.exists, Prod.mk.injEq] at found
    obtain ⟨body, _, cut, rfl, rfl⟩ := found
    obtain ⟨rfl, absent⟩ := cut_first_shape _ _ _ _ cut
    exact ⟨by simp, .list body absent⟩
  · simp only [Option.map_eq_some_iff, Prod.exists, Prod.mk.injEq] at found
    obtain ⟨body, _, cut, rfl, rfl⟩ := found
    obtain ⟨rfl, absent⟩ := cut_first_shape _ _ _ _ cut
    exact ⟨by simp, .literal body absent⟩
  · rename_i symbol rest _ _
    split at found
    · rename_i start
      cases found
      refine ⟨by simp, .name symbol _ start (fun part member => List.mem_takeWhile_imp member) ?_⟩
      intro next first
      have stopped := List.head?_dropWhile_not isIdentPart rest
      rw [Option.mem_def.mp first] at stopped
      simpa using stopped
    · cases found

theorem operand_name (symbol : Char) (rest : Text) (start : isIdentStart symbol = true) :
    operand (symbol :: rest) =
      some (symbol :: rest.takeWhile isIdentPart, rest.dropWhile isIdentPart) := by
  unfold operand
  split
  · rename_i equal
    cases equal
  · rename_i equal
    cases equal
    cases start
  · rename_i equal
    cases equal
    cases start
  · rename_i equal
    cases equal
    rw [if_pos start]

theorem spaces_shape (text rest : Text) (found : spaces text = some rest) :
    ∃ gap, text = gap ++ rest ∧ gap ≠ [] ∧ Blank gap ∧
      ∀ next ∈ rest.head?, isSpace next = false := by
  match text with
  | [] => cases found
  | symbol :: body =>
      rw [spaces] at found
      split at found
      · rename_i space
        cases found
        refine ⟨symbol :: body.takeWhile isSpace, by simp, List.cons_ne_nil _ _, ?_, ?_⟩
        · intro part member
          rcases List.mem_cons.mp member with rfl | member
          · exact space
          · exact List.mem_takeWhile_imp member
        · intro next first
          have stopped := List.head?_dropWhile_not isSpace body
          rw [Option.mem_def.mp first] at stopped
          simpa using stopped
      · cases found

theorem keyword_shape (word text rest : Text) (found : keyword word text = some rest) :
    text = word ++ rest := by
  rw [keyword] at found
  split at found
  · rename_i isPrefix
    cases found
    obtain ⟨after, rfl⟩ := List.isPrefixOf_iff_prefix.mp isPrefix
    rw [List.drop_left]
  · cases found

/-- A match spells out its operands and the two words between them. -/
theorem not_in_match_shape (text left right after : Text)
    (found : notInMatch text = some (left, right, after)) :
    ∃ beforeNot beforeIn behindIn,
      text = left ++ (beforeNot ++ (['n', 'o', 't'] ++ (beforeIn ++ (['i', 'n'] ++
        (behindIn ++ (right ++ after)))))) ∧
      (beforeNot ≠ [] ∧ Blank beforeNot) ∧ (beforeIn ≠ [] ∧ Blank beforeIn) ∧
      (behindIn ≠ [] ∧ Blank behindIn) ∧
      (∃ behind, operand text = some (left, behind)) ∧
      operand (right ++ after) = some (right, after) := by
  simp only [notInMatch, Option.bind_eq_bind, Option.bind_eq_some_iff, Prod.exists,
    Option.some.injEq, Prod.mk.injEq] at found
  obtain ⟨_, afterLeft, leftFound, afterNot, ⟨_, firstSpaces, notFound⟩, afterIn,
    ⟨_, secondSpaces, inFound⟩, _, _, ⟨_, thirdSpaces, rightFound⟩, rfl, rfl, rfl⟩ := found
  obtain ⟨first, rfl, firstFilled, firstBlank, -⟩ := spaces_shape _ _ firstSpaces
  obtain rfl := keyword_shape _ _ _ notFound
  obtain ⟨second, rfl, secondFilled, secondBlank, -⟩ := spaces_shape _ _ secondSpaces
  obtain rfl := keyword_shape _ _ _ inFound
  obtain ⟨third, rfl, thirdFilled, thirdBlank, -⟩ := spaces_shape _ _ thirdSpaces
  have rightShape := (operand_shape _ _ _ rightFound).1
  subst rightShape
  obtain ⟨rfl, -⟩ := operand_shape _ _ _ leftFound
  exact ⟨first, second, third, rfl, ⟨firstFilled, firstBlank⟩, ⟨secondFilled, secondBlank⟩,
    ⟨thirdFilled, thirdBlank⟩, ⟨_, leftFound⟩, rightFound⟩

theorem of_space (symbol : Char) (space : isSpace symbol = true) (holds : Char → Prop)
    [DecidablePred holds]
    (all : ([' ', '\t', '\n', '\r', '\x0c'].all fun symbol => decide (holds symbol)) = true) :
    holds symbol :=
  each_symbol _ holds all symbol (of_decide_eq_true space)

theorem space_starts_nothing (symbol : Char) (space : isSpace symbol = true) :
    symbol ≠ '[' ∧ symbol ≠ '"' ∧ isIdentStart symbol = false := by
  exact of_space symbol space
    (fun symbol => symbol ≠ '[' ∧ symbol ≠ '"' ∧ isIdentStart symbol = false) (by decide)

theorem operand_text_stops (front rest word : Text) (shape : OperandText front word)
    (stops : ∀ next ∈ rest.head?, isIdentPart next = false) : OperandText rest word := by
  cases shape with
  | name symbol body start parts _ => exact .name symbol body start parts stops
  | list body absent => exact .list body absent
  | literal body absent => exact .literal body absent

/-- White space ends a name, whatever is behind it. -/
theorem blank_stops (gap text : Text) (apart : gap ≠ [] ∧ Blank gap) :
    ∀ next ∈ (gap ++ text).head?, isIdentPart next = false := by
  obtain ⟨filled, blank⟩ := apart
  obtain ⟨symbol, body, rfl⟩ := List.exists_cons_of_ne_nil filled
  intro next first
  cases first
  exact of_space symbol (blank symbol List.mem_cons_self)
    (fun symbol => isIdentPart symbol = false) (by decide)

theorem take_while_stops (holds : Char → Bool) (body rest : Text)
    (all : ∀ part ∈ body, holds part = true) (stops : ∀ next ∈ rest.head?, holds next = false) :
    (body ++ rest).takeWhile holds = body ∧ (body ++ rest).dropWhile holds = rest := by
  rw [List.takeWhile_append_of_pos all, List.dropWhile_append_of_pos all]
  match rest with
  | [] => simp
  | next :: rest =>
      simp [stops next rfl]

theorem operand_found (word rest : Text) (shape : OperandText rest word) :
    operand (word ++ rest) = some (word, rest) := by
  cases shape with
  | name symbol body start parts stops =>
      obtain ⟨taken, left⟩ := take_while_stops isIdentPart body rest parts stops
      rw [List.cons_append, operand_name _ _ start, taken, left]
  | list body absent =>
      have cut := cut_first_append ']' body rest absent
      simp only [List.cons_append, List.append_assoc, List.nil_append]
      rw [operand, cut]
      rfl
  | literal body absent =>
      have cut := cut_first_append '"' body rest absent
      simp only [List.cons_append, List.append_assoc, List.nil_append]
      rw [operand, cut]
      rfl

theorem spaces_found (gap rest : Text) (apart : gap ≠ [] ∧ Blank gap)
    (stops : ∀ next ∈ rest.head?, isSpace next = false) : spaces (gap ++ rest) = some rest := by
  obtain ⟨filled, blank⟩ := apart
  obtain ⟨symbol, body, rfl⟩ := List.exists_cons_of_ne_nil filled
  obtain ⟨-, left⟩ := take_while_stops isSpace body rest
    (fun part member => blank part (List.mem_cons_of_mem symbol member)) stops
  rw [List.cons_append, spaces, if_pos (blank symbol List.mem_cons_self), left]

theorem keyword_found (word rest : Text) : keyword word (word ++ rest) = some rest := by
  have isPrefix : word.isPrefixOf (word ++ rest) = true :=
    List.isPrefixOf_iff_prefix.mpr (List.prefix_append word rest)
  rw [keyword, if_pos isPrefix, List.drop_left]

theorem solid_starts (symbol : Char) (text : Text) (solid : isSpace symbol = false) :
    ∀ next ∈ (symbol :: text).head?, isSpace next = false := by
  intro next first
  cases first
  exact solid

theorem operand_text_starts (rest word : Text) (shape : OperandText rest word) (after : Text) :
    ∀ next ∈ (word ++ after).head?, isSpace next = false := by
  intro next first
  cases space : isSpace next with
  | false => rfl
  | true =>
      obtain ⟨list, literal, name⟩ := space_starts_nothing next space
      cases shape with
      | name symbol body start parts stops =>
          cases first
          rw [start] at name
          cases name
      | list body absent => exact (list (Option.some.inj first).symm).elim
      | literal body absent => exact (literal (Option.some.inj first).symm).elim

/-- The scan finds the matches of the regular expression and no others. -/
theorem not_in_match_iff (text left right after : Text) :
    notInMatch text = some (left, right, after) ↔ Phrase left right after text := by
  constructor
  · intro found
    obtain ⟨beforeNot, beforeIn, behindIn, spelled, notApart, inApart, rightApart,
      ⟨behind, leftFound⟩, rightFound⟩ := not_in_match_shape text left right after found
    have leftShape := operand_shape _ _ _ leftFound
    have rightShape := (operand_shape _ _ _ rightFound).2
    rw [leftShape.1] at spelled
    obtain rfl := List.append_cancel_left spelled
    rw [leftShape.1]
    refine .spelled beforeNot beforeIn behindIn notApart inApart rightApart ?_ rightShape
    have stops := blank_stops beforeNot [] notApart
    rw [List.append_nil] at stops
    exact operand_text_stops _ _ _ leftShape.2 stops
  · intro phrase
    cases phrase with
    | spelled beforeNot beforeIn behindIn notApart inApart rightApart leftOperand rightOperand =>
        have leftFound := operand_found left (beforeNot ++ (['n', 'o', 't'] ++ (beforeIn ++
          (['i', 'n'] ++ (behindIn ++ (right ++ after))))))
          (operand_text_stops _ _ _ leftOperand (blank_stops _ _ notApart))
        have notSpaces := spaces_found beforeNot (['n', 'o', 't'] ++ (beforeIn ++
          (['i', 'n'] ++ (behindIn ++ (right ++ after))))) notApart
          (solid_starts 'n' _ (by decide))
        have inSpaces := spaces_found beforeIn (['i', 'n'] ++ (behindIn ++ (right ++ after)))
          inApart (solid_starts 'i' _ (by decide))
        have rightSpaces := spaces_found behindIn (right ++ after) rightApart
          (operand_text_starts _ _ rightOperand after)
        have rightFound := operand_found right after rightOperand
        simp only [notInMatch, leftFound, notSpaces, keyword_found, inSpaces, rightSpaces,
          rightFound, Option.bind_eq_bind, Option.bind_some]

theorem not_in_match_none_iff (text : Text) :
    notInMatch text = none ↔ ∀ left right after, ¬ Phrase left right after text := by
  rw [Option.eq_none_iff_forall_ne_some]
  constructor
  · intro missed left right after phrase
    exact missed _ ((not_in_match_iff _ _ _ _).mpr phrase)
  · intro absent parts found
    exact absent _ _ _ ((not_in_match_iff _ _ _ _).mp found)

theorem not_in_match_shorter (text left right after : Text)
    (found : notInMatch text = some (left, right, after)) : after.length < text.length := by
  obtain ⟨_, _, _, rfl, -⟩ := not_in_match_shape text left right after found
  simp only [List.length_append, List.length_cons]
  omega

theorem rewrite_loop_fuel (fuel other : Nat) (text : Text) (enough : text.length ≤ fuel)
    (otherEnough : text.length ≤ other) : rewriteLoop fuel text = rewriteLoop other text := by
  induction fuel generalizing other text with
  | zero =>
      obtain rfl := List.length_eq_zero_iff.mp (Nat.le_zero.mp enough)
      cases other <;> rfl
  | succ fuel induction =>
      match other, text with
      | 0, [] => rfl
      | other + 1, [] => rfl
      | other + 1, symbol :: rest =>
          rw [rewriteLoop, rewriteLoop]
          rw [List.length_cons] at enough otherEnough
          split
          · rename_i left right after found
            have shorter := not_in_match_shorter _ _ _ _ found
            rw [List.length_cons] at shorter
            rw [induction other after (by omega) (by omega)]
          · rw [induction other rest (by omega) (by omega)]

def rewriteText (text : Text) : Text := rewriteLoop text.length text

theorem rewrite_not_in_text (expr : String) : (rewriteNotIn expr).toList = rewriteText expr.toList := by
  rw [rewriteNotIn, String.toList_ofList, rewriteText]

theorem rewrite_text_match (text left right after : Text)
    (found : notInMatch text = some (left, right, after)) :
    rewriteText text =
      ['!', '('] ++ left ++ [' ', 'i', 'n', ' '] ++ right ++ [')'] ++ rewriteText after := by
  have shorter := not_in_match_shorter text left right after found
  match text with
  | [] => cases shorter
  | symbol :: rest =>
      rw [rewriteText, List.length_cons, rewriteLoop, found]
      dsimp only
      rw [rewrite_loop_fuel rest.length after.length after (Nat.le_of_lt_succ shorter) (Nat.le_refl _),
        rewriteText]

theorem rewrite_text_copies (symbol : Char) (rest : Text)
    (missed : notInMatch (symbol :: rest) = none) :
    rewriteText (symbol :: rest) = symbol :: rewriteText rest := by
  rw [rewriteText, List.length_cons, rewriteLoop, missed, rewriteText]

/-- No operand starts with the symbol, so no match does. -/
theorem not_in_match_starts (symbol : Char) (rest : Text) (list : symbol ≠ '[')
    (literal : symbol ≠ '"') (name : isIdentStart symbol = false) :
    notInMatch (symbol :: rest) = none := by
  have missed : operand (symbol :: rest) = none := by
    unfold operand
    split
    · rfl
    · rename_i equal
      cases equal
      exact (list rfl).elim
    · rename_i equal
      cases equal
      exact (literal rfl).elim
    · rename_i equal
      cases equal
      rw [name]
      rfl
  rw [notInMatch, missed]
  rfl

theorem rewrite_text_blank (gap text : Text) (blank : Blank gap) :
    rewriteText (gap ++ text) = gap ++ rewriteText text := by
  induction gap with
  | nil => rfl
  | cons symbol gap induction =>
      obtain ⟨list, literal, name⟩ := space_starts_nothing symbol (blank symbol List.mem_cons_self)
      rw [List.cons_append, rewrite_text_copies _ _ (not_in_match_starts _ _ list literal name),
        induction fun part member => blank part (List.mem_cons_of_mem symbol member)]
      rfl

theorem rewrite_text_tail (tail : Text) (blank : Blank tail) : rewriteText tail = tail := by
  have copied := rewrite_text_blank tail [] blank
  rw [List.append_nil] at copied
  rw [copied]
  exact List.append_nil tail

theorem rewrite_text_unmatched (front text : Text)
    (missed : ∀ offset < front.length, notInMatch ((front ++ text).drop offset) = none) :
    rewriteText (front ++ text) = front ++ rewriteText text := by
  induction front with
  | nil => rfl
  | cons symbol front induction =>
      have here : notInMatch (symbol :: (front ++ text)) = none := missed 0 (Nat.succ_pos _)
      rw [List.cons_append, rewrite_text_copies symbol _ here, induction]
      · rfl
      · intro offset bound
        exact missed (offset + 1) (Nat.succ_lt_succ bound)

end KoAgent.NotInRewrite
