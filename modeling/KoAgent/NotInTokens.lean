import KoAgent.CelTokens

/-!
# The `not in` rewrite over tokens

What the rewrite is for, stated over the tokens of an expression: each operand
`not in` operand becomes `!(operand in operand)`. The regular expression reads
characters instead, and the two agree exactly where the phrases it matches are
the occurrences over tokens.
-/

namespace KoAgent.NotInTokens

open KoAgent.NumeralText KoAgent.NotInRewrite KoAgent.CelTokens

set_option autoImplicit false

def notWord : Text := ['n', 'o', 't']

def inWord : Text := ['i', 'n']

def constantWords : List Text :=
  [['t', 'r', 'u', 'e'], ['f', 'a', 'l', 's', 'e'], ['n', 'u', 'l', 'l']]

def isIdentifier (word : Text) : Bool :=
  isWord word && word != inWord && !constantWords.contains word

/-- The tokens of a dotted identifier behind its first word. -/
def dottedLength : List Text → Nat
  | dot :: word :: rest => if dot = ['.'] ∧ isIdentifier word = true then dottedLength rest + 2 else 0
  | _ => 0

inductive Expected where
  | literal
  | number
  | comma
  deriving DecidableEq

section Occurrences

-- The words that name a constant and so may stand among the literals of a list.
variable (constant : Text → Bool)

def isLiteral (word : Text) : Bool :=
  isNumber word || isQuoted word || constantWords.contains word || constant word

def Expected.accept : Expected → Text → Option Expected
  | .literal, word =>
      if word = ['-'] then some .number else if isLiteral constant word then some .comma else none
  | .number, word => if isNumber word then some .comma else none
  | .comma, word => if word = [','] then some .literal else none

/-- The tokens of a list of literals behind its opening bracket. -/
def listLength : Expected → List Text → Option Nat
  | _, [] => none
  | expected, word :: rest =>
      if word = [']'] ∧ expected ≠ .number then some 1
      else (expected.accept constant word).bind fun next => (listLength next rest).map (· + 1)

def operandLength : List Text → Option Nat
  | [] => none
  | word :: rest =>
      if isIdentifier word then some (dottedLength rest + 1)
      else if isQuoted word then some 1
      else if word = ['['] then (listLength constant .literal rest).map (· + 1)
      else none

/-- The lengths of both operands, where the tokens start with an operand, `not in`
and a second operand. -/
def occurrence (toks : List Text) : Option (Nat × Nat) := do
  let left ← operandLength constant toks
  if (toks.drop left).take 2 = [notWord, inWord] then do
    let right ← operandLength constant (toks.drop (left + 2))
    some (left, right)
  else none

def replaceLoop : Nat → List Text → List Text
  | 0, toks => toks
  | fuel + 1, toks =>
      match occurrence constant toks with
      | some (left, right) =>
          [['!'], ['(']] ++ toks.take left ++ [inWord] ++ (toks.drop (left + 2)).take right ++
            [[')']] ++ replaceLoop fuel (toks.drop (left + 2 + right))
      | none =>
          match toks with
          | [] => []
          | word :: rest => word :: replaceLoop fuel rest

/-- The tokens with each occurrence of operand `not in` operand replaced, from the left. -/
def replaceNotIn (toks : List Text) : List Text := replaceLoop constant toks.length toks

/-- The items with other white space in front of the first of them. -/
def withGap (gap : Text) : List Item → List Item
  | [] => []
  | item :: items => { item with gap := gap } :: items

def bare (items : List Item) : List Item := withGap [] items

/-- Decides `Aligned`, below, with the scan for a match. -/
def alignedLoop : Nat → List Item → Text → Bool
  | 0, _, _ => true
  | fuel + 1, items, tail =>
      match occurrence constant (items.map Item.raw) with
      | some (left, right) =>
          notInMatch (flattenItems (bare items) tail) ==
              some (flattenItems (bare (items.take left)) [],
                flattenItems (bare ((items.drop (left + 2)).take right)) [],
                flattenItems (items.drop (left + 2 + right)) tail) &&
            alignedLoop fuel (items.drop (left + 2 + right)) tail
      | none =>
          match items with
          | [] => true
          | item :: rest =>
              (List.range item.raw.length).all (fun offset =>
                  (notInMatch ((item.raw ++ flattenItems rest tail).drop offset)).isNone) &&
                alignedLoop fuel rest tail

def matchesAligned (text : Text) : Bool :=
  match lex text with
  | some (items, tail) => alignedLoop constant items.length items tail
  | none => false

variable {constant}

theorem dotted_length_bound (toks : List Text) : dottedLength toks ≤ toks.length := by
  fun_induction dottedLength toks with
  | case1 dot word rest dotted induction =>
      simp only [List.length_cons]
      omega
  | case2 => exact Nat.zero_le _
  | case3 => exact Nat.zero_le _

theorem accept_not_bracket (expected next : Expected) (word : Text)
    (unclosed : ¬(word = [']'] ∧ expected ≠ .number))
    (accepted : expected.accept constant word = some next) : word ≠ [']'] := by
  rintro rfl
  cases expected with
  | literal => exact unclosed ⟨rfl, by decide⟩
  | number => cases accepted
  | comma => exact unclosed ⟨rfl, by decide⟩

theorem list_length_shape (expected : Expected) (toks : List Text) (length : Nat)
    (found : listLength constant expected toks = some length) :
    ∃ body rest, toks = body ++ [']'] :: rest ∧ length = body.length + 1 ∧ [']'] ∉ body := by
  induction toks generalizing expected length with
  | nil => cases found
  | cons word toks induction =>
      rw [listLength] at found
      split at found
      · rename_i closing
        cases found
        exact ⟨[], toks, by rw [closing.1]; rfl, rfl, List.not_mem_nil⟩
      · rename_i unclosed
        simp only [Option.bind_eq_some_iff, Option.map_eq_some_iff] at found
        obtain ⟨next, accepted, inner, found, rfl⟩ := found
        obtain ⟨body, rest, rfl, rfl, absent⟩ := induction next inner found
        refine ⟨word :: body, rest, rfl, rfl, fun member => ?_⟩
        rcases List.mem_cons.mp member with same | member
        · exact accept_not_bracket expected next word unclosed accepted same.symm
        · exact absent member

/-- What an operand is, over tokens. -/
inductive OperandTokens : List Text → Nat → Prop where
  | dotted (word : Text) (rest : List Text) (identifier : isIdentifier word = true) :
      OperandTokens (word :: rest) (dottedLength rest + 1)
  | literal (word : Text) (rest : List Text) (quoted : isQuoted word = true) :
      OperandTokens (word :: rest) 1
  | list (body rest : List Text) (absent : [']'] ∉ body) :
      OperandTokens (['['] :: (body ++ [']'] :: rest)) (body.length + 2)

theorem operand_length_shape (toks : List Text) (length : Nat)
    (found : operandLength constant toks = some length) : OperandTokens toks length := by
  match toks with
  | [] => cases found
  | word :: rest =>
      rw [operandLength] at found
      split at found
      · rename_i identifier
        cases found
        exact .dotted word rest identifier
      · split at found
        · rename_i quoted
          cases found
          exact .literal word rest quoted
        · split at found
          · rename_i bracket
            simp only [Option.map_eq_some_iff] at found
            obtain ⟨inner, found, rfl⟩ := found
            obtain ⟨body, behind, rfl, rfl, absent⟩ := list_length_shape _ _ _ found
            rw [bracket]
            exact .list body behind absent
          · cases found

theorem operand_tokens_bound (toks : List Text) (length : Nat) (shape : OperandTokens toks length) :
    0 < length ∧ length ≤ toks.length := by
  cases shape with
  | dotted word rest identifier =>
      have bound := dotted_length_bound rest
      simp only [List.length_cons]
      omega
  | literal word rest quoted => simp
  | list body rest absent => simp

theorem occurrence_shape (toks : List Text) (left right : Nat)
    (found : occurrence constant toks = some (left, right)) :
    ∃ leftToks rightToks rest, toks = leftToks ++ notWord :: inWord :: (rightToks ++ rest) ∧
      leftToks.length = left ∧ rightToks.length = right ∧
      OperandTokens toks left ∧ OperandTokens (rightToks ++ rest) right := by
  simp only [occurrence, Option.bind_eq_bind, Option.bind_eq_some_iff] at found
  obtain ⟨left', leftFound, found⟩ := found
  split at found
  · rename_i words
    simp only [Option.bind_eq_some_iff, Option.some.injEq, Prod.mk.injEq] at found
    obtain ⟨right', rightFound, rfl, rfl⟩ := found
    have leftShape := operand_length_shape _ _ leftFound
    have rightShape := operand_length_shape _ _ rightFound
    refine ⟨toks.take left', (toks.drop (left' + 2)).take right',
      (toks.drop (left' + 2)).drop right', ?_, ?_, ?_, leftShape, ?_⟩
    · have behind : notWord :: inWord :: toks.drop (left' + 2) = toks.drop left' := by
        rw [← List.drop_drop, ← List.take_append_drop 2 (toks.drop left'), words]
        simp
      rw [List.take_append_drop, behind, List.take_append_drop]
    · exact List.length_take_of_le (operand_tokens_bound _ _ leftShape).2
    · exact List.length_take_of_le (operand_tokens_bound _ _ rightShape).2
    · rw [List.take_append_drop]
      exact rightShape
  · cases found

/-- The items of an occurrence and those behind it. -/
structure Occurrence (items left : List Item) (notItem inItem : Item) (right rest : List Item) :
    Prop where
  spelled : items = left ++ notItem :: inItem :: (right ++ rest)
  notRaw : notItem.raw = notWord
  inRaw : inItem.raw = inWord
  leftOperand : OperandTokens (items.map Item.raw) left.length
  rightOperand : OperandTokens ((right ++ rest).map Item.raw) right.length

theorem occurrence_items (items : List Item) (left right : Nat)
    (found : occurrence constant (items.map Item.raw) = some (left, right)) :
    ∃ leftItems notItem inItem rightItems rest,
      Occurrence items leftItems notItem inItem rightItems rest ∧
        leftItems.length = left ∧ rightItems.length = right := by
  obtain ⟨leftToks, rightToks, rest, spelled, rfl, rfl, leftOperand, rightOperand⟩ :=
    occurrence_shape _ left right found
  obtain ⟨leftItems, fromNot, rfl, rfl, afterLeft⟩ := List.map_eq_append_iff.mp spelled
  obtain ⟨notItem, fromIn, rfl, notRaw, afterNot⟩ := List.map_eq_cons_iff.mp afterLeft
  obtain ⟨inItem, fromRight, rfl, inRaw, afterIn⟩ := List.map_eq_cons_iff.mp afterNot
  obtain ⟨rightItems, restItems, rfl, rfl, rfl⟩ := List.map_eq_append_iff.mp afterIn
  rw [List.length_map] at leftOperand rightOperand
  rw [← List.map_append] at rightOperand
  exact ⟨leftItems, notItem, inItem, rightItems, restItems,
    ⟨rfl, notRaw, inRaw, leftOperand, rightOperand⟩, by rw [List.length_map], by rw [List.length_map]⟩

section AtOccurrence

variable {items left right rest : List Item} {notItem inItem : Item}

theorem occurrence_take (here : Occurrence items left notItem inItem right rest) :
    items.take left.length = left := by
  rw [here.spelled, List.take_left]

theorem occurrence_drop (here : Occurrence items left notItem inItem right rest) :
    items.drop (left.length + 2) = right ++ rest := by
  rw [here.spelled, List.drop_append]
  simp

theorem occurrence_rest (here : Occurrence items left notItem inItem right rest) :
    items.drop (left.length + 2 + right.length) = rest := by
  rw [← List.drop_drop, occurrence_drop here, List.drop_left]

theorem occurrence_rest_length (here : Occurrence items left notItem inItem right rest) :
    rest.length < items.length := by
  rw [here.spelled]
  simp only [List.length_append, List.length_cons]
  omega

theorem occurrence_left_filled (here : Occurrence items left notItem inItem right rest) :
    left ≠ [] :=
  List.length_pos_iff.mp (operand_tokens_bound _ _ here.leftOperand).1

theorem occurrence_right_filled (here : Occurrence items left notItem inItem right rest) :
    right ≠ [] :=
  List.length_pos_iff.mp (operand_tokens_bound _ _ here.rightOperand).1

theorem occurrence_chains (here : Occurrence items left notItem inItem right rest) {tail : Text}
    (chain : Chain items tail) :
    Chain left (flattenItems (notItem :: inItem :: (right ++ rest)) tail) ∧
      Chain (notItem :: inItem :: (right ++ rest)) tail ∧ Chain (right ++ rest) tail ∧
        Chain right (flattenItems rest tail) ∧ Chain rest tail := by
  rw [here.spelled, chain_append] at chain
  obtain ⟨leftChain, middle⟩ := chain
  exact ⟨leftChain, middle, middle.2.2.2.2, (chain_append right rest tail).mp middle.2.2.2.2⟩

theorem occurrence_unique (here : Occurrence items left notItem inItem right rest)
    {otherLeft otherRight otherRest : List Item} {otherNot otherIn : Item}
    (other : Occurrence items otherLeft otherNot otherIn otherRight otherRest)
    (leftLength : otherLeft.length = left.length) (rightLength : otherRight.length = right.length) :
    otherLeft = left ∧ otherRight = right ∧ otherRest = rest := by
  have behind := occurrence_drop other
  have ends := occurrence_rest other
  have front := occurrence_take other
  rw [leftLength, occurrence_take here] at front
  rw [leftLength, occurrence_drop here] at behind
  rw [leftLength, rightLength, occurrence_rest here] at ends
  subst front ends
  exact ⟨rfl, (List.append_cancel_right behind).symm, rfl⟩

theorem replace_at_occurrence (here : Occurrence items left notItem inItem right rest) (fuel : Nat)
    (found : occurrence constant (items.map Item.raw) = some (left.length, right.length)) :
    replaceLoop constant (fuel + 1) (items.map Item.raw) =
      [['!'], ['(']] ++ left.map Item.raw ++ [inWord] ++ right.map Item.raw ++ [[')']] ++
        replaceLoop constant fuel (rest.map Item.raw) := by
  rw [replaceLoop.eq_def]
  simp only [found]
  rw [← List.map_take, ← List.map_drop, ← List.map_drop, ← List.map_take, occurrence_take here,
    occurrence_drop here, occurrence_rest here, List.take_left]

theorem aligned_at_occurrence (here : Occurrence items left notItem inItem right rest) (fuel : Nat)
    (tail : Text)
    (found : occurrence constant (items.map Item.raw) = some (left.length, right.length)) :
    alignedLoop constant (fuel + 1) items tail = true ↔
      notInMatch (flattenItems (bare items) tail) =
          some (flattenItems (bare left) [], flattenItems (bare right) [], flattenItems rest tail) ∧
        alignedLoop constant fuel rest tail = true := by
  rw [alignedLoop.eq_def]
  simp only [found]
  rw [occurrence_take here, occurrence_drop here, occurrence_rest here, List.take_left,
    Bool.and_eq_true, beq_iff_eq]

end AtOccurrence

theorem replace_at_token (fuel : Nat) (word : Text) (rest : List Text)
    (missed : occurrence constant (word :: rest) = none) :
    replaceLoop constant (fuel + 1) (word :: rest) = word :: replaceLoop constant fuel rest := by
  rw [replaceLoop, missed]

theorem aligned_at_token (fuel : Nat) (item : Item) (rest : List Item) (tail : Text)
    (missed : occurrence constant ((item :: rest).map Item.raw) = none) :
    alignedLoop constant (fuel + 1) (item :: rest) tail = true ↔
      (∀ offset < item.raw.length,
        notInMatch ((item.raw ++ flattenItems rest tail).drop offset) = none) ∧
        alignedLoop constant fuel rest tail = true := by
  rw [alignedLoop, missed]
  simp only [Bool.and_eq_true, List.all_eq_true, List.mem_range, Option.isNone_iff_eq_none]

/-- The loops over the tokens go on behind the first token or behind an occurrence. -/
theorem occurrence_induction (constant : Text → Bool)
    {motive : (fuel : Nat) → (items : List Item) → items.length ≤ fuel → Prop}
    (nil : ∀ fuel, motive fuel [] (Nat.zero_le fuel))
    (token : ∀ fuel item rest (enough : rest.length ≤ fuel),
      occurrence constant ((item :: rest).map Item.raw) = none → motive fuel rest enough →
        motive (fuel + 1) (item :: rest) (Nat.succ_le_succ enough))
    (occurs : ∀ fuel items left notItem inItem right rest (enough : items.length ≤ fuel + 1)
      (restEnough : rest.length ≤ fuel), Occurrence items left notItem inItem right rest →
        occurrence constant (items.map Item.raw) = some (left.length, right.length) →
          motive fuel rest restEnough → motive (fuel + 1) items enough)
    (fuel : Nat) (items : List Item) (enough : items.length ≤ fuel) : motive fuel items enough := by
  induction fuel generalizing items with
  | zero =>
      obtain rfl := List.length_eq_zero_iff.mp (Nat.le_zero.mp enough)
      exact nil 0
  | succ fuel induction =>
      rcases found : occurrence constant (items.map Item.raw) with _ | ⟨leftLength, rightLength⟩
      · match items with
        | [] => exact nil _
        | item :: rest =>
            have restEnough := Nat.le_of_succ_le_succ enough
            exact token fuel item rest restEnough found (induction rest restEnough)
      · obtain ⟨left, notItem, inItem, right, rest, here, rfl, rfl⟩ := occurrence_items _ _ _ found
        have shorter := occurrence_rest_length here
        exact occurs fuel items left notItem inItem right rest enough (by omega) here found
          (induction rest (by omega))

/-- The phrases in a text are the occurrences over its tokens: each occurrence is
spelled as one phrase, by its operands and what is behind it, and no phrase starts
at a character of any other token. -/
inductive Aligned (constant : Text → Bool) (tail : Text) : List Item → Prop where
  | nil : Aligned constant tail []
  | token (item : Item) (rest : List Item)
      (missed : occurrence constant ((item :: rest).map Item.raw) = none)
      (unmatched : ∀ offset < item.raw.length, ∀ left right after,
        ¬ Phrase left right after ((item.raw ++ flattenItems rest tail).drop offset))
      (behind : Aligned constant tail rest) : Aligned constant tail (item :: rest)
  | occurs (items left : List Item) (notItem inItem : Item) (right rest : List Item)
      (here : Occurrence items left notItem inItem right rest)
      (found : occurrence constant (items.map Item.raw) = some (left.length, right.length))
      (matched : Phrase (flattenItems (bare left) []) (flattenItems (bare right) [])
        (flattenItems rest tail) (flattenItems (bare items) tail))
      (behind : Aligned constant tail rest) : Aligned constant tail items

def PhrasesAligned (constant : Text → Bool) (text : Text) : Prop :=
  ∃ items tail, lex text = some (items, tail) ∧ Aligned constant tail items

theorem aligned_iff (fuel : Nat) (items : List Item) (tail : Text) (enough : items.length ≤ fuel) :
    Aligned constant tail items ↔ alignedLoop constant fuel items tail = true := by
  induction fuel, items, enough using occurrence_induction constant with
  | nil fuel =>
      have accepted : alignedLoop constant fuel [] tail = true := by cases fuel <;> rfl
      exact ⟨fun _ => accepted, fun _ => .nil⟩
  | token fuel item rest _ missed induction =>
      rw [aligned_at_token fuel item rest tail missed, ← induction]
      constructor
      · intro aligned
        cases aligned with
        | token _ _ _ unmatched behind =>
            exact ⟨fun offset bound => (not_in_match_none_iff _).mpr (unmatched offset bound), behind⟩
        | occurs _ _ _ _ _ _ _ found _ _ =>
            rw [missed] at found
            cases found
      · intro aligned
        exact .token item rest missed
          (fun offset bound => (not_in_match_none_iff _).mp (aligned.1 offset bound)) aligned.2
  | occurs fuel items left notItem inItem right rest _ _ here found induction =>
      rw [aligned_at_occurrence here fuel tail found, not_in_match_iff, ← induction]
      constructor
      · intro aligned
        cases aligned with
        | nil => cases found
        | token _ _ missed _ _ =>
            rw [found] at missed
            cases missed
        | occurs _ otherLeft otherNot otherIn otherRight otherRest other otherFound matched behind =>
            rw [found, Option.some.injEq, Prod.mk.injEq] at otherFound
            obtain ⟨rfl, rfl, rfl⟩ :=
              occurrence_unique here other otherFound.1.symm otherFound.2.symm
            exact ⟨matched, behind⟩
      · intro aligned
        exact .occurs items left notItem inItem right rest here found aligned.1 aligned.2

theorem phrases_aligned_iff (text : Text) :
    PhrasesAligned constant text ↔ matchesAligned constant text = true := by
  rw [PhrasesAligned, matchesAligned]
  constructor
  · intro aligned
    obtain ⟨items, tail, lexed, aligned⟩ := aligned
    rw [lexed]
    exact (aligned_iff items.length items tail (Nat.le_refl _)).mp aligned
  · intro accepted
    split at accepted
    · rename_i items tail lexed
      exact ⟨items, tail, lexed, (aligned_iff items.length items tail (Nat.le_refl _)).mpr accepted⟩
    · cases accepted

instance (constant : Text → Bool) (text : Text) : Decidable (PhrasesAligned constant text) :=
  decidable_of_iff _ (phrases_aligned_iff text).symm

end Occurrences

theorem with_gap_raw (gap : Text) (items : List Item) :
    (withGap gap items).map Item.raw = items.map Item.raw := by
  cases items <;> rfl

theorem chain_with_gap (gap : Text) (items : List Item) (tail : Text) (blank : Blank gap)
    (chain : Chain items tail) : Chain (withGap gap items) tail := by
  cases items with
  | nil => trivial
  | cons item items => exact ⟨blank, chain.2⟩

theorem flatten_with_gap (gap : Text) (items : List Item) (tail : Text) (filled : items ≠ []) :
    flattenItems (withGap gap items) tail = gap ++ flattenItems (bare items) tail := by
  cases items with
  | nil => exact (filled rfl).elim
  | cons item items => rfl

theorem bare_append (left right : List Item) (filled : left ≠ []) :
    bare (left ++ right) = bare left ++ right := by
  cases left with
  | nil => exact (filled rfl).elim
  | cons item left => rfl

theorem blank_nil : Blank [] := fun _ member => (List.not_mem_nil member).elim

theorem blank_space : Blank [' '] := by
  intro symbol member
  rw [List.mem_singleton.mp member]
  decide

/-- What is written for an occurrence with white space `gap` in front of it. -/
def replacement (gap : Text) (left right : List Item) : List Item :=
  { gap := gap, raw := ['!'] } :: { gap := [], raw := ['('] } ::
    (bare left ++ { gap := [' '], raw := inWord } ::
      (withGap [' '] right ++ [{ gap := [], raw := [')'] }]))

theorem replacement_raw (gap : Text) (left right : List Item) :
    (replacement gap left right).map Item.raw =
      [['!'], ['(']] ++ left.map Item.raw ++ [inWord] ++ right.map Item.raw ++ [[')']] := by
  simp only [replacement, bare, List.map_cons, List.map_append, with_gap_raw, List.map_nil,
    List.append_assoc, List.cons_append, List.nil_append]

theorem replacement_text (gap : Text) (left right : List Item) (text : Text) (filled : right ≠ []) :
    flattenItems (replacement gap left right) text =
      gap ++ (['!', '('] ++ flattenItems (bare left) [] ++ [' ', 'i', 'n', ' '] ++
        flattenItems (bare right) [] ++ [')'] ++ text) := by
  rw [replacement, flattenItems, flattenItems, flatten_items_append, flatten_items_tail (bare left),
    flattenItems, flatten_items_append, flatten_with_gap _ _ _ filled,
    flatten_items_tail (bare right)]
  simp only [flattenItems, inWord, List.append_assoc, List.cons_append, List.nil_append]

/-- Every token of a replacement stands, whatever follows it. -/
theorem replacement_chain (gap : Text) (left right : List Item) (afterLeft afterRight text : Text)
    (blank : Blank gap) (filled : right ≠ []) (leftChain : Chain left afterLeft)
    (rightChain : Chain right afterRight) : Chain (replacement gap left right) text := by
  have departs : ∀ (old rest : Text) (symbol : Char), symbol ∈ [' ', '!', ')'] →
      Follows old (symbol :: rest) := fun old rest symbol member =>
    Or.inr ⟨[], symbol, old, rest, rfl, rfl, member⟩
  have closing : Chain [{ gap := [], raw := [')'] }] text :=
    ⟨blank_nil, lexeme_at_bracket ')' text (by decide), trivial⟩
  have rightPart : Chain (withGap [' '] right ++ [{ gap := [], raw := [')'] }]) text := by
    rw [chain_append]
    refine ⟨chain_follows _ afterRight _ (chain_with_gap _ _ _ blank_space rightChain) ?_, closing⟩
    exact departs _ text ')' (by decide)
  refine ⟨blank, lexeme_at_not _, blank_nil, lexeme_at_bracket '(' _ (by decide), ?_⟩
  rw [chain_append]
  refine ⟨chain_follows _ afterLeft _ (chain_with_gap _ _ _ blank_nil leftChain) ?_,
    blank_space, ?_, rightPart⟩
  · exact departs _ _ ' ' (by decide)
  · rw [flatten_items_append, flatten_with_gap _ _ _ filled]
    exact lexeme_at_in _

variable {constant : Text → Bool}

/-- Where the matches are the occurrences, what the rewrite writes is read as the
replaced tokens, and it departs from the text only with a `!`. -/
theorem aligned_rewrite (fuel : Nat) (items : List Item) (tail : Text) (enough : items.length ≤ fuel)
    (chain : Chain items tail) (blank : Blank tail)
    (aligned : alignedLoop constant fuel items tail = true) :
    ∃ written, Chain written tail ∧
      flattenItems written tail = rewriteText (flattenItems items tail) ∧
      written.map Item.raw = replaceLoop constant fuel (items.map Item.raw) ∧
      Follows (flattenItems items tail) (flattenItems written tail) := by
  induction fuel, items, enough using occurrence_induction constant with
  | nil fuel =>
      exact ⟨[], trivial, (rewrite_text_tail tail blank).symm, by cases fuel <;> rfl, Or.inl rfl⟩
  | token fuel item rest _ missed induction =>
      obtain ⟨unmatched, aligned⟩ := (aligned_at_token fuel item rest tail missed).mp aligned
      obtain ⟨gapBlank, here, chain⟩ := chain
      obtain ⟨written, writtenChain, spelled, tokens, follows⟩ := induction chain aligned
      refine ⟨item :: written, ⟨gapBlank, lexeme_at_follows _ _ _ here follows, writtenChain⟩,
        ?_, ?_, ?_⟩
      · rw [flattenItems, spelled, flattenItems, rewrite_text_blank _ _ gapBlank,
          rewrite_text_unmatched _ _ unmatched]
      · rw [List.map_cons, List.map_cons, tokens, replace_at_token fuel _ _ missed]
      · rw [flattenItems, flattenItems]
        exact follows_append _ _ _ (follows_append _ _ _ follows)
  | occurs fuel items left notItem inItem right rest _ _ here found induction =>
      obtain ⟨matched, aligned⟩ := (aligned_at_occurrence here fuel tail found).mp aligned
      obtain ⟨first, others, rfl⟩ := List.exists_cons_of_ne_nil (occurrence_left_filled here)
      obtain ⟨leftChain, -, -, rightChain, restChain⟩ := occurrence_chains here chain
      obtain ⟨written, writtenChain, spelled, tokens, -⟩ := induction restChain aligned
      have text : flattenItems items tail = first.gap ++ flattenItems (bare items) tail := by
        rw [here.spelled]
        rfl
      have rightFilled := occurrence_right_filled here
      refine ⟨replacement first.gap (first :: others) right ++ written, ?_, ?_, ?_, ?_⟩
      · exact (chain_append _ _ _).mpr ⟨replacement_chain _ _ _ _ _ _ leftChain.1 rightFilled
          leftChain rightChain, writtenChain⟩
      · rw [flatten_items_append, replacement_text _ _ _ _ rightFilled, spelled, text,
          rewrite_text_blank _ _ leftChain.1, rewrite_text_match _ _ _ _ matched]
      · rw [List.map_append, replacement_raw, tokens, replace_at_occurrence here fuel found]
      · rw [flatten_items_append, replacement_text _ _ _ _ rightFilled, text]
        exact Or.inr ⟨first.gap, '!', _, _, rfl, rfl, by decide⟩

end KoAgent.NotInTokens
