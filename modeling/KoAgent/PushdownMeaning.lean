import KoAgent.AtomInterning
import KoAgent.CompiledSets

/-!
# The meaning of compiled predicates

`Means ev value action` says of a compiler action that whatever predicates it
yields have the truth value `value` on the event, under every later state of the
shared atom table. The leaves of the filter language satisfy it with the value
CEL gives them, and so do negated leaves with the opposite value.
-/

namespace KoAgent.PushdownMeaning

open KoAgent.ByteWords KoAgent.NumeralText KoAgent.NetAddress KoAgent.NetAddressRoundtrip
open KoAgent.FilterModel KoAgent.CelExpression KoAgent.FilterCompiler KoAgent.FilterSets
open KoAgent.AtomInterning KoAgent.CidrSets KoAgent.CompilerShape KoAgent.CompiledSets
open KoAgent.PredicateMachine hiding cmpField

set_option autoImplicit false

def IPShape (ip : IP) : Prop := ip = [] ∨ ip.length = 4 ∨ ip.length = 16

def KnownType (type : EventType) : Prop :=
  type = evtConnFailed ∨ type = evtConnClosed ∨ type = evtRetransmit ∨ type = evtProbe

/-- The events the tracer builds: one of the four types, a life time that fits
`int64`, and addresses that are absent, IPv4 or IPv6. -/
structure Observed (ev : Event) : Prop where
  type : KnownType ev.type
  life : ev.lifeUS.toNat < 2 ^ 63
  localIP : IPShape ev.localIP
  remoteIP : IPShape ev.remoteIP

def Means (ev : Event) (value : Bool) (action : Action) : Prop := ∀ c, Interned c →
  Interned (action c).2 ∧ c.atoms <+: (action c).2.atoms ∧
    ∀ preds, (action c).1 = some preds →
      ∀ final, (action c).2.atoms <+: final → final.length ≤ 64 →
        predsHold ev (verdictMask final ev.attrs) preds = value

theorem refuse_means (ev : Event) (value : Bool) : Means ev value refuse := by
  intro c interned
  exact ⟨interned, List.prefix_rfl, by simp [refuse]⟩

theorem and_then_means (ev : Event) (left right : Bool) (first second : Action)
    (one : Means ev left first) (two : Means ev right second) :
    Means ev (left && right) (andThen first second) := by
  intro c interned
  obtain ⟨firstInterned, firstGrown, firstHolds⟩ := one c interned
  obtain ⟨secondInterned, secondGrown, secondHolds⟩ := two (first c).2 firstInterned
  rcases early : first c with ⟨leftResult, middle⟩
  rw [early] at firstInterned firstGrown firstHolds secondInterned secondGrown secondHolds
  rcases late : second middle with ⟨rightResult, last⟩
  rw [late] at secondInterned secondGrown secondHolds
  cases leftResult with
  | none =>
      simp only [andThen, early]
      exact ⟨firstInterned, firstGrown, by simp⟩
  | some leftPreds =>
      cases rightResult with
      | none =>
          simp only [andThen, early, late]
          exact ⟨secondInterned, firstGrown.trans secondGrown, by simp⟩
      | some rightPreds =>
          simp only [andThen, early, late]
          refine ⟨secondInterned, firstGrown.trans secondGrown, ?_⟩
          intro preds same final grown bound
          obtain rfl := Option.some.inj same
          rw [preds_hold_append, firstHolds leftPreds rfl final (secondGrown.trans grown) bound,
            secondHolds rightPreds rfl final grown bound]

/-- Predicates without attribute tests hold whatever the table becomes. -/
theorem fixed_means (ev : Event) (value : Bool) (result : Option (List Pred))
    (holds : ∀ preds, result = some preds → ∀ mask, predsHold ev mask preds = value) :
    Means ev value fun c => (result, c) := by
  intro c interned
  exact ⟨interned, List.prefix_rfl, fun preds same final _ _ => holds preds same _⟩

theorem attr_pred_means (ev : Event) (field op : U8) (values : List String) (neg : U8)
    (ok : Admissible { field := field, op := op, values := values }) (c : Compiler)
    (interned : Interned c) :
    Interned (attrPred field op values neg c).2 ∧
      c.atoms <+: (attrPred field op values neg c).2.atoms ∧
      ∀ final, (attrPred field op values neg c).2.atoms <+: final → final.length ≤ 64 →
        predHolds ev (verdictMask final ev.attrs) (attrPred field op values neg c).1 =
          (atomEval { field := field, op := op, values := values } ev.attrs == (neg == 0)) := by
  obtain ⟨next, grown, id, pred, position⟩ := attr_pred_spec field op values neg c interned ok
  refine ⟨next, grown, ?_⟩
  intro final further bound
  rw [pred]
  exact attr_holds_of_atom final ev.attrs id _ neg
    (getElem_of_extension _ final further id _ position) bound

theorem attr_pred_one_means (ev : Event) (field op : U8) (values : List String) (neg : U8)
    (ok : Admissible { field := field, op := op, values := values }) :
    Means ev (atomEval { field := field, op := op, values := values } ev.attrs == (neg == 0))
      (attrPredOne field op values neg) := by
  intro c interned
  obtain ⟨next, grown, holds⟩ := attr_pred_means ev field op values neg ok c interned
  refine ⟨next, grown, ?_⟩
  intro preds same final further bound
  obtain rfl := Option.some.inj same
  simpa [predsHold] using holds final further bound

theorem equality_admissible (field : U8) (value : String) :
    Admissible { field := field, op := attrEq, values := [value] } := Or.inl ⟨rfl, value, rfl⟩

/-- A negated list test is the conjunction of the negated equalities. -/
theorem neg_attr_preds_means (ev : Event) (field : U8) (values : List String) (c : Compiler)
    (interned : Interned c) :
    Interned (negAttrPreds field values c).2 ∧
      c.atoms <+: (negAttrPreds field values c).2.atoms ∧
      ∀ final, (negAttrPreds field values c).2.atoms <+: final → final.length ≤ 64 →
        predsHold ev (verdictMask final ev.attrs) (negAttrPreds field values c).1 =
          !values.contains (attrValue field ev.attrs) := by
  induction values generalizing c with
  | nil => exact ⟨interned, List.prefix_rfl, by simp [negAttrPreds, predsHold]⟩
  | cons value rest induction =>
      obtain ⟨next, grown, first⟩ :=
        attr_pred_means ev field attrEq [value] 1 (equality_admissible field value) c interned
      obtain ⟨last, further, others⟩ := induction _ next
      refine ⟨last, grown.trans further, ?_⟩
      intro final finalGrown bound
      have head := first final (further.trans finalGrown) bound
      have tail := others final finalGrown bound
      rw [negAttrPreds, predsHold, List.all_cons, head]
      rw [predsHold] at tail
      rw [tail, List.contains_cons]
      simp [atomEval]

theorem signed_less (left right : U64) (leftSmall : left.toNat < 2 ^ 63)
    (rightSmall : right.toNat < 2 ^ 63) : left.slt right = decide (left < right) := by
  rw [BitVec.slt, BitVec.toInt_eq_toNat_of_lt (by omega), BitVec.toInt_eq_toNat_of_lt (by omega)]
  simp [BitVec.lt_def]

theorem signed_less_equals (left right : U64) (leftSmall : left.toNat < 2 ^ 63)
    (rightSmall : right.toNat < 2 ^ 63) : left.sle right = decide (left ≤ right) := by
  rw [BitVec.sle, BitVec.toInt_eq_toNat_of_lt (by omega), BitVec.toInt_eq_toNat_of_lt (by omega)]
  simp [BitVec.le_def]

/-- On values below `2^63` the signed comparison of CEL is the unsigned one of the
interpreter. -/
theorem int_compare_field (function : Function) (comparison : isComparison function = true)
    (left right : U64) (leftSmall : left.toNat < 2 ^ 63) (rightSmall : right.toNat < 2 ^ 63) :
    ∃ compare, intCompare function = some compare ∧
      compare left right = PredicateMachine.cmpField (cmpKind function) left right := by
  cases function with
  | equals => exact ⟨_, rfl, rfl⟩
  | notEquals => exact ⟨_, rfl, rfl⟩
  | less => exact ⟨_, rfl, signed_less left right leftSmall rightSmall⟩
  | lessEquals => exact ⟨_, rfl, signed_less_equals left right leftSmall rightSmall⟩
  | greater => exact ⟨_, rfl, signed_less right left rightSmall leftSmall⟩
  | greaterEquals => exact ⟨_, rfl, signed_less_equals right left rightSmall leftSmall⟩
  | _ => cases comparison

theorem cmp_field_flip (function : Function) (comparison : isComparison function = true)
    (left right : U64) :
    PredicateMachine.cmpField (flipCmp (cmpKind function)) left right =
      !PredicateMachine.cmpField (cmpKind function) left right := by
  have notLess : ∀ first second : U64, decide (second ≤ first) = !decide (first < second) := by
    intro first second
    simp only [← decide_not, BitVec.not_lt]
  have notLessEquals : ∀ first second : U64, decide (second < first) = !decide (first ≤ second) := by
    intro first second
    simp only [← decide_not, BitVec.not_le]
  cases function with
  | equals => rfl
  | notEquals => exact (Bool.not_not _).symm
  | less => exact notLess left right
  | lessEquals => exact notLessEquals left right
  | greater => exact notLess right left
  | greaterEquals => exact notLessEquals right left
  | _ => cases comparison

theorem stats_activation (ev : Event) (name : String) (field : U8)
    (known : statsFields name = some field) :
    activation ev name = some (.int (eventField field ev)) := by
  unfold statsFields at known
  split_ifs at known with h1 h2 h3 h4 h5
  all_goals
    obtain rfl := Option.some.inj known
    subst name
    rfl

theorem attr_activation (ev : Event) (name : String) (field : U8)
    (known : attrFields name = some field) :
    activation ev name = some (.string (attrValue field ev.attrs)) := by
  unfold attrFields at known
  split_ifs at known with h1 h2 h3
  all_goals
    obtain rfl := Option.some.inj known
    subst name
    rfl

theorem attr_not_type (name : String) (field : U8) (known : attrFields name = some field) :
    name ≠ "ko_type" ∧ statsFields name = none := by
  constructor
  · rintro rfl
    cases known
  · unfold attrFields at known
    split_ifs at known <;> subst name <;> decide

theorem event_field_small (ev : Event) (life : ev.lifeUS.toNat < 2 ^ 63) (name : String)
    (field : U8) (known : statsFields name = some field) :
    (eventField field ev).toNat < 2 ^ 63 := by
  have word : ∀ value : U32, (value.setWidth 64).toNat < 2 ^ 63 := by
    intro value
    have bound := value.isLt
    rw [BitVec.toNat_setWidth]
    exact Nat.lt_of_le_of_lt (Nat.mod_le _ _) (by omega)
  unfold statsFields at known
  split_ifs at known
  all_goals obtain rfl := Option.some.inj known
  · exact word ev.rttUS
  · exact life
  · exact word ev.retransmits
  · exact word ev.segsOut
  · exact word ev.errno

theorem one_cmp_means (ev : Event) (field kind : U8) (value : U64) :
    Means ev (PredicateMachine.cmpField kind (eventField field ev) value)
      fun c => (some [{ kind := predCmp, a := field, b := kind, val := value }], c) := by
  apply fixed_means
  intro preds same mask
  obtain rfl := Option.some.inj same
  simp [predsHold, predHolds]

theorem stats_leaf_action (name : String) (field kind : U8) (value : U64)
    (known : statsFields name = some field) :
    cmpPreds [.ident name, .literal (.int value)] kind =
      fun c => (some [{ kind := predCmp, a := field, b := kind, val := value }], c) := by
  funext c
  simp only [cmpPreds, identOf, cmpOperand, typeBitOf, literalOf, FilterCompiler.cmpField, known]

theorem conj_comparison (function : Function) (comparison : isComparison function = true)
    (args : List Expr) :
    conj (.call function args) = cmpPreds args (cmpKind function) ∧
      negConj (.call function args) = cmpPreds args (flipCmp (cmpKind function)) := by
  cases function with
  | equals | notEquals | less | lessEquals | greater | greaterEquals => exact ⟨rfl, rfl⟩
  | _ => cases comparison

theorem attr_leaf_action (name : String) (field kind : U8) (value : String)
    (known : attrFields name = some field) (equality : kind = cmpEq ∨ kind = cmpNeq) :
    cmpPreds [.ident name, .literal (.string value)] kind =
      attrPredOne field attrEq [value] (if kind = cmpEq then 0 else 1) := by
  funext c
  obtain ⟨other, stats⟩ := attr_not_type name field known
  have untyped : decide (name = "ko_type") = false := by simpa using other
  have operand : cmpOperand name kind (.literal (.string value)) c =
      FilterCompiler.cmpField name kind (.string value) c := by
    unfold cmpOperand
    rw [untyped]
    cases typeBitOf (.literal (.string value)) <;> rfl
  rw [cmpPreds, show identOf (.ident name) = some name from rfl]
  dsimp only
  rw [operand, FilterCompiler.cmpField, stats, known]
  rcases equality with rfl | rfl <;> rfl

theorem type_const_activation (ev : Event) (name : String) (type : EventType)
    (known : typeConsts name = some type) :
    KnownType type ∧ activation ev name = some (.string (eventTypeName type)) := by
  unfold typeConsts at known
  split_ifs at known
  all_goals
    obtain rfl := Option.some.inj known
    subst name
  · exact ⟨Or.inl rfl, rfl⟩
  · exact ⟨Or.inr (Or.inl rfl), rfl⟩
  · exact ⟨Or.inr (Or.inr (Or.inl rfl)), rfl⟩
  · exact ⟨Or.inr (Or.inr (Or.inr rfl)), rfl⟩

theorem type_name_known (name : String) (type : EventType) (known : typesByName name = some type) :
    KnownType type ∧ name = eventTypeName type := by
  unfold typesByName at known
  split_ifs at known
  all_goals
    obtain rfl := Option.some.inj known
    subst name
  · exact ⟨Or.inl rfl, rfl⟩
  · exact ⟨Or.inr (Or.inl rfl), rfl⟩
  · exact ⟨Or.inr (Or.inr (Or.inl rfl)), rfl⟩
  · exact ⟨Or.inr (Or.inr (Or.inr rfl)), rfl⟩

theorem type_operand_spec (cel : Cel) (lawful : cel.Lawful) (ev : Event) (operand : Expr)
    (bit : U64) (known : typeBitOf operand = some bit) :
    ∃ type, KnownType type ∧ bit = typeBit type ∧
      cel.eval operand (activation ev) = .ok (.string (eventTypeName type)) := by
  unfold typeBitOf at known
  split at known
  · next name =>
      obtain ⟨type, const, rfl⟩ := Option.map_eq_some_iff.mp known
      obtain ⟨listed, value⟩ := type_const_activation ev name type const
      exact ⟨type, listed, rfl, lawful.ident name _ _ value⟩
  · next name =>
      obtain ⟨type, named, rfl⟩ := Option.map_eq_some_iff.mp known
      obtain ⟨listed, rfl⟩ := type_name_known name type named
      exact ⟨type, listed, rfl, lawful.string _ _⟩
  · cases known

/-- Two type bits meet exactly when the types have the same name. -/
theorem type_bits_meet (left right : EventType) (leftKnown : KnownType left)
    (rightKnown : KnownType right) :
    ((1 : U64) <<< left.toNat &&& typeBit right != 0) =
      (eventTypeName left == eventTypeName right) := by
  rcases leftKnown with rfl | rfl | rfl | rfl <;> rcases rightKnown with rfl | rfl | rfl | rfl <;>
    decide

theorem and_or_meets (word left right : U64) :
    (word &&& (left ||| right) != 0) = ((word &&& left != 0) || (word &&& right != 0)) := by
  rw [BitVec.and_or_distrib_left, Bool.eq_iff_iff]
  simp only [bne_iff_ne, ne_eq, Bool.or_eq_true, BitVec.ofNat_eq_ofNat, BitVec.or_eq_zero_iff]
  exact not_and_or

/-- The mask loop collects the bits of the listed types, by induction over the list. -/
theorem type_mask_loop_spec (cel : Cel) (lawful : cel.Lawful) (ev : Event) (operands : List Expr)
    (start mask : U64) (built : typeMaskLoop start operands = some mask) :
    ∃ types : List EventType,
      List.Forall₂ (fun e value => cel.eval e (activation ev) = .ok value) operands
        ((types.map eventTypeName).map Value.string) ∧
      ∀ type, KnownType type →
        ((1 : U64) <<< type.toNat &&& mask != 0) =
          (((1 : U64) <<< type.toNat &&& start != 0) ||
            (types.map eventTypeName).contains (eventTypeName type)) := by
  induction operands generalizing start with
  | nil =>
      obtain rfl := Option.some.inj built
      exact ⟨[], .nil, by simp⟩
  | cons operand rest induction =>
      rw [typeMaskLoop] at built
      cases known : typeBitOf operand with
      | none => simp [known] at built
      | some bit =>
          simp only [known] at built
          obtain ⟨first, listed, rfl, value⟩ := type_operand_spec cel lawful ev operand bit known
          obtain ⟨types, values, bits⟩ := induction _ built
          refine ⟨first :: types, .cons value values, ?_⟩
          intro type typeKnown
          rw [bits type typeKnown, and_or_meets, type_bits_meet type first typeKnown listed,
            List.map_cons, List.contains_cons, Bool.or_assoc]

theorem type_mask_meets (ev : Event) (known : KnownType ev.type) (mask : U64) (names : List String)
    (bits : ∀ type, KnownType type → ((1 : U64) <<< type.toNat &&& mask != 0) =
      (((1 : U64) <<< type.toNat &&& 0 != 0) || names.contains (eventTypeName type))) :
    PredicateMachine.cmpField cmpIn (eventField fldType ev) mask =
        names.contains (eventTypeName ev.type) ∧
      PredicateMachine.cmpField cmpNotIn (eventField fldType ev) mask =
        !names.contains (eventTypeName ev.type) := by
  have meets : ((1 : U64) <<< ev.type.toNat &&& mask != 0) =
      names.contains (eventTypeName ev.type) := by
    rw [bits ev.type known]
    simp
  refine ⟨meets, ?_⟩
  rw [← meets, bne, Bool.not_not]
  rfl

theorem literal_strings_eval (cel : Cel) (lawful : cel.Lawful) (act : Activation)
    (elements : List Expr) (values : List String) (read : literalStrings elements = .ok values) :
    List.Forall₂ (fun e value => cel.eval e act = .ok value) elements
      (values.map Value.string) := by
  induction elements generalizing values with
  | nil =>
      cases read
      exact .nil
  | cons element rest induction =>
      rw [literalStrings] at read
      split at read
      · cases read
      · next value literal =>
          cases tail : literalStrings rest with
          | error text => simp [tail, Except.map] at read
          | ok others =>
              simp only [tail, Except.map, Except.ok.injEq] at read
              subst read
              obtain rfl : element = .literal (.string value) := by
                cases element <;> simp_all [literalOf]
              exact .cons (lawful.string _ _) (induction others tail)
      · cases read

theorem list_of_strings_eval (cel : Cel) (lawful : cel.Lawful) (ev : Event) (arg : Expr)
    (values : List String) (read : listOfStrings arg = .ok values) :
    cel.eval arg (activation ev) = .ok (.list (values.map Value.string)) := by
  unfold listOfStrings at read
  split at read
  · next name =>
      split at read
      · next listed builtin =>
          cases read
          apply lawful.ident
          unfold builtinLists at builtin
          split_ifs at builtin
          all_goals
            obtain rfl := Option.some.inj builtin
            subst name
            rfl
      · cases read
  · next elements =>
      exact lawful.list _ _ _ (literal_strings_eval cel lawful _ elements values read)
  · cases read

/-- No CIDR of the list is an IPv4-mapped IPv6 prefix. -/
def Unmapped (cidrs : List String) : Prop :=
  ∀ cidr ∈ cidrs, ∀ pfx, parsePrefix cidr.toList = some pfx → pfx.addr.is4In6 = false

theorem endpoint_activation (ev : Event) (name : String) (which : U8)
    (known : whichOf name = some which) :
    ∃ port, activation ev name =
      some (.string (hostPort (if which = 1 then ev.remoteIP else ev.localIP) port)) := by
  unfold whichOf at known
  split_ifs at known
  all_goals
    obtain rfl := Option.some.inj known
    subst name
  · exact ⟨ev.localPort, rfl⟩
  · exact ⟨ev.remotePort, rfl⟩

theorem digit_not_bracket (digit : Nat) (small : digit < 16) :
    digit.digitChar ≠ '[' ∧ digit.digitChar ≠ ']' ∧ digit.digitChar ≠ ':' := by
  have cases : ∀ digit : Fin 16, digit.val.digitChar ≠ '[' ∧ digit.val.digitChar ≠ ']' ∧
      digit.val.digitChar ≠ ':' := by decide
  exact cases ⟨digit, small⟩

theorem decimal_symbols (number : Nat) (symbol : Char) (member : symbol ∈ decimal number) :
    symbol ≠ '[' ∧ symbol ≠ ']' ∧ symbol ≠ ':' := by
  obtain ⟨digit, small, rfl⟩ := to_digits_symbols 10 number (by decide) symbol member
  exact digit_not_bracket digit (by omega)

theorem ip_string_symbols (ip : IP) (shape : IPShape ip) (symbol : Char)
    (member : symbol ∈ ipString ip) : symbol ≠ '[' ∧ symbol ≠ ']' := by
  unfold ipString at member
  split_ifs at member with absent
  · cases member
  · have known : ip.length = 4 ∨ ip.length = 16 := shape.resolve_left absent
    rw [ipToString, if_neg absent] at member
    have plain : (∃ digit, digit < 16 ∧ symbol = digit.digitChar) ∨ symbol = '.' ∨ symbol = ':' := by
      cases four : to4 ip with
      | some bytes =>
          simp only [four] at member
          rcases string4_symbols _ symbol member with digit | dot
          · exact Or.inl digit
          · exact Or.inr (Or.inl dot)
      | none =>
          have long : ip.length = 16 := by
            rcases known with short | long
            · simp [to4, short] at four
            · exact long
          simp only [four, long, if_true] at member
          rcases string6_symbols _ symbol member with digit | colon
          · exact Or.inl digit
          · exact Or.inr (Or.inr colon)
    rcases plain with ⟨digit, small, rfl⟩ | rfl | rfl
    · exact ⟨(digit_not_bracket digit small).1, (digit_not_bracket digit small).2.1⟩
    · decide
    · decide

/-- The address text the activation carries reads back as the address itself. -/
theorem addr_in_cidrs_endpoint (ip : IP) (shape : IPShape ip) (port : U16) (cidrs : List String) :
    addrInCIDRs (hostPort ip port) cidrs =
      (!ip.isEmpty && cidrs.any (cidrContains (addrOfIP ip))) := by
  have split : splitHostPort (hostPort ip port).toList = some (ipString ip, decimal port.toNat) := by
    rw [hostPort, String.toList_ofList]
    apply split_host_port_join
    · exact fun member => (ip_string_symbols ip shape _ member).1 rfl
    · exact fun member => (ip_string_symbols ip shape _ member).2 rfl
    · exact fun member => (decimal_symbols _ _ member).1 rfl
    · exact fun member => (decimal_symbols _ _ member).2.1 rfl
    · exact fun member => (decimal_symbols _ _ member).2.2 rfl
  simp only [addrInCIDRs, split]
  rcases shape with rfl | known
  · rfl
  · have present : ip ≠ [] := by
      rintro rfl
      simp at known
    have parsed := parse_addr_ip_to_string ip known
    rw [ipString, if_neg present]
    obtain ⟨addr, read, unmapped⟩ := Option.map_eq_some_iff.mp parsed
    simp only [read, unmapped]
    simp [present]

theorem ip_set_pred_means (ev : Event) (which neg : U8) (values : List String) (q : Pred)
    (built : ipSetPred which neg values = some q) (unmapped : Unmapped values)
    (ip : IP) (endpoint : ip = if which = 1 then ev.remoteIP else ev.localIP) (shape : IPShape ip)
    (port : U16) : evIPInSet ev q = addrInCIDRs (hostPort ip port) values := by
  rw [addr_in_cidrs_endpoint ip shape port values]
  rcases shape with rfl | known
  · obtain ⟨_, _, a, _, _, _⟩ := ip_set_pred_spec which neg values q built
    rw [evIPInSet, evIP, a, ← endpoint]
    rfl
  · have nonempty : ip.isEmpty = false := by
      cases ip with
      | nil => simp at known
      | cons _ _ => rfl
    rw [ip_set_pred_spelled ev which neg values q built ip endpoint known, nonempty, Bool.not_false,
      Bool.true_and, Bool.eq_iff_iff, List.any_eq_true, List.any_eq_true]
    apply exists_congr
    intro value
    apply and_congr_right
    intro member
    rw [spelledContains, cidrContains]
    cases parsed : parsePrefix value.toList with
    | none => rfl
    | some pfx =>
        have plain := unmapped value member pfx parsed
        simp [plain]

end KoAgent.PushdownMeaning
