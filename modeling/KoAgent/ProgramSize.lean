import KoAgent.CompiledSets
import KoAgent.ReferenceCel

/-!
# The size of the program handed to the kernel

`predCount` is the number of predicates of an expression, read off its syntax.
The check in `Compile` counts the predicates and END markers of pushed-down
filters only, while the stream also holds the END markers of the filters left to
user space. The stream fits the array exactly when all markers are counted.
-/

namespace KoAgent.ProgramSize

open KoAgent.FilterModel KoAgent.CelExpression KoAgent.FilterCompiler KoAgent.FilterSets
open KoAgent.CompilerShape KoAgent.CompiledSets KoAgent.ReferenceCel

set_option autoImplicit false

def fieldCount (name : String) (kind : U8) : Literal → Option Nat
  | .int _ => if (statsFields name).isSome then some 1 else none
  | .string _ =>
      if (statsFields name).isNone ∧ (attrFields name).isSome ∧ (kind = cmpEq ∨ kind = cmpNeq)
      then some 1 else none
  | _ => none

def operandCount (name : String) (kind : U8) (operand : Expr) : Option Nat :=
  if name = "ko_type" ∧ (typeBitOf operand).isSome then
    some (if kind = cmpEq ∨ kind = cmpNeq then 1 else 0)
  else (literalOf operand).bind (fieldCount name kind)

def cmpCount (args : List Expr) (kind : U8) : Option Nat :=
  match args with
  | [left, right] =>
      match identOf left with
      | some name => operandCount name kind right
      | none => (identOf right).bind fun name => operandCount name (flipCmp kind) left
  | _ => none

/-- A list test is one predicate, a negated one has a predicate for each string. -/
def inCount (args : List Expr) (negated : Bool) : Option Nat :=
  match args with
  | [.ident name, right] =>
      if name = "ko_type" then (typeMaskOf right).map fun _ => 1
      else if (attrFields name).isSome then
        match listOfStrings right with
        | .error _ => none
        | .ok values =>
            if values = [] then none else some (if negated then values.length else 1)
      else none
  | _ => none

def ipInCount (args : List Expr) (neg : U8) : Option Nat :=
  if (ipInPreds args neg).isSome then some 1 else none

def bothCounts : Option Nat → Option Nat → Option Nat
  | some left, some right => some (left + right)
  | _, _ => none

mutual

def predCount : Expr → Option Nat
  | .call .logicalAnd (l :: r :: _) => bothCounts (predCount l) (predCount r)
  | .call .logicalNot (e :: _) => negPredCount e
  | .call .inList args => inCount args false
  | .call .ipIn args => ipInCount args 0
  | .call function args => if isComparison function then cmpCount args (cmpKind function) else none
  | _ => none

def negPredCount : Expr → Option Nat
  | .call .logicalNot (e :: _) => predCount e
  | .call .inList args => inCount args true
  | .call .ipIn args => ipInCount args 1
  | .call function args =>
      if isComparison function then cmpCount args (flipCmp (cmpKind function)) else none
  | _ => none

end

/-- Entries of the stream: the predicates of the filters that can be pushed down,
and one END marker for every filter. -/
def programSize (es : List Expr) : Nat := (es.map fun e => (predCount e).getD 0 + 1).sum

def Sized (count : Option Nat) (action : Action) : Prop :=
  ∀ c, (action c).1.map List.length = count

theorem refuse_sized : Sized none refuse := fun _ => rfl

theorem and_then_sized (left right : Option Nat) (first second : Action)
    (one : Sized left first) (two : Sized right second) :
    Sized (bothCounts left right) (andThen first second) := by
  intro c
  have early := one c
  rcases run : first c with ⟨leftResult, middle⟩
  rw [run] at early
  subst early
  have late := two middle
  rcases next : second middle with ⟨rightResult, last⟩
  rw [next] at late
  subst late
  cases leftResult with
  | none => simp only [andThen, run, Option.map_none, bothCounts]
  | some leftPreds =>
      cases rightResult with
      | none => simp only [andThen, run, next, Option.map_none, Option.map_some, bothCounts]
      | some rightPreds =>
          simp only [andThen, run, next, Option.map_some, List.length_append, bothCounts]

theorem field_sized (name : String) (kind : U8) (v : Literal) :
    Sized (fieldCount name kind v) (cmpField name kind v) := by
  intro c
  unfold cmpField
  cases stats : statsFields name with
  | some f => cases v <;> simp [fieldCount, stats]
  | none =>
      cases attr : attrFields name with
      | none => cases v <;> simp [fieldCount, stats, attr]
      | some f =>
          cases v with
          | string value =>
              by_cases eq : kind = cmpEq
              · simp [fieldCount, stats, attr, eq, attrPredOne]
              · by_cases neq : kind = cmpNeq
                · simp [fieldCount, stats, attr, neq, attrPredOne, show cmpNeq ≠ cmpEq by decide]
                · simp [fieldCount, stats, attr, eq, neq]
          | _ => simp [fieldCount, stats]

theorem type_preds_length (kind : U8) (bit : U64) :
    (typePreds kind bit).length = if kind = cmpEq ∨ kind = cmpNeq then 1 else 0 := by
  unfold typePreds
  by_cases eq : kind = cmpEq
  · simp [eq]
  · by_cases neq : kind = cmpNeq
    · simp [neq, show cmpNeq ≠ cmpEq by decide]
    · simp [eq, neq]

theorem operand_sized (name : String) (kind : U8) (operand : Expr) :
    Sized (operandCount name kind operand) (cmpOperand name kind operand) := by
  intro c
  by_cases typed : name = "ko_type" ∧ (typeBitOf operand).isSome
  · obtain ⟨rfl, isSome⟩ := typed
    obtain ⟨bit, found⟩ := Option.isSome_iff_exists.mp isSome
    simp [operandCount, cmpOperand, found, type_preds_length]
  · have untyped : cmpOperand name kind operand c =
        (literalOf operand).elim (none, c) fun v => cmpField name kind v c := by
      unfold cmpOperand
      split
      · next bit found same =>
          exact absurd ⟨of_decide_eq_true same, by simp [found]⟩ typed
      · cases literalOf operand <;> rfl
    rw [untyped, operandCount, if_neg typed]
    cases literalOf operand with
    | none => rfl
    | some v => exact field_sized name kind v c

theorem cmp_preds_sized (args : List Expr) (kind : U8) : Sized (cmpCount args kind) (cmpPreds args kind) := by
  intro c
  rcases args with _ | ⟨left, _ | ⟨right, _ | ⟨third, rest⟩⟩⟩
  · rfl
  · rfl
  · rw [cmpCount, cmpPreds]
    cases identOf left with
    | some name => exact operand_sized name kind right c
    | none =>
        cases identOf right with
        | some name => exact operand_sized name (flipCmp kind) left c
        | none => rfl
  · rfl

theorem neg_attr_preds_length (field : U8) (values : List String) (c : Compiler) :
    (negAttrPreds field values c).1.length = values.length := by
  induction values generalizing c with
  | nil => rfl
  | cons value rest induction => simp [negAttrPreds, induction]

theorem in_preds_sized (args : List Expr) :
    Sized (inCount args false) (inPreds args) ∧ Sized (inCount args true) (negInPreds args) := by
  rcases args with _ | ⟨left, _ | ⟨right, _ | ⟨third, rest⟩⟩⟩
  · exact ⟨fun _ => rfl, fun _ => rfl⟩
  · exact ⟨fun _ => by cases left <;> rfl, fun _ => by cases left <;> rfl⟩
  · cases left with
    | ident name =>
        by_cases typed : name = "ko_type"
        · cases mask : typeMaskOf right <;> constructor <;> intro c <;>
            simp [inCount, inPreds, negInPreds, identOf, typed, mask]
        · cases attr : attrFields name with
          | none =>
              constructor <;> intro c <;> simp [inCount, inPreds, negInPreds, identOf, typed, attr]
          | some field =>
              rcases listed : listOfStrings right with text | _ | ⟨value, others⟩ <;>
                constructor <;> intro c <;>
                simp [inCount, inPreds, negInPreds, identOf, typed, attr, listed, attrPredOne,
                  neg_attr_preds_length]
    | _ => exact ⟨fun _ => rfl, fun _ => rfl⟩
  · exact ⟨fun _ => by cases left <;> rfl, fun _ => by cases left <;> rfl⟩

theorem ip_in_preds_sized (args : List Expr) (neg : U8) :
    Sized (ipInCount args neg) fun c => (ipInPreds args neg, c) := by
  intro c
  unfold ipInCount
  cases built : ipInPreds args neg with
  | none => rfl
  | some preds =>
      obtain ⟨p, rfl, _⟩ := ip_in_preds_kind args neg preds built
      rfl

/-- Whatever the state of the atom table, an expression yields `predCount` predicates. -/
theorem conj_sized : ∀ e, Sized (predCount e) (conj e) ∧ Sized (negPredCount e) (negConj e)
  | .ident _ => ⟨refuse_sized, refuse_sized⟩
  | .literal _ => ⟨refuse_sized, refuse_sized⟩
  | .list _ => ⟨refuse_sized, refuse_sized⟩
  | .other _ => ⟨refuse_sized, refuse_sized⟩
  | .call .logicalAnd (l :: r :: rest) => by
      have left := (conj_sized l).1
      have right := (conj_sized r).1
      rw [conj_and, predCount]
      exact ⟨and_then_sized _ _ _ _ left right, refuse_sized⟩
  | .call .logicalAnd [] => ⟨refuse_sized, refuse_sized⟩
  | .call .logicalAnd [_] => ⟨refuse_sized, refuse_sized⟩
  | .call .logicalNot [] => ⟨refuse_sized, refuse_sized⟩
  | .call .logicalNot (e :: _) => by
      have inner := conj_sized e
      exact ⟨inner.2, inner.1⟩
  | .call .inList args => in_preds_sized args
  | .call .ipIn args => ⟨ip_in_preds_sized args 0, ip_in_preds_sized args 1⟩
  | .call .equals args => ⟨cmp_preds_sized args _, cmp_preds_sized args _⟩
  | .call .notEquals args => ⟨cmp_preds_sized args _, cmp_preds_sized args _⟩
  | .call .less args => ⟨cmp_preds_sized args _, cmp_preds_sized args _⟩
  | .call .lessEquals args => ⟨cmp_preds_sized args _, cmp_preds_sized args _⟩
  | .call .greater args => ⟨cmp_preds_sized args _, cmp_preds_sized args _⟩
  | .call .greaterEquals args => ⟨cmp_preds_sized args _, cmp_preds_sized args _⟩
  | .call (.other _) _ => ⟨refuse_sized, refuse_sized⟩

theorem conj_all_size (es : List Expr) (c : Compiler) (i : Nat) :
    (layout i (conjAll es c).1).length = programSize es := by
  induction es generalizing c i with
  | nil => rfl
  | cons e rest induction =>
      have count := (conj_sized e).1 c
      have head : ((conj e c).1.getD []).length = (predCount e).getD 0 := by
        rw [← count]
        cases (conj e c).1 <;> rfl
      have tail := induction (conj e c).2 (i + 1)
      rw [conjAll, layout, List.length_append, List.length_cons, head, tail]
      simp only [programSize, List.map_cons, List.sum_cons]
      omega

theorem layout_end (results : List (Option (List Pred))) (start i : Nat)
    (result : Option (List Pred)) (position : results[i]? = some result) :
    endMarker (start + i) result.isNone ∈ layout start results := by
  induction results generalizing start i with
  | nil => cases position
  | cons head rest induction =>
      rw [layout]
      cases i with
      | zero =>
          obtain rfl : head = result := by simpa using position
          simp
      | succ i =>
          have later := induction (start + 1) i (by simpa using position)
          rw [show start + 1 + i = start + (i + 1) by omega] at later
          exact List.mem_append_right _ (List.mem_cons_of_mem _ later)

/-- What the kernel receives is the whole stream, with the END marker of every
filter inside the loop bound. -/
structure Untruncated (s : FilterSet) : Prop where
  fits : s.flat.length ≤ maxPreds
  copied : (List.ofFn s.bpfProg.preds).take s.bpfProg.nPreds.toNat = s.flat
  ends : ∀ i userspace, s.userspace[i]? = some userspace →
    ∃ k : Fin maxPreds, k.val < s.bpfProg.nPreds.toNat ∧ s.bpfProg.preds k = endMarker i userspace

theorem bpf_prog_copied (s : FilterSet) (fits : s.flat.length ≤ maxPreds) :
    s.bpfProg.nPreds.toNat = s.flat.length ∧
      (List.ofFn s.bpfProg.preds).take s.bpfProg.nPreds.toNat = s.flat := by
  have bound : s.flat.length ≤ 32 := fits
  have count : s.bpfProg.nPreds.toNat = s.flat.length := by
    rw [FilterSet.bpfProg, BitVec.toNat_ofNat]
    exact Nat.mod_eq_of_lt (by omega)
  refine ⟨count, ?_⟩
  rw [count]
  apply List.ext_getElem
  · rw [List.length_take, List.length_ofFn]
    exact Nat.min_eq_left fits
  · intro k _ inside
    simp [FilterSet.bpfProg, List.getD_eq_getElem?_getD, inside]

theorem program_untruncated_iff (cel : Cel) (cfg : List Config) (s : FilterSet)
    (accepted : compile cel cfg = .ok s) :
    Untruncated s ↔ programSize s.asts ≤ maxPreds := by
  obtain ⟨es, results, c, from_⟩ := compile_spec cel cfg s accepted
  have size : s.flat.length = programSize s.asts := by
    have counted := conj_all_size es Compiler.empty 0
    rw [from_.compiled] at counted
    rw [from_.flat, from_.asts]
    exact counted
  rw [← size]
  constructor
  · exact fun whole => whole.fits
  · intro fits
    obtain ⟨count, copied⟩ := bpf_prog_copied s fits
    refine ⟨fits, copied, ?_⟩
    intro i userspace marked
    rw [from_.userspace, List.getElem?_map] at marked
    obtain ⟨result, position, rfl⟩ := Option.map_eq_some_iff.mp marked
    have member := layout_end results 0 i result position
    rw [Nat.zero_add, ← from_.flat] at member
    obtain ⟨k, inside, found⟩ := List.mem_iff_getElem.mp member
    refine ⟨⟨k, Nat.lt_of_lt_of_le inside fits⟩, by rw [count]; exact inside, ?_⟩
    simp [FilterSet.bpfProg, List.getD_eq_getElem?_getD, inside, found]

/-- `ko_pod not in ["a", …, "a"]`: as many predicates as strings, and a marker. -/
def otherPods (count : Nat) : Expr :=
  .call .logicalNot [.call .inList
    [.ident "ko_pod", .list (List.replicate count (.literal (.string "a")))]]

def otherPodsText (count : Nat) : String :=
  "!(ko_pod in [" ++ ", ".intercalate (List.replicate count "\"a\"") ++ "])"

/-- `!(ko_rtt_us > 1 && ko_rtt_us < 9)`: a negated conjunction stays in user space. -/
def outsideRange : Expr :=
  .call .logicalNot [.call .logicalAnd
    [.call .greater [.ident "ko_rtt_us", .literal (.int 1)],
      .call .less [.ident "ko_rtt_us", .literal (.int 9)]]]

def outsideRangeText : String := "!(ko_rtt_us > 1 && ko_rtt_us < 9)"

def podsCel : Cel :=
  referenceCel [(otherPodsText 30, otherPods 30), (otherPodsText 31, otherPods 31),
    (outsideRangeText, outsideRange)]

def podsFilters (count : Nat) : List Config :=
  [{ name := "pods", expr := otherPodsText count }, { name := "range", expr := outsideRangeText }]

/-- 30 predicates and two markers, of which one is not counted: 32 entries. -/
theorem program_untruncated_full :
    ∃ s, compile podsCel (podsFilters 30) = .ok s ∧ programSize s.asts = maxPreds ∧
      Untruncated s := by
  have counted : (match compile podsCel (podsFilters 30) with
      | .ok s => decide (programSize s.asts = maxPreds)
      | .error _ => false) = true := by decide +kernel
  split at counted
  · rename_i s accepted
    have size := of_decide_eq_true counted
    exact ⟨s, accepted, size,
      (program_untruncated_iff podsCel (podsFilters 30) s accepted).mpr (Nat.le_of_eq size)⟩
  · cases counted

/-- 32 counted entries and one marker that is not counted: 33 entries. -/
theorem program_truncated_by_userspace_marker :
    ∃ s, compile podsCel (podsFilters 31) = .ok s ∧ ¬Untruncated s := by
  have counted : (match compile podsCel (podsFilters 31) with
      | .ok s => decide (maxPreds < s.flat.length)
      | .error _ => false) = true := by decide +kernel
  split at counted
  · rename_i s accepted
    refine ⟨s, accepted, ?_⟩
    intro whole
    exact absurd whole.fits (Nat.not_le_of_lt (of_decide_eq_true counted))
  · cases counted

end KoAgent.ProgramSize
