import KoAgent.FilterModel
import Mathlib.Tactic.SplitIfs

/-!
# The user-space predicate interpreter of `pkg/filter/vm.go`

`runPredsFrom` is the loop of `RunPreds` with its accumulator. Its four branches
are summarised by two lemmas: a test predicate combines its own three-valued
outcome with the accumulator by Kleene conjunction, and an END marker answers or
starts the next filter. Everything else about the walk is derived from these.
-/

namespace KoAgent.PredicateMachine

open KoAgent.ByteWords KoAgent.NetAddress KoAgent.FilterModel

set_option autoImplicit false

def attrValue (field : U8) (attrs : CgroupAttrs) : String :=
  if field = attrNamespace then attrs.namespaceName
  else if field = attrContainer then attrs.container
  else if field = attrPod then attrs.pod
  else ""

def atomEval (a : Atom) (attrs : CgroupAttrs) : Bool :=
  let v := attrValue a.field attrs
  if a.op = attrEq then v == a.values.headD ""
  else if a.op = attrNeq then v != a.values.headD ""
  else if a.op = attrIn then a.values.any fun x => v == x
  else false

def verdictMaskLoop (attrs : CgroupAttrs) : U64 → Nat → List Atom → U64
  | mask, _, [] => mask
  | mask, i, a :: rest =>
      verdictMaskLoop attrs (if atomEval a attrs then mask ||| ((1 : U64) <<< i) else mask) (i + 1) rest

def verdictMask (atoms : List Atom) (attrs : CgroupAttrs) : U64 := verdictMaskLoop attrs 0 0 atoms

def eventField (f : U8) (ev : Event) : U64 :=
  if f = fldRTT then ev.rttUS.setWidth 64
  else if f = fldLife then ev.lifeUS
  else if f = fldRetrans then ev.retransmits.setWidth 64
  else if f = fldSegs then ev.segsOut.setWidth 64
  else if f = fldType then (1 : U64) <<< ev.type.toNat
  else if f = fldErrno then ev.errno.setWidth 64
  else 0

def cmpField (kind : U8) (a b : U64) : Bool :=
  if kind = cmpEq then a == b
  else if kind = cmpNeq then a != b
  else if kind = cmpLt then a < b
  else if kind = cmpLe then a ≤ b
  else if kind = cmpGt then b < a
  else if kind = cmpGe then b ≤ a
  else if kind = cmpIn then a &&& b != 0
  else if kind = cmpNotIn then a &&& b == 0
  else false

/-- The byte loop and the boundary mask shared by the two matchers. -/
def prefixMatchWithin (maxBits : Nat) (a b : List Byte) (plen : Nat) : Bool :=
  if plen > maxBits then false
  else
    let full := plen / 8
    let rem := plen % 8
    if (List.range full).any fun i => byteAt a i != byteAt b i then false
    else if rem > 0 then
      let m := (0xff : Byte) <<< (8 - rem)
      byteAt a full &&& m == byteAt b full &&& m
    else true

def prefixMatch4 (a b : List Byte) (plen : Nat) : Bool := prefixMatchWithin 32 a b plen

def prefixMatch (a b : List Byte) (plen : Nat) : Bool := prefixMatchWithin 128 a b plen

def evIP (ev : Event) (p : Pred) : IP := if p.a = 1 then ev.remoteIP else ev.localIP

/-- One iteration of the CIDR loop; the other family's entries are skipped. -/
def cidrMatch (ip : IP) (p : Pred) (i : Fin maxIPSet) : Bool :=
  match to4 ip with
  | some four =>
      p.fam i == 4 && prefixMatch4 (List.ofFn (p.addr i)) four (p.plen i).toNat
  | none =>
      p.fam i != 4 && prefixMatch (List.ofFn (p.addr i)) ((to16 ip).getD []) (p.plen i).toNat

def evIPInSet (ev : Event) (p : Pred) : Bool :=
  let ip := evIP ev p
  if ip.length = 0 then false
  else (List.finRange maxIPSet).any fun i => decide (i.val < p.n.toNat) && cidrMatch ip p i

def runPredsFrom (ev : Event) (verdict : Option U64) : Tri → List Pred → U16
  | _, [] => filterDrop
  | res, p :: rest =>
      if p.kind = predCmp then
        runPredsFrom ev verdict
          (if cmpField p.b (eventField p.a ev) p.val then res else .triFalse) rest
      else if p.kind = predIPSet then
        let m := evIPInSet ev p
        runPredsFrom ev verdict (if m != (p.b == 0) then .triFalse else res) rest
      else if p.kind = predAttr then
        match verdict with
        | none => runPredsFrom ev verdict (if res = .triTrue then .triUnknown else res) rest
        | some mask =>
            let bit := (mask >>> p.a.toNat) &&& 1 == 1
            runPredsFrom ev verdict (if bit != (p.b == 0) then .triFalse else res) rest
      else if p.kind = predEnd then
        if p.b = 1 then filterUndecided
        else
          match res with
          | .triTrue => p.a.setWidth 16
          | .triUnknown => filterUndecided
          | .triFalse => runPredsFrom ev verdict .triTrue rest
      else filterUndecided

def runPreds (flat : List Pred) (ev : Event) (verdict : Option U64) : U16 :=
  runPredsFrom ev verdict .triTrue flat

/-- Kleene conjunction: falsity wins over ignorance. -/
def triAnd : Tri → Tri → Tri
  | .triFalse, _ => .triFalse
  | _, .triFalse => .triFalse
  | .triTrue, right => right
  | left, .triTrue => left
  | .triUnknown, .triUnknown => .triUnknown

def triOfBool (value : Bool) : Tri := if value then .triTrue else .triFalse

@[simp] theorem tri_and_true_left (value : Tri) : triAnd .triTrue value = value := by
  cases value <;> rfl

@[simp] theorem tri_and_true_right (value : Tri) : triAnd value .triTrue = value := by
  cases value <;> rfl

@[simp] theorem tri_and_false_right (value : Tri) : triAnd value .triFalse = .triFalse := by
  cases value <;> rfl

theorem tri_and_assoc (first second third : Tri) :
    triAnd (triAnd first second) third = triAnd first (triAnd second third) := by
  cases first <;> cases second <;> cases third <;> rfl

theorem tri_of_bool_and (left right : Bool) :
    triAnd (triOfBool left) (triOfBool right) = triOfBool (left && right) := by
  cases left <;> cases right <;> rfl

/-- The kinds that test something, as opposed to END and unknown codes. -/
def IsTest (p : Pred) : Prop := p.kind = predCmp ∨ p.kind = predIPSet ∨ p.kind = predAttr

instance (p : Pred) : Decidable (IsTest p) := inferInstanceAs (Decidable (_ ∨ _))

def attrHolds (mask : U64) (p : Pred) : Bool := ((mask >>> p.a.toNat) &&& 1 == 1) == (p.b == 0)

/-- What one test predicate says of an event under a known or missing verdict. -/
def predOutcome (ev : Event) (verdict : Option U64) (p : Pred) : Tri :=
  if p.kind = predCmp then triOfBool (cmpField p.b (eventField p.a ev) p.val)
  else if p.kind = predIPSet then triOfBool (evIPInSet ev p == (p.b == 0))
  else match verdict with
    | none => .triUnknown
    | some mask => triOfBool (attrHolds mask p)

def conjOutcome (ev : Event) (verdict : Option U64) : List Pred → Tri
  | [] => .triTrue
  | p :: rest => triAnd (predOutcome ev verdict p) (conjOutcome ev verdict rest)

def predHolds (ev : Event) (mask : U64) (p : Pred) : Bool :=
  if p.kind = predCmp then cmpField p.b (eventField p.a ev) p.val
  else if p.kind = predIPSet then evIPInSet ev p == (p.b == 0)
  else attrHolds mask p

def predsHold (ev : Event) (mask : U64) (preds : List Pred) : Bool := preds.all (predHolds ev mask)

theorem run_preds_test (ev : Event) (verdict : Option U64) (res : Tri) (p : Pred)
    (rest : List Pred) (test : IsTest p) :
    runPredsFrom ev verdict res (p :: rest) =
      runPredsFrom ev verdict (triAnd res (predOutcome ev verdict p)) rest := by
  rcases test with kind | kind | kind
  · simp only [runPredsFrom, predOutcome, kind, if_true]
    cases cmpField p.b (eventField p.a ev) p.val <;> simp [triOfBool]
  · simp only [runPredsFrom, predOutcome, kind, show predIPSet ≠ predCmp by decide, if_false, if_true]
    cases evIPInSet ev p <;> cases p.b == 0 <;> simp [triOfBool]
  · simp only [runPredsFrom, predOutcome, kind, show predAttr ≠ predCmp by decide,
      show predAttr ≠ predIPSet by decide, if_false, if_true]
    cases verdict with
    | none => cases res <;> rfl
    | some mask =>
        dsimp only [attrHolds]
        cases mask >>> p.a.toNat &&& 1 == 1 <;> cases p.b == 0 <;> simp [triOfBool]

theorem run_preds_end (ev : Event) (verdict : Option U64) (res : Tri) (p : Pred)
    (rest : List Pred) (kind : p.kind = predEnd) :
    runPredsFrom ev verdict res (p :: rest) =
      if p.b = 1 then filterUndecided
      else match res with
        | .triTrue => p.a.setWidth 16
        | .triUnknown => filterUndecided
        | .triFalse => runPredsFrom ev verdict .triTrue rest := by
  simp only [runPredsFrom, kind, show predEnd ≠ predCmp by decide,
    show predEnd ≠ predIPSet by decide, show predEnd ≠ predAttr by decide, if_false, if_true]

theorem run_preds_tests (ev : Event) (verdict : Option U64) (res : Tri) (tests rest : List Pred)
    (all : ∀ p ∈ tests, IsTest p) :
    runPredsFrom ev verdict res (tests ++ rest) =
      runPredsFrom ev verdict (triAnd res (conjOutcome ev verdict tests)) rest := by
  induction tests generalizing res with
  | nil => simp [conjOutcome]
  | cons p tests induction =>
      rw [List.cons_append, run_preds_test ev verdict res p _ (all p List.mem_cons_self),
        induction _ fun other member => all other (List.mem_cons_of_mem _ member),
        conjOutcome, tri_and_assoc]

theorem pred_outcome_known (ev : Event) (mask : U64) (p : Pred) :
    predOutcome ev (some mask) p = triOfBool (predHolds ev mask p) := by
  unfold predOutcome predHolds
  split_ifs <;> rfl

theorem conj_outcome_known (ev : Event) (mask : U64) (preds : List Pred) :
    conjOutcome ev (some mask) preds = triOfBool (predsHold ev mask preds) := by
  induction preds with
  | nil => rfl
  | cons p rest induction =>
      rw [conjOutcome, induction, pred_outcome_known, tri_of_bool_and]
      rfl

theorem preds_hold_append (ev : Event) (mask : U64) (left right : List Pred) :
    predsHold ev mask (left ++ right) = (predsHold ev mask left && predsHold ev mask right) := by
  simp [predsHold]

theorem one_shifted_bit (start index : Nat) (inside : index < 64) :
    ((1 : U64) <<< start).getLsbD index = decide (index = start) := by
  rw [BitVec.getLsbD_shiftLeft]
  rcases Nat.lt_trichotomy index start with below | same | above
  · simp [below, show index ≠ start by omega]
  · subst same
    simp [inside]
  · simp [inside, show ¬index < start by omega, show index ≠ start by omega,
      show index - start ≠ 0 by omega]

theorem verdict_mask_loop_bit (attrs : CgroupAttrs) (mask : U64) (start : Nat) (atoms : List Atom)
    (index : Nat) (inside : index < 64) :
    (verdictMaskLoop attrs mask start atoms).getLsbD index =
      (mask.getLsbD index ||
        (decide (start ≤ index) && (atoms[index - start]?).elim false fun a => atomEval a attrs)) := by
  induction atoms generalizing mask start with
  | nil => simp [verdictMaskLoop]
  | cons a rest induction =>
      rw [verdictMaskLoop, induction]
      have added : (if atomEval a attrs then mask ||| ((1 : U64) <<< start) else mask).getLsbD index =
          (mask.getLsbD index || (decide (index = start) && atomEval a attrs)) := by
        cases atomEval a attrs
        · simp
        · simp only [if_true, Bool.and_true, BitVec.getLsbD_or, one_shifted_bit start index inside]
      rw [added]
      rcases Nat.lt_trichotomy index start with below | same | above
      · simp [show ¬start ≤ index by omega, show ¬start + 1 ≤ index by omega,
          show index ≠ start by omega]
      · subst same
        simp
      · obtain ⟨offset, rfl⟩ : ∃ offset, index = start + 1 + offset := ⟨index - start - 1, by omega⟩
        simp [show start ≤ start + 1 + offset by omega, show start + 1 + offset - start = offset + 1 by omega,
          show ¬(start + 1 + offset = start) by omega]

/-- Bit `index` of the verdict is the value of atom `index`. -/
theorem verdict_mask_bit (atoms : List Atom) (attrs : CgroupAttrs) (index : Nat)
    (inside : index < 64) :
    (verdictMask atoms attrs).getLsbD index =
      (atoms[index]?).elim false fun a => atomEval a attrs := by
  rw [verdictMask, verdict_mask_loop_bit attrs 0 0 atoms index inside]
  simp

theorem shifted_bit (mask : U64) (index : Nat) :
    ((mask >>> index) &&& 1 == 1) = mask.getLsbD index := by
  have value : (mask >>> index) &&& 1 = (BitVec.ofBool (mask.getLsbD index)).setWidth 64 := by
    apply BitVec.eq_of_getLsbD_eq
    intro bit inside
    by_cases low : bit = 0
    · subst low
      simp
    · simp [low]
  rw [value]
  cases mask.getLsbD index <;> decide

end KoAgent.PredicateMachine
