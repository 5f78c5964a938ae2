import KoAgent.KernelCidr
import KoAgent.ProgramSize

/-!
# The predicate interpreter of `tracer.bpf.c`

`koPred` is one iteration of the loop of `ko_filter_eval`: it either continues
with a new accumulator or returns an answer. `ko_pred_simulates` matches it with
one predicate of `RunPreds`; everything about whole walks follows by induction
over the stream. Shift amounts are reduced modulo the register width, as the
BPF instruction set defines them.
-/

namespace KoAgent.KernelFilter

open KoAgent.FilterModel KoAgent.CelExpression KoAgent.FilterCompiler KoAgent.FilterSets
open KoAgent.CompilerShape KoAgent.CompiledSets KoAgent.ProgramSize KoAgent.KernelCidr
open KoAgent.ReferenceCel
open KoAgent.PredicateMachine hiding cmpField

set_option autoImplicit false

/-- The arguments of `ko_filter_eval`. -/
structure KernelEvent where
  cgroupID : U64 := 0
  rttUS : U32 := 0
  lifeUS : U64 := 0
  retransmits : U32 := 0
  segsOut : U32 := 0
  skErr : U32 := 0
  type : U16 := 0
  family : U16 := afInet
  addrs : SockAddrs := { localIP := fun _ => 0, remoteIP := fun _ => 0 }

/-- The maps `ko_filter_eval` reads. -/
structure FilterMaps where
  cfg : Option U64
  prog : Option Prog
  verdicts : U64 → Option U64

def koField (field : U8) (e : KernelEvent) : U64 :=
  if field = fldRTT then e.rttUS.setWidth 64
  else if field = fldLife then e.lifeUS
  else if field = fldRetrans then e.retransmits.setWidth 64
  else if field = fldSegs then e.segsOut.setWidth 64
  else if field = fldType then (1 : U64) <<< (e.type.toNat % 64)
  else if field = fldErrno then e.skErr.setWidth 64
  else 0

def koCmp (kind : U8) (v val : U64) : Bool :=
  if kind = cmpEq then v == val
  else if kind = cmpNeq then v != val
  else if kind = cmpLt then v < val
  else if kind = cmpLe then v ≤ val
  else if kind = cmpGt then val < v
  else if kind = cmpGe then val ≤ v
  else if kind = cmpIn then v &&& val != 0
  else if kind = cmpNotIn then v &&& val == 0
  else false

inductive Iteration where
  | next (res : Tri)
  | answer (filter : U16)
  deriving DecidableEq

def settle (ok : Bool) (res : Tri) : Iteration := .next (if ok then res else .triFalse)

/-- One iteration; `verdict` is what the map lookup of this iteration returns. -/
def koPred (e : KernelEvent) (verdict : Option U64) (res : Tri) (p : Pred) : Iteration :=
  if p.kind = predCmp then settle (koCmp p.b (koField p.a e) p.val) res
  else if p.kind = predIPSet then
    settle (koIPInSet p.a e.family e.addrs p == (p.b == 0)) res
  else if p.kind = predAttr then
    match verdict with
    | none => .next (if res = .triTrue then .triUnknown else res)
    | some mask => settle (((mask >>> (p.a.toNat % 64)) &&& 1 == 1) == (p.b == 0)) res
  else if p.kind = predEnd then
    if p.b ≠ 0 then .answer filterUndecided
    else
      match res with
      | .triTrue => .answer (p.a.setWidth 16)
      | .triUnknown => .answer filterUndecided
      | .triFalse => .next .triTrue
  else .answer filterUndecided

/-- The bounded loop from iteration `k` on; the array ends at `KO_MAX_PREDS`. -/
def koLoop (e : KernelEvent) (lookup : Nat → Option U64) (npreds : Nat) :
    Nat → Tri → List Pred → U16
  | _, _, [] => filterDrop
  | k, res, p :: rest =>
      if npreds ≤ k then filterDrop
      else
        match koPred e (lookup k) res p with
        | .next res => koLoop e lookup npreds (k + 1) res rest
        | .answer filter => filter

def koFilterEval (maps : FilterMaps) (e : KernelEvent) : U16 :=
  match maps.cfg with
  | none => filterUnfiltered
  | some enabled =>
      if enabled = 0 then filterUnfiltered
      else
        match maps.prog with
        | none => filterUnfiltered
        | some prog =>
            if prog.nFilters = 0 then filterDrop
            else koLoop e (fun _ => maps.verdicts e.cgroupID) prog.nPreds.toNat 0 .triTrue
              (List.ofFn prog.preds)

/-- User space and the kernel look at the same connection. -/
structure SameStats (e : KernelEvent) (ev : Event) : Prop where
  type : ev.type = e.type
  rttUS : ev.rttUS = e.rttUS
  lifeUS : ev.lifeUS = e.lifeUS
  retransmits : ev.retransmits = e.retransmits
  segsOut : ev.segsOut = e.segsOut
  errno : ev.errno = e.skErr

/-- A stream entry as `Compile` lays it out: a test with a known atom, or a marker. -/
def EntryOk (p : Pred) : Prop := PredOk 64 p ∨ (p.kind = predEnd ∧ (p.b = 0 ∨ p.b = 1))

theorem ko_field_event (e : KernelEvent) (ev : Event) (same : SameStats e ev)
    (small : e.type.toNat < 64) (field : U8) : koField field e = eventField field ev := by
  rw [koField, eventField, same.type, same.rttUS, same.lifeUS, same.retransmits, same.segsOut,
    same.errno, Nat.mod_eq_of_lt small]

theorem ko_cmp_field (kind : U8) (v val : U64) :
    koCmp kind v val = PredicateMachine.cmpField kind v val := rfl

theorem settle_next (ok : Bool) (res : Tri) : settle ok res = .next (triAnd res (triOfBool ok)) := by
  cases ok <;> cases res <;> rfl

/-- One test predicate of the kernel walk. -/
theorem ko_pred_test (e : KernelEvent) (ev : Event) (same : SameStats e ev)
    (small : e.type.toNat < 64) (verdict : Option U64) (res : Tri) (p : Pred) (ok : PredOk 64 p)
    (sets : p.kind = predIPSet → koIPInSet p.a e.family e.addrs p = evIPInSet ev p) :
    koPred e verdict res p = .next (triAnd res (predOutcome ev verdict p)) := by
  obtain ⟨test, atom⟩ := ok
  rcases test with kind | kind | kind
  · unfold koPred predOutcome
    rw [if_pos kind, if_pos kind, settle_next, ko_cmp_field,
      ko_field_event e ev same small]
  · have other : ¬p.kind = predCmp := by
      rw [kind]
      decide
    unfold koPred predOutcome
    rw [if_neg other, if_neg other, if_pos kind, if_pos kind, settle_next,
      sets kind]
  · have notCmp : ¬p.kind = predCmp := by
      rw [kind]
      decide
    have notSet : ¬p.kind = predIPSet := by
      rw [kind]
      decide
    unfold koPred predOutcome
    rw [if_neg notCmp, if_neg notCmp, if_neg notSet, if_neg notSet, if_pos kind]
    cases verdict with
    | none => cases res <;> rfl
    | some mask =>
        dsimp only
        rw [settle_next, attrHolds, Nat.mod_eq_of_lt (atom kind)]

theorem ko_pred_end (e : KernelEvent) (verdict : Option U64) (res : Tri) (p : Pred)
    (kind : p.kind = predEnd) :
    koPred e verdict res p =
      if p.b ≠ 0 then .answer filterUndecided
      else match res with
        | .triTrue => .answer (p.a.setWidth 16)
        | .triUnknown => .answer filterUndecided
        | .triFalse => .next .triTrue := by
  have notCmp : ¬p.kind = predCmp := by
    rw [kind]
    decide
  have notSet : ¬p.kind = predIPSet := by
    rw [kind]
    decide
  have notAttr : ¬p.kind = predAttr := by
    rw [kind]
    decide
  unfold koPred
  rw [if_neg notCmp, if_neg notSet, if_neg notAttr, if_pos kind]

/-- One iteration of the kernel loop is one predicate of `RunPreds`. -/
theorem ko_pred_simulates (e : KernelEvent) (ev : Event) (same : SameStats e ev)
    (small : e.type.toNat < 64) (verdict : Option U64) (res : Tri) (p : Pred) (rest : List Pred)
    (ok : EntryOk p)
    (sets : p.kind = predIPSet → koIPInSet p.a e.family e.addrs p = evIPInSet ev p) :
    runPredsFrom ev verdict res (p :: rest) =
      match koPred e verdict res p with
      | .next res => runPredsFrom ev verdict res rest
      | .answer filter => filter := by
  rcases ok with test | ⟨kind, mark⟩
  · rw [run_preds_test ev verdict res p rest test.1, ko_pred_test e ev same small verdict res p test sets]
  · rw [run_preds_end ev verdict res p rest kind, ko_pred_end e verdict res p kind]
    rcases mark with pushed | userspace
    · rw [pushed, if_neg (by decide), if_neg (by decide)]
      cases res <;> rfl
    · rw [userspace, if_pos rfl, if_pos (by decide)]

theorem ko_loop_simulates (e : KernelEvent) (ev : Event) (same : SameStats e ev)
    (small : e.type.toNat < 64) (verdict : Option U64) (npreds k : Nat) (res : Tri)
    (preds : List Pred) (ok : ∀ p ∈ preds.take (npreds - k), EntryOk p)
    (sets : ∀ p ∈ preds.take (npreds - k), p.kind = predIPSet →
      koIPInSet p.a e.family e.addrs p = evIPInSet ev p) :
    koLoop e (fun _ => verdict) npreds k res preds =
      runPredsFrom ev verdict res (preds.take (npreds - k)) := by
  induction preds generalizing k res with
  | nil => simp [koLoop, runPredsFrom]
  | cons p rest induction =>
      rw [koLoop]
      by_cases done : npreds ≤ k
      · rw [if_pos done, Nat.sub_eq_zero_of_le done]
        rfl
      · have left : npreds - k = (npreds - (k + 1)) + 1 := by omega
        rw [left, List.take_succ_cons] at ok sets ⊢
        rw [if_neg done, ko_pred_simulates e ev same small verdict res p _ (ok p List.mem_cons_self)
          (sets p List.mem_cons_self)]
        cases koPred e verdict res p with
        | next res =>
            exact induction (k + 1) res (fun q member => ok q (List.mem_cons_of_mem p member))
              (fun q member => sets q (List.mem_cons_of_mem p member))
        | answer filter => rfl

theorem layout_member (results : List (Option (List Pred))) (i : Nat) (p : Pred)
    (member : p ∈ layout i results) :
    (∃ preds, some preds ∈ results ∧ p ∈ preds) ∨ ∃ j userspace, p = endMarker j userspace := by
  induction results generalizing i with
  | nil => cases member
  | cons result rest induction =>
      rw [layout] at member
      rcases List.mem_append.mp member with test | later
      · cases result with
        | none => cases test
        | some preds => exact Or.inl ⟨preds, List.mem_cons_self, test⟩
      · rcases List.mem_cons.mp later with marker | further
        · exact Or.inr ⟨i, result.isNone, marker⟩
        · rcases induction (i + 1) further with ⟨preds, inside, found⟩ | marker
          · exact Or.inl ⟨preds, List.mem_cons_of_mem result inside, found⟩
          · exact Or.inr marker

theorem compiled_entries_ok (cel : Cel) (cfg : List Config) (s : FilterSet)
    (accepted : compile cel cfg = .ok s) (p : Pred) (member : p ∈ s.flat) : EntryOk p := by
  obtain ⟨es, results, c, from_⟩ := compile_spec cel cfg s accepted
  rw [from_.flat] at member
  rcases layout_member results 0 p member with ⟨preds, inside, found⟩ | ⟨j, userspace, rfl⟩
  · exact Or.inl (pred_ok_mono _ 64 from_.atomBound p (from_.preds_ok preds inside p found))
  · refine Or.inr ⟨rfl, ?_⟩
    cases userspace with
    | false => exact Or.inl rfl
    | true => exact Or.inr rfl

theorem compiled_filter_count (cel : Cel) (cfg : List Config) (s : FilterSet)
    (accepted : compile cel cfg = .ok s) : s.bpfProg.nFilters ≠ 0 := by
  obtain ⟨es, results, c, from_⟩ := compile_spec cel cfg s accepted
  have bound : cfg.length ≤ 32 := from_.filterBound
  have positive : 0 < cfg.length := List.length_pos_of_ne_nil from_.nonempty
  intro zero
  have count := congrArg BitVec.toNat zero
  simp only [FilterSet.bpfProg, from_.names, List.length_map, BitVec.toNat_ofNat,
    show BitVec.toNat (0 : U32) = 0 from rfl] at count
  omega

/-- With filtering enabled, the kernel answers as `RunPreds` does with the mask
the verdict map holds for the event's cgroup. -/
theorem filter_eval_simulates_run_preds (cel : Cel) (cfg : List Config) (s : FilterSet)
    (accepted : compile cel cfg = .ok s) (fits : s.flat.length ≤ maxPreds) (maps : FilterMaps)
    (enabled : U64) (nonzero : enabled ≠ 0) (configured : maps.cfg = some enabled)
    (programmed : maps.prog = some s.bpfProg) (e : KernelEvent) (small : e.type.toNat < 64)
    (ev : Event) (same : SameStats e ev)
    (sets : ∀ p ∈ s.flat, p.kind = predIPSet →
      koIPInSet p.a e.family e.addrs p = evIPInSet ev p) :
    koFilterEval maps e = s.runPreds ev (maps.verdicts e.cgroupID) := by
  obtain ⟨count, copied⟩ := bpf_prog_copied s fits
  have ok := compiled_entries_ok cel cfg s accepted
  have loop := ko_loop_simulates e ev same small (maps.verdicts e.cgroupID) s.bpfProg.nPreds.toNat 0
    .triTrue (List.ofFn s.bpfProg.preds)
  rw [Nat.sub_zero, copied] at loop
  rw [koFilterEval, configured, programmed]
  dsimp only
  rw [if_neg nonzero, if_neg (compiled_filter_count cel cfg s accepted), loop ok sets]
  rfl

/-- `ko_namespace == "" && ko_pod == "b"`. -/
def hostPod : Expr :=
  .call .logicalAnd
    [.call .equals [.ident "ko_namespace", .literal (.string "")],
      .call .equals [.ident "ko_pod", .literal (.string "b")]]

def hostPodFilters : List Config :=
  [{ name := "host", expr := "ko_namespace == \"\" && ko_pod == \"b\"" }]

def hostPodCel : Cel := referenceCel [("ko_namespace == \"\" && ko_pod == \"b\"", hostPod)]

def hostPodPreds : List Pred := [{ kind := predAttr, a := 0 }, { kind := predAttr, a := 1 }]

def hostPodSet : FilterSet where
  names := ["host"]
  asts := [hostPod]
  progs := [evalExpr hostPod]
  atoms := [{ field := attrNamespace, op := attrEq, values := [""] },
    { field := attrPod, op := attrEq, values := ["b"] }]
  preds := [hostPodPreds]
  flat := hostPodPreds ++ [endMarker 0 false]
  userspace := [false]

theorem filter_eval_simulates_host_pod :
    compile hostPodCel hostPodFilters = .ok hostPodSet ∧
      koFilterEval { cfg := some 1, prog := some hostPodSet.bpfProg, verdicts := fun _ => some 3 }
          { type := evtConnClosed } =
        hostPodSet.runPreds { type := evtConnClosed } (some 3) := by
  refine ⟨rfl, ?_⟩
  exact filter_eval_simulates_run_preds hostPodCel hostPodFilters hostPodSet rfl (by decide)
    { cfg := some 1, prog := some hostPodSet.bpfProg, verdicts := fun _ => some 3 } 1 (by decide) rfl
    rfl { type := evtConnClosed } (by decide) { type := evtConnClosed }
    ⟨rfl, rfl, rfl, rfl, rfl, rfl⟩ (by decide)

end KoAgent.KernelFilter
