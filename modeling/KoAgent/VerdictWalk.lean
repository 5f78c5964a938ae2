import KoAgent.KernelFilter
import KoAgent.StepRuns

/-!
# The predicate walk against a changing verdict map

`ko_filter_eval` looks the verdict of the event's cgroup up once for every
attribute predicate, and user space may update or delete the entry in between.
A walk is the kernel loop taken one iteration at a time, interleaved with such
writes. The ghost fields record the states the entry had during the walk and the
lookups whose outcome counts: those made while the conjunction is not yet false.
-/

namespace KoAgent.VerdictWalk

open KoAgent.FilterModel KoAgent.CelExpression KoAgent.FilterCompiler KoAgent.FilterSets
open KoAgent.CompilerShape KoAgent.ProgramSize KoAgent.KernelCidr KoAgent.KernelFilter
open KoAgent.StepRuns
open KoAgent.PredicateMachine hiding cmpField

set_option autoImplicit false

inductive WalkStep where
  | advance
  | update (mask : U64)
  | delete

structure Walk where
  k : Nat
  res : Tri
  rest : List Pred
  answer : Option U16
  entry : Option U64
  held : List (Option U64)
  lookups : List (Pred × Option U64)

def Walk.start (prog : Prog) (entry : Option U64) : Walk where
  k := 0
  res := .triTrue
  rest := List.ofFn prog.preds
  answer := none
  entry := entry
  held := [entry]
  lookups := []

def noteLookup (w : Walk) (p : Pred) : List (Pred × Option U64) :=
  if p.kind = predAttr ∧ w.res ≠ .triFalse then (p, w.entry) :: w.lookups else w.lookups

def advance (e : KernelEvent) (npreds : Nat) (w : Walk) : Walk :=
  match w.answer with
  | some _ => w
  | none =>
      match w.rest with
      | [] => { w with answer := some filterDrop }
      | p :: rest =>
          if npreds ≤ w.k then { w with answer := some filterDrop }
          else
            match koPred e w.entry w.res p with
            | .next res =>
                { w with k := w.k + 1, res := res, rest := rest, lookups := noteLookup w p }
            | .answer filter => { w with answer := some filter }

/-- A write of the entry; it counts as held while the walk has not answered. -/
def writeEntry (entry : Option U64) (w : Walk) : Walk :=
  { w with
    entry := entry
    held := if w.answer.isNone then entry :: w.held else w.held }

def walkStep (e : KernelEvent) (npreds : Nat) (w : Walk) : WalkStep → Walk
  | .advance => advance e npreds w
  | .update mask => writeEntry (some mask) w
  | .delete => writeEntry none w

theorem answered_stays (e : KernelEvent) (npreds : Nat) (w : Walk) (filter : U16)
    (answered : w.answer = some filter) (steps : List WalkStep) :
    (run (walkStep e npreds) w steps).answer = some filter := by
  apply invariant_run (walkStep e npreds) (fun w => w.answer = some filter) ?_ w answered
  intro w step answered
  cases step <;> simp [walkStep, advance, writeEntry, answered]

/-- Without writes the walk computes what the loop computes. -/
theorem quiet_walk_answers (e : KernelEvent) (npreds : Nat) (rest : List Pred) (w : Walk)
    (remaining : w.rest = rest) (unanswered : w.answer = none) :
    (run (walkStep e npreds) w (List.replicate (rest.length + 1) .advance)).answer =
      some (koLoop e (fun _ => w.entry) npreds w.k w.res rest) := by
  induction rest generalizing w with
  | nil => simp [walkStep, advance, unanswered, remaining, koLoop]
  | cons p rest induction =>
      rw [List.length_cons, List.replicate_succ, run_cons, koLoop]
      by_cases done : npreds ≤ w.k
      · rw [if_pos done]
        apply answered_stays
        simp [walkStep, advance, unanswered, remaining, done]
      · rw [if_neg done]
        cases outcome : koPred e w.entry w.res p with
        | next res =>
            have step : walkStep e npreds w .advance =
                { w with k := w.k + 1, res := res, rest := rest, lookups := noteLookup w p } := by
              simp [walkStep, advance, unanswered, remaining, done, outcome]
            rw [step]
            exact induction _ rfl unanswered
        | answer filter =>
            apply answered_stays
            simp [walkStep, advance, unanswered, remaining, done, outcome]

/-- What the walk needs of the entries it has still to visit. -/
def Sane (e : KernelEvent) (ev : Event) (preds : List Pred) : Prop :=
  ∀ p ∈ preds, EntryOk p ∧
    (p.kind = predIPSet → koIPInSet p.a e.family e.addrs p = evIPInSet ev p)

/-- A verdict that gives every counted lookup the outcome it had. -/
def Explains (ev : Event) (verdict : Option U64) (lookups : List (Pred × Option U64)) : Prop :=
  ∀ l ∈ lookups, predOutcome ev verdict l.1 = predOutcome ev l.2 l.1

/-- For every verdict that explains the lookups so far, `RunPreds` is where the walk is. -/
structure Sound (e : KernelEvent) (ev : Event) (npreds : Nat) (flat : List Pred) (w : Walk) :
    Prop where
  sane : Sane e ev (w.rest.take (npreds - w.k))
  pending : w.answer = none → ∀ verdict, Explains ev verdict w.lookups →
    runPreds flat ev verdict = runPredsFrom ev verdict w.res (w.rest.take (npreds - w.k))
  answered : ∀ filter, w.answer = some filter → ∀ verdict, Explains ev verdict w.lookups →
    runPreds flat ev verdict = filter

section Simulation

variable (e : KernelEvent) (ev : Event) (same : SameStats e ev) (small : e.type.toNat < 64)
variable (npreds : Nat) (flat : List Pred)

include same small

/-- The iteration reads the verdict only for attribute predicates, and its outcome
matters only while the conjunction is not false. -/
theorem ko_pred_verdict (first second : Option U64) (res : Tri) (p : Pred) (ok : EntryOk p)
    (sets : p.kind = predIPSet → koIPInSet p.a e.family e.addrs p = evIPInSet ev p)
    (alike : p.kind = predAttr ∧ res ≠ .triFalse → predOutcome ev first p = predOutcome ev second p) :
    koPred e first res p = koPred e second res p := by
  rcases ok with test | ⟨kind, _⟩
  · rw [ko_pred_test e ev same small first res p test sets,
      ko_pred_test e ev same small second res p test sets]
    by_cases attr : p.kind = predAttr
    · by_cases falsified : res = .triFalse
      · rw [falsified]
        rfl
      · rw [alike ⟨attr, falsified⟩]
    · have fixed : predOutcome ev first p = predOutcome ev second p := by
        rcases test.1 with kind | kind | kind
        · unfold predOutcome
          rw [if_pos kind, if_pos kind]
        · unfold predOutcome
          rw [if_pos kind, if_pos kind]
        · exact absurd kind attr
      rw [fixed]
  · rw [ko_pred_end e first res p kind, ko_pred_end e second res p kind]

theorem answering_entry (verdict : Option U64) (res : Tri) (p : Pred) (ok : EntryOk p)
    (sets : p.kind = predIPSet → koIPInSet p.a e.family e.addrs p = evIPInSet ev p)
    (filter : U16) (answers : koPred e verdict res p = .answer filter) : p.kind ≠ predAttr := by
  rcases ok with test | ⟨kind, _⟩
  · rw [ko_pred_test e ev same small verdict res p test sets] at answers
    cases answers
  · rw [kind]
    decide

/-- A verdict that also explains this iteration's lookup takes the branch taken here. -/
theorem branch_taken (w : Walk) (sound : Sound e ev npreds flat w) (unanswered : w.answer = none)
    (p : Pred) (rest : List Pred) (remaining : w.rest = p :: rest) (inside : w.k < npreds)
    (verdict : Option U64) (explains : Explains ev verdict (noteLookup w p)) :
    runPreds flat ev verdict =
      match koPred e w.entry w.res p with
      | .next res => runPredsFrom ev verdict res (rest.take (npreds - (w.k + 1)))
      | .answer filter => filter := by
  have pending := sound.pending unanswered verdict
  have sane := sound.sane
  rw [remaining, show npreds - w.k = npreds - (w.k + 1) + 1 by omega, List.take_succ_cons]
    at pending sane
  obtain ⟨ok, sets⟩ := sane p List.mem_cons_self
  have earlier : Explains ev verdict w.lookups := by
    intro l member
    apply explains
    unfold noteLookup
    split_ifs
    · exact List.mem_cons_of_mem _ member
    · exact member
  have alike : koPred e verdict w.res p = koPred e w.entry w.res p := by
    apply ko_pred_verdict e ev same small verdict w.entry w.res p ok sets
    intro counted
    apply explains (p, w.entry)
    rw [noteLookup, if_pos counted]
    exact List.mem_cons_self
  rewrite [pending earlier, ko_pred_simulates e ev same small verdict w.res p _ ok sets, alike]
  cases koPred e w.entry w.res p <;> rfl

theorem advance_sound (w : Walk) (sound : Sound e ev npreds flat w) :
    Sound e ev npreds flat (advance e npreds w) := by
  cases unanswered : w.answer with
  | some filter =>
      rw [show advance e npreds w = w by simp [advance, unanswered]]
      exact sound
  | none =>
      have dropped : w.rest.take (npreds - w.k) = [] → Sound e ev npreds flat
          { w with answer := some filterDrop } := by
        intro finished
        refine ⟨sound.sane, by simp, ?_⟩
        intro filter given verdict explains
        obtain rfl := Option.some.inj given
        rw [sound.pending unanswered verdict explains, finished]
        rfl
      cases remaining : w.rest with
      | nil =>
          rw [show advance e npreds w = { w with answer := some filterDrop } by
            simp [advance, unanswered, remaining]]
          exact dropped (by rw [remaining, List.take_nil])
      | cons p rest =>
          by_cases done : npreds ≤ w.k
          · rw [show advance e npreds w = { w with answer := some filterDrop } by
              simp [advance, unanswered, remaining, done]]
            exact dropped (by rw [Nat.sub_eq_zero_of_le done, List.take_zero])
          · have inside : w.k < npreds := Nat.lt_of_not_le done
            have branch := branch_taken e ev same small npreds flat w sound unanswered p rest
              remaining inside
            have sane := sound.sane
            rw [remaining, show npreds - w.k = npreds - (w.k + 1) + 1 by omega, List.take_succ_cons]
              at sane
            obtain ⟨ok, sets⟩ := sane p List.mem_cons_self
            cases outcome : koPred e w.entry w.res p with
            | next res =>
                rw [show advance e npreds w =
                    { w with k := w.k + 1, res := res, rest := rest, lookups := noteLookup w p } by
                  simp [advance, unanswered, remaining, done, outcome]]
                refine ⟨fun q member => sane q (List.mem_cons_of_mem p member), ?_, ?_⟩
                · intro _ verdict explains
                  rw [branch verdict explains, outcome]
                · intro filter given
                  rw [unanswered] at given
                  cases given
            | answer filter =>
                rw [show advance e npreds w = { w with answer := some filter } by
                  simp [advance, unanswered, remaining, done, outcome]]
                refine ⟨sound.sane, by simp, ?_⟩
                intro other given verdict explains
                obtain rfl := Option.some.inj given
                have unread := answering_entry e ev same small w.entry w.res p ok sets filter outcome
                rw [branch verdict (by simpa [noteLookup, unread] using explains), outcome]

theorem walk_step_sound (w : Walk) (step : WalkStep) (sound : Sound e ev npreds flat w) :
    Sound e ev npreds flat (walkStep e npreds w step) := by
  cases step with
  | advance => exact advance_sound e ev same small npreds flat w sound
  | update mask => exact ⟨sound.sane, sound.pending, sound.answered⟩
  | delete => exact ⟨sound.sane, sound.pending, sound.answered⟩

end Simulation

/-- In every interleaving of the walk with writes of the entry: when one state the
entry had during the walk gives each counted lookup the outcome it had, the
answer is that of `RunPreds` with one such state. -/
theorem walk_answers_with_one_verdict (cel : Cel) (cfg : List Config) (s : FilterSet)
    (accepted : compile cel cfg = .ok s) (fits : s.flat.length ≤ maxPreds) (e : KernelEvent)
    (small : e.type.toNat < 64) (ev : Event) (same : SameStats e ev)
    (sets : ∀ p ∈ s.flat, p.kind = predIPSet →
      koIPInSet p.a e.family e.addrs p = evIPInSet ev p)
    (entry : Option U64) (steps : List WalkStep) (w : Walk)
    (reached : w = run (walkStep e s.bpfProg.nPreds.toNat) (Walk.start s.bpfProg entry) steps)
    (answer : U16) (answered : w.answer = some answer)
    (explained : ∃ verdict ∈ w.held, Explains ev verdict w.lookups) :
    ∃ verdict ∈ w.held, s.runPreds ev verdict = answer := by
  obtain ⟨count, copied⟩ := bpf_prog_copied s fits
  have initial : Sound e ev s.bpfProg.nPreds.toNat s.flat (Walk.start s.bpfProg entry) := by
    refine ⟨?_, ?_, by simp [Walk.start]⟩
    · intro p member
      rw [Walk.start, Nat.sub_zero, copied] at member
      exact ⟨compiled_entries_ok cel cfg s accepted p member, sets p member⟩
    · intro _ verdict _
      rw [Walk.start, Nat.sub_zero, copied]
      rfl
  have sound : Sound e ev s.bpfProg.nPreds.toNat s.flat w := by
    rw [reached]
    exact invariant_run (walkStep e s.bpfProg.nPreds.toNat) _
      (walk_step_sound e ev same small s.bpfProg.nPreds.toNat s.flat) _ initial steps
  obtain ⟨verdict, held, explains⟩ := explained
  exact ⟨verdict, held, sound.answered answer answered verdict explains⟩

def closedEvent : KernelEvent := { type := evtConnClosed }

/-- The walk of the host filter, with the entry rewritten after the first lookup. -/
def rewrittenWalk (before after : U64) : Walk :=
  run (walkStep closedEvent hostPodSet.bpfProg.nPreds.toNat)
    (Walk.start hostPodSet.bpfProg (some before)) [.advance, .update after, .advance, .advance]

theorem walk_answers_with_one_verdict_rewritten :
    compile hostPodCel hostPodFilters = .ok hostPodSet ∧ (rewrittenWalk 3 7).answer = some 0 ∧
      ∃ verdict ∈ (rewrittenWalk 3 7).held,
        hostPodSet.runPreds { type := evtConnClosed } verdict = 0 := by
  refine ⟨rfl, by decide, ?_⟩
  exact walk_answers_with_one_verdict hostPodCel hostPodFilters hostPodSet rfl (by decide)
    closedEvent (by decide) { type := evtConnClosed } ⟨rfl, rfl, rfl, rfl, rfl, rfl⟩ (by decide)
    (some 3) [.advance, .update 7, .advance, .advance] (rewrittenWalk 3 7) rfl 0 (by decide)
    ⟨some 7, by decide, by
      unfold Explains
      decide⟩

/-- The entry is first the mask of unknown attributes and then that of pod `b` in
namespace `prod`: the walk matches, and neither state would. -/
theorem walk_mixes_two_verdicts :
    compile hostPodCel hostPodFilters = .ok hostPodSet ∧
      (rewrittenWalk (hostPodSet.verdictMask {})
        (hostPodSet.verdictMask { namespaceName := "prod", pod := "b" })).answer = some 0 ∧
      ¬∃ verdict ∈ (rewrittenWalk (hostPodSet.verdictMask {})
          (hostPodSet.verdictMask { namespaceName := "prod", pod := "b" })).held,
        hostPodSet.runPreds { type := evtConnClosed } verdict = 0 :=
  ⟨rfl, by decide, by decide⟩

end KoAgent.VerdictWalk
