import KoAgent.AttributeFilters
import KoAgent.VerdictWalk

/-!
# Walks during which the verdict comes and goes

The entry of the event's cgroup may be stored, evicted and stored again while the
kernel walks the predicates, so that some lookups of one walk find it and others
do not. As long as it is always the same mask that is stored, a lookup that finds
nothing only leaves its outcome open: the walk stays ahead of the one that never
finds the entry and behind the one that always does. Wherever these two part, the
first has left the event open, so the walk between them answers like one of them.
A handler may therefore be taken to read the entry once.
-/

namespace KoAgent.TornVerdicts

open KoAgent.FilterModel KoAgent.CelExpression KoAgent.FilterSets KoAgent.ProgramSize
open KoAgent.PushdownRefinement KoAgent.AttributeFilters KoAgent.KernelCidr KoAgent.KernelFilter
open KoAgent.VerdictWalk KoAgent.StepRuns
open KoAgent.PredicateMachine hiding cmpField

set_option autoImplicit false

/-- Only this mask is ever written. -/
def OnlyMask (mask : U64) : WalkStep → Prop
  | .update written => written = mask
  | .advance => True
  | .delete => True

/-- A lookup that finds at most what another one finds. -/
def FindsLess (less more : Option U64) : Prop := less = none ∨ less = more

theorem finds_less_refines (ev : Event) (less more : Option U64) (finds : FindsLess less more)
    (p : Pred) : Refines (predOutcome ev less p) (predOutcome ev more p) := by
  rcases finds with rfl | rfl
  · cases more with
    | none => exact Or.inr rfl
    | some mask => exact pred_outcome_refines ev mask p
  · exact Or.inr rfl

/-- What one iteration of the walk does. -/
theorem advance_cases (e : KernelEvent) (npreds : Nat) (w : Walk) :
    (∃ filter, w.answer = some filter ∧ advance e npreds w = w) ∨
      w.answer = none ∧
        (w.rest.take (npreds - w.k) = [] ∧
            advance e npreds w = { w with answer := some filterDrop } ∨
          ∃ p rest, w.rest = p :: rest ∧
            w.rest.take (npreds - w.k) = p :: rest.take (npreds - (w.k + 1)) ∧
              ((∃ res, koPred e w.entry w.res p = .next res ∧ advance e npreds w =
                  { w with k := w.k + 1, res := res, rest := rest, lookups := noteLookup w p }) ∨
                ∃ filter, koPred e w.entry w.res p = .answer filter ∧
                  advance e npreds w = { w with answer := some filter })) := by
  cases answered : w.answer with
  | some filter => exact Or.inl ⟨filter, rfl, by simp [advance, answered]⟩
  | none =>
      right
      refine ⟨rfl, ?_⟩
      cases remaining : w.rest with
      | nil => exact Or.inl ⟨List.take_nil, by simp [advance, answered, remaining]⟩
      | cons p rest =>
          by_cases done : npreds ≤ w.k
          · left
            rw [Nat.sub_eq_zero_of_le done]
            exact ⟨rfl, by simp [advance, answered, remaining, done]⟩
          · right
            refine ⟨p, rest, rfl, ?_, ?_⟩
            · rw [show npreds - w.k = npreds - (w.k + 1) + 1 by omega, List.take_succ_cons]
            · cases outcome : koPred e w.entry w.res p with
              | next res =>
                  exact Or.inl ⟨res, rfl, by simp [advance, answered, remaining, done, outcome]⟩
              | answer filter =>
                  exact Or.inr ⟨filter, rfl, by simp [advance, answered, remaining, done, outcome]⟩

section Walks

variable (e : KernelEvent) (ev : Event) (npreds : Nat) (flat : List Pred) (mask : U64)

/-- The walk is behind the one that finds the mask at every lookup. -/
structure Behind (w : Walk) : Prop where
  pending : w.answer = none → ∃ more, Refines w.res more ∧
    runPreds flat ev (some mask) = runPredsFrom ev (some mask) more (w.rest.take (npreds - w.k))
  answered : ∀ filter, w.answer = some filter →
    filter = filterUndecided ∨ runPreds flat ev (some mask) = filter

/-- The walk is ahead of the one that finds nothing, which may have left the event
open already. -/
structure Ahead (w : Walk) : Prop where
  pending : w.answer = none → runPreds flat ev none = filterUndecided ∨ ∃ less, Refines less w.res ∧
    runPreds flat ev none = runPredsFrom ev none less (w.rest.take (npreds - w.k))
  answered : ∀ filter, w.answer = some filter →
    runPreds flat ev none = filterUndecided ∨ runPreds flat ev none = filter

/-- Every counted lookup found a state that the entry had during the walk. -/
structure Held (w : Walk) : Prop where
  nonempty : w.held ≠ []
  entry : w.answer = none → w.entry ∈ w.held
  lookups : ∀ l ∈ w.lookups, l.2 ∈ w.held

structure Torn (w : Walk) : Prop where
  entry : FindsLess w.entry (some mask)
  states : ∀ verdict ∈ w.held, FindsLess verdict (some mask)
  sound : Sound e ev npreds flat w
  behind : Behind ev npreds flat mask w
  ahead : Ahead ev npreds flat w
  held : Held w

theorem behind_answered (w : Walk) (filter : U16)
    (decided : filter = filterUndecided ∨ runPreds flat ev (some mask) = filter) :
    Behind ev npreds flat mask { w with answer := some filter } where
  pending := by
    intro given
    cases given
  answered := by
    intro other given
    cases given
    exact decided

theorem ahead_answered (w : Walk) (filter : U16)
    (decided : runPreds flat ev none = filterUndecided ∨ runPreds flat ev none = filter) :
    Ahead ev npreds flat { w with answer := some filter } where
  pending := by
    intro given
    cases given
  answered := by
    intro other given
    cases given
    exact decided

theorem advance_held (w : Walk) (held : Held w) : Held (advance e npreds w) := by
  rcases advance_cases e npreds w with ⟨filter, _, moved⟩ | ⟨open_, step⟩
  · rw [moved]
    exact held
  have answered : ∀ filter, Held { w with answer := some filter } := by
    intro filter
    refine ⟨held.nonempty, ?_, held.lookups⟩
    intro given
    cases given
  rcases step with ⟨_, moved⟩ | ⟨p, rest, _, _, ⟨res, _, moved⟩ | ⟨filter, _, moved⟩⟩
  · rw [moved]
    exact answered filterDrop
  · rw [moved]
    refine ⟨held.nonempty, held.entry, ?_⟩
    intro l member
    dsimp only [noteLookup] at member
    split_ifs at member
    · rcases List.mem_cons.mp member with rfl | earlier
      · exact held.entry open_
      · exact held.lookups l earlier
    · exact held.lookups l member
  · rw [moved]
    exact answered filter

theorem write_torn (w : Walk) (entry : Option U64) (finds : FindsLess entry (some mask))
    (torn : Torn e ev npreds flat mask w) : Torn e ev npreds flat mask (writeEntry entry w) where
  entry := finds
  states := by
    intro verdict member
    dsimp only [writeEntry] at member
    split_ifs at member
    · rcases List.mem_cons.mp member with rfl | earlier
      · exact finds
      · exact torn.states verdict earlier
    · exact torn.states verdict member
  sound := ⟨torn.sound.sane, torn.sound.pending, torn.sound.answered⟩
  behind := ⟨torn.behind.pending, torn.behind.answered⟩
  ahead := ⟨torn.ahead.pending, torn.ahead.answered⟩
  held := by
    refine ⟨?_, ?_, ?_⟩
    · dsimp only [writeEntry]
      split_ifs
      · exact List.cons_ne_nil _ _
      · exact torn.held.nonempty
    · intro open_
      dsimp only [writeEntry] at open_ ⊢
      rw [open_]
      exact List.mem_cons_self
    · intro l member
      have earlier := torn.held.lookups l member
      dsimp only [writeEntry]
      split_ifs
      · exact List.mem_cons_of_mem _ earlier
      · exact earlier

/-- Between a walk that leaves the event open and one that does not, the answer is
that of one of them; and where the entry had only one state, it is that state's. -/
theorem torn_answer (w : Walk) (torn : Torn e ev npreds flat mask w) (answer : U16)
    (answered : w.answer = some answer) : ∃ verdict ∈ w.held, runPreds flat ev verdict = answer := by
  have only : ∀ verdict, (∀ other ∈ w.held, other = verdict) → runPreds flat ev verdict = answer := by
    intro verdict all
    apply torn.sound.answered answer answered verdict
    intro l member
    rw [all l.2 (torn.held.lookups l member)]
  by_cases absent : none ∈ w.held
  · by_cases present : some mask ∈ w.held
    · rcases torn.behind.answered answer answered with undecided | decided
      · refine ⟨none, absent, ?_⟩
        rcases torn.ahead.answered answer answered with open_ | same_
        · rw [open_, undecided]
        · exact same_
      · exact ⟨some mask, present, decided⟩
    · refine ⟨none, absent, only none ?_⟩
      intro other member
      rcases torn.states other member with nothing | found
      · exact nothing
      · rw [found] at member
        exact absurd member present
  · have all : ∀ other ∈ w.held, other = some mask := by
      intro other member
      rcases torn.states other member with nothing | found
      · rw [nothing] at member
        exact absurd member absent
      · exact found
    rcases List.exists_mem_of_ne_nil w.held torn.held.nonempty with ⟨first, member⟩
    have present := all first member
    rw [present] at member
    exact ⟨some mask, member, only (some mask) all⟩

variable (same : SameStats e ev) (small : e.type.toNat < 64)

include same small

/-- One entry of the stream, read by a walk that finds less and by one that finds
more: the first leaves the event open, or both do the same. -/
theorem entries_refine (left right : Option U64) (finds : FindsLess left right) (less more : Tri)
    (refines : Refines less more) (p : Pred) (ok : EntryOk p)
    (sets : p.kind = predIPSet → koIPInSet p.a e.family e.addrs p = evIPInSet ev p) :
    koPred e left less p = .answer filterUndecided ∨
      (∃ filter, koPred e left less p = .answer filter ∧ koPred e right more p = .answer filter) ∨
        ∃ first second, koPred e left less p = .next first ∧ koPred e right more p = .next second ∧
          Refines first second := by
  rcases ok with test | ⟨kind, mark⟩
  · rw [ko_pred_test e ev same small left less p test sets,
      ko_pred_test e ev same small right more p test sets]
    exact Or.inr (Or.inr ⟨_, _, rfl, rfl,
      tri_and_refines _ _ _ _ refines (finds_less_refines ev left right finds p)⟩)
  · rw [ko_pred_end e left less p kind, ko_pred_end e right more p kind]
    by_cases marked : p.b ≠ 0
    · rw [if_pos marked]
      exact Or.inl rfl
    · rw [if_neg marked, if_neg marked]
      rcases refines with rfl | rfl
      · exact Or.inl rfl
      · cases less with
        | triTrue => exact Or.inr (Or.inl ⟨_, rfl, rfl⟩)
        | triUnknown => exact Or.inl rfl
        | triFalse => exact Or.inr (Or.inr ⟨_, _, rfl, rfl, Or.inr rfl⟩)

theorem advance_behind (w : Walk) (entry : FindsLess w.entry (some mask))
    (sane : Sane e ev (w.rest.take (npreds - w.k))) (behind : Behind ev npreds flat mask w) :
    Behind ev npreds flat mask (advance e npreds w) := by
  rcases advance_cases e npreds w with ⟨filter, _, moved⟩ | ⟨open_, step⟩
  · rw [moved]
    exact behind
  rcases behind.pending open_ with ⟨more, refines, reached⟩
  rcases step with ⟨finished, moved⟩ | ⟨p, rest, _, next, step⟩
  · rw [finished] at reached
    rw [moved]
    exact behind_answered ev npreds flat mask w filterDrop (Or.inr reached)
  rw [next] at sane reached
  rcases sane p List.mem_cons_self with ⟨ok, sets⟩
  rw [ko_pred_simulates e ev same small (some mask) more p _ ok sets] at reached
  have compared := entries_refine e ev same small w.entry (some mask) entry w.res more refines p ok
    sets
  rcases step with ⟨res, taken, moved⟩ | ⟨filter, taken, moved⟩
  · rw [taken] at compared
    rcases compared with answers | ⟨filter, answers, _⟩ | ⟨first, second, goes, other, nearer⟩
    · cases answers
    · cases answers
    · cases goes
      rw [other] at reached
      rw [moved]
      constructor
      · intro _
        exact ⟨second, nearer, reached⟩
      · intro filter given
        rw [open_] at given
        cases given
  · rw [taken] at compared
    rw [moved]
    apply behind_answered
    rcases compared with undecided | ⟨answer, goes, other⟩ | ⟨first, second, goes, _⟩
    · cases undecided
      exact Or.inl rfl
    · cases goes
      rw [other] at reached
      exact Or.inr reached
    · cases goes

theorem advance_ahead (w : Walk) (sane : Sane e ev (w.rest.take (npreds - w.k)))
    (ahead : Ahead ev npreds flat w) : Ahead ev npreds flat (advance e npreds w) := by
  rcases advance_cases e npreds w with ⟨filter, _, moved⟩ | ⟨open_, step⟩
  · rw [moved]
    exact ahead
  rcases ahead.pending open_ with undecided | ⟨less, refines, reached⟩
  · exact ⟨fun _ => Or.inl undecided, fun _ _ => Or.inl undecided⟩
  rcases step with ⟨finished, moved⟩ | ⟨p, rest, _, next, step⟩
  · rw [finished] at reached
    rw [moved]
    exact ahead_answered ev npreds flat w filterDrop (Or.inr reached)
  rw [next] at sane reached
  rcases sane p List.mem_cons_self with ⟨ok, sets⟩
  rw [ko_pred_simulates e ev same small none less p _ ok sets] at reached
  rcases entries_refine e ev same small none w.entry (Or.inl rfl) less w.res refines p ok sets with
    answers | ⟨filter, answers, other⟩ | ⟨first, second, goes, other, nearer⟩
  · rw [answers] at reached
    exact ⟨fun _ => Or.inl reached, fun _ _ => Or.inl reached⟩
  · rw [answers] at reached
    rw [other] at step
    rcases step with ⟨res, taken, _⟩ | ⟨chosen, taken, moved⟩
    · cases taken
    · cases taken
      rw [moved]
      exact ahead_answered ev npreds flat w filter (Or.inr reached)
  · rw [goes] at reached
    rw [other] at step
    rcases step with ⟨res, taken, moved⟩ | ⟨chosen, taken, _⟩
    · cases taken
      rw [moved]
      constructor
      · intro _
        exact Or.inr ⟨first, nearer, reached⟩
      · intro filter given
        rw [open_] at given
        cases given
    · cases taken

theorem advance_torn (w : Walk) (torn : Torn e ev npreds flat mask w) :
    Torn e ev npreds flat mask (advance e npreds w) := by
  have kept : (advance e npreds w).entry = w.entry ∧ (advance e npreds w).held = w.held := by
    rcases advance_cases e npreds w with ⟨_, _, moved⟩ | ⟨_, ⟨_, moved⟩ | ⟨_, _, _, _, step⟩⟩
    · rw [moved]
      exact ⟨rfl, rfl⟩
    · rw [moved]
      exact ⟨rfl, rfl⟩
    · rcases step with ⟨_, _, moved⟩ | ⟨_, _, moved⟩
      · rw [moved]
        exact ⟨rfl, rfl⟩
      · rw [moved]
        exact ⟨rfl, rfl⟩
  exact {
    entry := by
      rw [kept.1]
      exact torn.entry
    states := by
      rw [kept.2]
      exact torn.states
    sound := advance_sound e ev same small npreds flat w torn.sound
    behind := advance_behind e ev npreds flat mask same small w torn.entry torn.sound.sane torn.behind
    ahead := advance_ahead e ev npreds flat same small w torn.sound.sane torn.ahead
    held := advance_held e npreds w torn.held }

theorem walk_step_torn (w : Walk) (step : WalkStep) (only : OnlyMask mask step)
    (torn : Torn e ev npreds flat mask w) : Torn e ev npreds flat mask (walkStep e npreds w step) := by
  cases step with
  | advance => exact advance_torn e ev npreds flat mask same small w torn
  | update written =>
      obtain rfl : written = mask := only
      exact write_torn e ev npreds flat written w (some written) (Or.inr rfl) torn
  | delete => exact write_torn e ev npreds flat mask w none (Or.inl rfl) torn

end Walks

def isAdvance : WalkStep → Bool
  | .advance => true
  | .update _ => false
  | .delete => false

/-- Writes cannot keep a walk from its answer: it takes one iteration for each entry
of the stream and one more. -/
theorem walk_answers (e : KernelEvent) (npreds : Nat) (steps : List WalkStep) (w : Walk)
    (unanswered : w.answer = none) (enough : w.rest.length < steps.countP isAdvance) :
    ∃ filter, (run (walkStep e npreds) w steps).answer = some filter := by
  induction steps generalizing w with
  | nil => exact absurd enough (Nat.not_lt_zero _)
  | cons step rest induction =>
      rw [run_cons]
      cases step with
      | update mask =>
          rw [List.countP_cons_of_neg Bool.false_ne_true] at enough
          exact induction _ unanswered enough
      | delete =>
          rw [List.countP_cons_of_neg Bool.false_ne_true] at enough
          exact induction _ unanswered enough
      | advance =>
          rw [List.countP_cons_of_pos rfl] at enough
          have answers : ∀ filter, advance e npreds w = { w with answer := some filter } →
              ∃ filter, (run (walkStep e npreds) (advance e npreds w) rest).answer = some filter := by
            intro filter moved
            exact ⟨filter, answered_stays e npreds _ filter (by rw [moved]) rest⟩
          rcases advance_cases e npreds w with ⟨filter, answered, _⟩ | ⟨_, step⟩
          · rw [unanswered] at answered
            cases answered
          rcases step with ⟨_, moved⟩ | ⟨p, others, remaining, _, ⟨res, _, moved⟩ | ⟨filter, _, moved⟩⟩
          · exact answers filterDrop moved
          · apply induction
            · change (advance e npreds w).answer = none
              rw [moved]
              exact unanswered
            · change (advance e npreds w).rest.length < _
              rw [moved]
              rw [remaining, List.length_cons] at enough
              exact Nat.lt_of_succ_lt_succ enough
          · exact answers filter moved

/-- However often the verdict of the event's cgroup comes and goes during the walk of an
event whose CIDR tests the kernel decides as user space does, the walk answers, and
its answer is that of `RunPreds` with one state that the entry had in the meantime. -/
theorem torn_walk_linearizes (cel : Cel) (cfg : List Config) (set : FilterSet)
    (accepted : compile cel cfg = .ok set) (fits : set.flat.length ≤ maxPreds) (e : KernelEvent)
    (small : e.type.toNat < 64) (ev : Event) (same : SameStats e ev)
    (sets : ∀ p ∈ set.flat, p.kind = predIPSet →
      koIPInSet p.a e.family e.addrs p = evIPInSet ev p)
    (mask : U64) (entry : Option U64) (missing : FindsLess entry (some mask))
    (steps : List WalkStep) (only : ∀ step ∈ steps, OnlyMask mask step)
    (enough : maxPreds < steps.countP isAdvance) :
    let w := run (walkStep e set.bpfProg.nPreds.toNat) (Walk.start set.bpfProg entry) steps
    ∃ answer, w.answer = some answer ∧ ∃ verdict ∈ w.held, set.runPreds ev verdict = answer := by
  rcases bpf_prog_copied set fits with ⟨count, copied⟩
  have stream : (Walk.start set.bpfProg entry).rest.take
      (set.bpfProg.nPreds.toNat - (Walk.start set.bpfProg entry).k) = set.flat := by
    rw [Walk.start, Nat.sub_zero, copied]
  have initial : Torn e ev set.bpfProg.nPreds.toNat set.flat mask (Walk.start set.bpfProg entry) := {
    entry := missing
    states := by
      intro verdict member
      rw [List.mem_singleton.mp member]
      exact missing
    sound := by
      refine ⟨?_, ?_, by simp [Walk.start]⟩
      · rw [stream]
        exact fun p member => ⟨compiled_entries_ok cel cfg set accepted p member, sets p member⟩
      · intro _ verdict _
        rw [stream]
        rfl
    behind := by
      refine ⟨?_, by simp [Walk.start]⟩
      intro _
      rw [stream]
      exact ⟨.triTrue, Or.inr rfl, rfl⟩
    ahead := by
      refine ⟨?_, by simp [Walk.start]⟩
      intro _
      rw [stream]
      exact Or.inr ⟨.triTrue, Or.inr rfl, rfl⟩
    held := ⟨List.cons_ne_nil _ _, fun _ => List.mem_cons_self, by simp [Walk.start]⟩ }
  have torn := invariant_along (walkStep e set.bpfProg.nPreds.toNat) (fun _ => OnlyMask mask) _
    (fun w step allowed =>
      walk_step_torn e ev set.bpfProg.nPreds.toNat set.flat mask same small w step allowed)
    _ initial steps (along_of_steps _ _ _ steps only)
  rcases walk_answers e set.bpfProg.nPreds.toNat steps (Walk.start set.bpfProg entry) rfl
    (by simpa [Walk.start] using enough) with ⟨answer, answered⟩
  exact ⟨answer, answered, torn_answer e ev _ set.flat mask _ torn answer answered⟩

def slowClose : KernelEvent := { type := evtConnClosed, rttUS := 250 }

/-- The verdict is stored between the first two predicates and evicted right after
the second. -/
def passingVerdict : List WalkStep :=
  [.advance, .update (slowProdSet.verdictMask (prodEvent 250).attrs), .advance, .delete] ++
    List.replicate 31 .advance

theorem passing_verdict_linearizes :
    ∃ verdict ∈ (run (walkStep slowClose slowProdSet.bpfProg.nPreds.toNat)
        (Walk.start slowProdSet.bpfProg none) passingVerdict).held,
      slowProdSet.runPreds (prodEvent 250) verdict = 0 := by
  have only : ∀ step ∈ passingVerdict,
      OnlyMask (slowProdSet.verdictMask (prodEvent 250).attrs) step := by
    intro step member
    simp only [passingVerdict, List.cons_append, List.nil_append, List.mem_cons, List.mem_replicate]
      at member
    rcases member with rfl | rfl | rfl | rfl | ⟨-, rfl⟩ <;> trivial
  have answers : (run (walkStep slowClose slowProdSet.bpfProg.nPreds.toNat)
      (Walk.start slowProdSet.bpfProg none) passingVerdict).answer = some 0 := by decide
  rcases torn_walk_linearizes slowProdCel slowProdFilters slowProdSet rfl (by decide) slowClose
    (by decide) (prodEvent 250) ⟨rfl, rfl, rfl, rfl, rfl, rfl⟩ (by decide)
    (slowProdSet.verdictMask (prodEvent 250).attrs) none (Or.inl rfl) passingVerdict only
    (by decide) with ⟨answer, answered, verdict, member, same⟩
  obtain rfl : 0 = answer := Option.some.inj (answers.symm.trans answered)
  exact ⟨verdict, member, same⟩

end KoAgent.TornVerdicts
