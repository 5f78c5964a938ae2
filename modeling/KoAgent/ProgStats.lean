import Mathlib.Algebra.GroupWithZero.Nat
import Mathlib.Algebra.Order.BigOperators.Group.List
import Mathlib.Algebra.Order.Group.Nat
import KoAgent.FilterModel
import KoAgent.FloatCounters
import KoAgent.KeyedTables
import KoAgent.StepRuns

/-!
# Program statistics of `pkg/tracer/progstats.go`

`trackProgStats` compares each snapshot of the loaded programs with the one
before and adds the differences to two counters a label, until a snapshot fails
or the tracer stops. `Runtime` is a signed duration and `RunCount` an unsigned
count, and both differences pass the same guard `d > 0` and the same conversion
to `float64`. The counters of the metrics package are a parameter.
-/

namespace KoAgent.ProgStats

open KoAgent.FilterModel KoAgent.FloatCounters KoAgent.KeyedTables KoAgent.StepRuns

set_option autoImplicit false

abbrev ProgramID := U32

structure Label where
  name : String
  tag : String
  type : String
  deriving DecidableEq

/-- `runtime` is a `time.Duration`: a signed number in 64 bits. -/
structure ProgSample where
  name : String
  tag : String
  type : String
  runtime : BitVec 64
  runCount : U64

def ProgSample.label (s : ProgSample) : Label where
  name := s.name
  tag := s.tag
  type := s.type

/-- A map from program ids to samples, in the order of one iteration over it. -/
structure Snapshot where
  samples : List (ProgramID × ProgSample)
  distinct : (samples.map Prod.fst).Nodup

def Snapshot.empty : Snapshot where
  samples := []
  distinct := List.nodup_nil

def Snapshot.find (snapshot : Snapshot) (id : ProgramID) : Option ProgSample :=
  snapshot.samples.lookup id

/-- A program that the walk over the ids meets. It may be gone before it is opened,
and reading its info or its statistics may fail. -/
structure Visited where
  id : ProgramID
  opened : Bool
  info : Option Label
  stats : Option (BitVec 64 × U64)

def Visited.sample (program : Visited) : Option (ProgramID × ProgSample) :=
  if program.opened then
    match program.info, program.stats with
    | some info, some stats =>
        some (program.id,
          { name := info.name, tag := info.tag, type := info.type, runtime := stats.1,
            runCount := stats.2 })
    | _, _ => none
  else none

theorem visited_sample_id (program : Visited) (entry : ProgramID × ProgSample)
    (read : program.sample = some entry) : entry.1 = program.id := by
  unfold Visited.sample at read
  split at read
  · split at read
    · cases read
      rfl
    · cases read
  · cases read

/-- `ProgramGetNextID` answers with the next larger id, so the ids ascend. -/
def snapshotProgStats (visited : List Visited)
    (ascending : visited.Pairwise fun left right => left.id.toNat < right.id.toNat) : Snapshot where
  samples := visited.filterMap Visited.sample
  distinct := by
    apply ascending_nodup BitVec.toNat
    rw [List.pairwise_map, List.pairwise_filterMap]
    apply ascending.imp
    intro left right less first readFirst second readSecond
    rw [visited_sample_id left first readFirst, visited_sample_id right second readSecond]
    exact less

structure Tracker (Metric : Type) where
  last : ProgramID → Option ProgSample
  progRuntime : Label → Metric
  progRuns : Label → Metric

section Tracking

variable {Metric : Type} (counter : Counter Metric)

def Tracker.start : Tracker Metric where
  last := fun _ => none
  progRuntime := fun _ => counter.start
  progRuns := fun _ => counter.start

/-- `WithLabelValues` and `Add(float64(d))`. -/
def add (metrics : Label → Metric) (label : Label) (d : Nat) : Label → Metric :=
  Function.update metrics label (counter.add (metrics label) (toFloat64 d))

/-- The two differences of the loop body. -/
def addDifferences (t : Tracker Metric) (prev s : ProgSample) : Tracker Metric :=
  let t :=
    if 0 < (s.runtime - prev.runtime).toInt then
      { t with
        progRuntime := add counter t.progRuntime s.label (s.runtime - prev.runtime).toInt.toNat }
    else t
  if 0 < (s.runCount - prev.runCount).toNat then
    { t with progRuns := add counter t.progRuns s.label (s.runCount - prev.runCount).toNat }
  else t

def visit (t : Tracker Metric) (entry : ProgramID × ProgSample) : Tracker Metric :=
  let t :=
    match t.last entry.1 with
    | some prev => addDifferences counter t prev entry.2
    | none => t
  { t with last := Function.update t.last entry.1 (some entry.2) }

/-- The loop that deletes the ids missing in the snapshot. -/
def prune (last : ProgramID → Option ProgSample) (cur : Snapshot) : ProgramID → Option ProgSample :=
  fun id => if (cur.find id).isSome then last id else none

/-- One tick of `trackProgStats` with the snapshot it takes. -/
def trackRound (t : Tracker Metric) (cur : Snapshot) : Tracker Metric :=
  let t := cur.samples.foldl (visit counter) t
  { t with last := prune t.last cur }

/-- What the loop body adds for a program that was in the last snapshot. -/
def runtimeAdded (prev s : ProgSample) : Nat := (s.runtime - prev.runtime).toInt.toNat

def runsAdded (prev s : ProgSample) : Nat := (s.runCount - prev.runCount).toNat

/-- A difference behind the guard. -/
def gain (metrics : Label → Metric) (label : Label) (d : Nat) : Label → Metric :=
  if 0 < d then add counter metrics label d else metrics

theorem gain_nothing (metrics : Label → Metric) (label : Label) :
    gain counter metrics label 0 = metrics := rfl

theorem gain_other (metrics : Label → Metric) (label other : Label) (d : Nat)
    (different : label ≠ other) : gain counter metrics label d other = metrics other := by
  unfold gain add
  split
  · exact Function.update_of_ne (Ne.symm different) _ _
  · rfl

theorem add_differences_eq (t : Tracker Metric) (prev s : ProgSample) :
    addDifferences counter t prev s =
      { last := t.last
        progRuntime := gain counter t.progRuntime s.label (runtimeAdded prev s)
        progRuns := gain counter t.progRuns s.label (runsAdded prev s) } := by
  have runtime : 0 < (s.runtime - prev.runtime).toInt ↔ 0 < runtimeAdded prev s := by
    unfold runtimeAdded
    omega
  have runs : 0 < (s.runCount - prev.runCount).toNat ↔ 0 < runsAdded prev s := Iff.rfl
  simp only [addDifferences, gain, runtime, runs]
  split_ifs <;> rfl

theorem visit_eq (t : Tracker Metric) (entry : ProgramID × ProgSample) :
    visit counter t entry =
      { last := Function.update t.last entry.1 (some entry.2)
        progRuntime := gain counter t.progRuntime entry.2.label
          ((t.last entry.1).elim 0 (runtimeAdded · entry.2))
        progRuns := gain counter t.progRuns entry.2.label
          ((t.last entry.1).elim 0 (runsAdded · entry.2)) } := by
  unfold visit
  cases t.last entry.1 with
  | none => rfl
  | some prev =>
      dsimp only
      rw [add_differences_eq, Option.elim_some, Option.elim_some]

end Tracking

/-- The sum of an amount over the entries with a label. -/
def labelSum (label : Label) (amount : ProgramID × ProgSample → Nat)
    (entries : List (ProgramID × ProgSample)) : Nat :=
  (entries.map fun entry => if entry.2.label = label then amount entry else 0).sum

theorem label_sum_congr (label : Label) (amount other : ProgramID × ProgSample → Nat)
    (entries : List (ProgramID × ProgSample))
    (same : ∀ entry ∈ entries, amount entry = other entry) :
    labelSum label amount entries = labelSum label other entries := by
  unfold labelSum
  congr 1
  apply List.map_congr_left
  intro entry member
  rw [same entry member]

theorem label_sum_absent (label : Label) (amount : ProgramID × ProgSample → Nat)
    (entries : List (ProgramID × ProgSample))
    (absent : ∀ entry ∈ entries, entry.2.label ≠ label) : labelSum label amount entries = 0 := by
  rw [labelSum, List.sum_eq_zero_iff_forall_eq_nat]
  intro term member
  obtain ⟨entry, inside, rfl⟩ := List.mem_map.mp member
  exact if_neg (absent entry inside)

theorem label_sum_member (amount : ProgramID × ProgSample → Nat)
    (entries : List (ProgramID × ProgSample)) (entry : ProgramID × ProgSample)
    (member : entry ∈ entries) : amount entry ≤ labelSum entry.2.label amount entries := by
  apply List.single_le_sum (fun _ _ => Nat.zero_le _)
  exact List.mem_map.mpr ⟨entry, member, if_pos rfl⟩

section Rounds

variable {Metric : Type} (counter : Counter Metric)

theorem visit_last (t : Tracker Metric) (entry : ProgramID × ProgSample) :
    (visit counter t entry).last = Function.update t.last entry.1 (some entry.2) := by
  rw [visit_eq]

theorem visit_all_last (entries : List (ProgramID × ProgSample))
    (distinct : (entries.map Prod.fst).Nodup) (t : Tracker Metric) (id : ProgramID) :
    (entries.foldl (visit counter) t).last id = (entries.lookup id).or (t.last id) := by
  induction entries generalizing t with
  | nil => rfl
  | cons entry rest induction =>
      rw [List.map_cons, List.nodup_cons] at distinct
      rw [List.foldl_cons, induction distinct.2, visit_last, List.lookup_cons]
      by_cases same : id = entry.1
      · have absent : rest.lookup id = none := by
          rw [List.lookup_eq_none_iff]
          intro other member
          rw [bne_iff_ne]
          intro equal
          exact distinct.1 (List.mem_map.mpr ⟨other, member, equal.symm.trans same⟩)
        rw [absent, same, Function.update_self, beq_self_eq_true]
        rfl
      · rw [Function.update_of_ne same, beq_eq_false_iff_ne.mpr same]

theorem round_last (t : Tracker Metric) (cur : Snapshot) :
    (trackRound counter t cur).last = cur.find := by
  funext id
  change prune (cur.samples.foldl (visit counter) t).last cur id = cur.find id
  rw [prune, visit_all_last _ _ cur.distinct]
  change (if (cur.find id).isSome then (cur.find id).or (t.last id) else none) = cur.find id
  cases cur.find id <;> rfl

section Counters

variable (metrics : Tracker Metric → Label → Metric) (added : ProgSample → ProgSample → Nat)
  (step : ∀ t entry, metrics (visit counter t entry) =
    gain counter (metrics t) entry.2.label ((t.last entry.1).elim 0 (added · entry.2)))

include step

theorem visit_all_other (entries : List (ProgramID × ProgSample)) (t : Tracker Metric) (label : Label)
    (absent : ∀ entry ∈ entries, entry.2.label ≠ label) :
    metrics (entries.foldl (visit counter) t) label = metrics t label := by
  induction entries generalizing t with
  | nil => rfl
  | cons entry rest induction =>
      rw [List.foldl_cons, induction _ fun other member => absent other (List.mem_cons_of_mem _ member),
        step, gain_other counter _ _ _ _ (absent entry List.mem_cons_self)]

variable (lawful : counter.Lawful)

include lawful

theorem visit_value (t : Tracker Metric) (entry : ProgramID × ProgSample) (label : Label) (d : Nat)
    (amount : (if entry.2.label = label then (t.last entry.1).elim 0 (added · entry.2) else 0) = d)
    (fits : counter.value (metrics t label) + d ≤ exactBound) :
    counter.value (metrics (visit counter t entry) label) = counter.value (metrics t label) + d := by
  rw [step]
  by_cases same : entry.2.label = label
  · rw [if_pos same] at amount
    rw [amount, same, gain]
    split
    · rw [add, Function.update_self, add_float64 lawful _ _ fits]
    · omega
  · rw [if_neg same] at amount
    rw [gain_other counter _ _ _ _ same, ← amount, Nat.add_zero]

/-- A counter over the loop, by induction over the entries: ids are distinct, so each
is compared with what was stored before the loop. -/
theorem visit_all_value (entries : List (ProgramID × ProgSample))
    (distinct : (entries.map Prod.fst).Nodup) (t : Tracker Metric) (label : Label)
    (fits : counter.value (metrics t label) +
      labelSum label (fun entry => (t.last entry.1).elim 0 (added · entry.2)) entries ≤ exactBound) :
    counter.value (metrics (entries.foldl (visit counter) t) label) =
      counter.value (metrics t label) +
        labelSum label (fun entry => (t.last entry.1).elim 0 (added · entry.2)) entries := by
  induction entries generalizing t with
  | nil => rfl
  | cons entry rest induction =>
      rw [List.map_cons, List.nodup_cons] at distinct
      have untouched : ∀ other ∈ rest, (visit counter t entry).last other.1 = t.last other.1 := by
        intro other member
        rw [visit_last]
        apply Function.update_of_ne
        intro same
        exact distinct.1 (same ▸ List.mem_map_of_mem member)
      have behind : labelSum label
            (fun other => ((visit counter t entry).last other.1).elim 0 (added · other.2)) rest =
          labelSum label (fun other => (t.last other.1).elim 0 (added · other.2)) rest := by
        apply label_sum_congr
        intro other member
        rw [untouched other member]
      rw [labelSum, List.map_cons, List.sum_cons, ← labelSum] at fits ⊢
      have here := visit_value counter metrics added step lawful t entry label _ rfl (by omega)
      rw [List.foldl_cons, induction distinct.2 _ (by rw [behind, here]; omega), behind, here,
        Nat.add_assoc]

end Counters

end Rounds

/-- The progress of a program since its previous sample: `max(0, current - previous)`. -/
def runtimeProgress (prev s : ProgSample) : Nat := (s.runtime.toInt - prev.runtime.toInt).toNat

def runsProgress (prev s : ProgSample) : Nat := s.runCount.toNat - prev.runCount.toNat

/-- The sum of a label's progress over the ids in both snapshots. -/
def sumSince (progress : ProgSample → ProgSample → Nat) (before cur : Snapshot) (label : Label) : Nat :=
  labelSum label (fun entry => (before.find entry.1).elim 0 (progress · entry.2)) cur.samples

/-- The difference of the two durations is a duration. -/
def RuntimeFits (prev s : ProgSample) : Prop :=
  -2 ^ 63 ≤ s.runtime.toInt - prev.runtime.toInt ∧ s.runtime.toInt - prev.runtime.toInt < 2 ^ 63

theorem runs_added_counted (prev s : ProgSample) (counted : prev.runCount.toNat ≤ s.runCount.toNat) :
    runsAdded prev s = runsProgress prev s := by
  exact BitVec.toNat_sub_of_le (BitVec.le_def.mpr counted)

theorem runs_added_decrease (prev s : ProgSample) (less : s.runCount.toNat < prev.runCount.toNat) :
    0 < runsAdded prev s := by
  unfold runsAdded
  rw [BitVec.toNat_sub]
  have bound := prev.runCount.isLt
  omega

theorem runtime_difference (prev s : ProgSample) :
    (s.runtime - prev.runtime).toInt =
      if s.runtime.toInt - prev.runtime.toInt < -2 ^ 63 then
        s.runtime.toInt - prev.runtime.toInt + 2 ^ 64
      else if 2 ^ 63 ≤ s.runtime.toInt - prev.runtime.toInt then
        s.runtime.toInt - prev.runtime.toInt - 2 ^ 64
      else s.runtime.toInt - prev.runtime.toInt := by
  have lower := BitVec.le_toInt s.runtime
  have upper := @BitVec.toInt_lt 64 s.runtime
  have prevLower := BitVec.le_toInt prev.runtime
  have prevUpper := @BitVec.toInt_lt 64 prev.runtime
  rw [BitVec.toInt_sub, Int.bmod_def]
  split_ifs <;> omega

theorem runtime_added_fits (prev s : ProgSample) (fits : RuntimeFits prev s) :
    runtimeAdded prev s = runtimeProgress prev s := by
  unfold runtimeAdded runtimeProgress
  rw [runtime_difference, if_neg (by have := fits.1; omega), if_neg (by have := fits.2; omega)]

theorem runtime_added_decrease (prev s : ProgSample) (less : s.runtime.toInt < prev.runtime.toInt)
    (misfit : ¬ RuntimeFits prev s) : 0 < runtimeAdded prev s := by
  have prevUpper := @BitVec.toInt_lt 64 prev.runtime
  have lower := BitVec.le_toInt s.runtime
  unfold runtimeAdded
  unfold RuntimeFits at misfit
  rw [runtime_difference, if_pos (by omega)]
  omega

theorem runtime_progress_misfit (prev s : ProgSample) (more : prev.runtime.toInt ≤ s.runtime.toInt)
    (misfit : ¬ RuntimeFits prev s) : 2 ^ 63 ≤ runtimeProgress prev s := by
  unfold runtimeProgress
  unfold RuntimeFits at misfit
  omega

section Exactness

variable {Metric : Type} (counter : Counter Metric)

/-- One round as it is to be: each label gains the progress of its programs, and a
program that went down adds nothing. -/
structure RoundExact (state : Snapshot × Tracker Metric) (cur : Snapshot) : Prop where
  runtime : ∀ label, counter.value ((trackRound counter state.2 cur).progRuntime label) =
    counter.value (state.2.progRuntime label) + sumSince runtimeProgress state.1 cur label
  runs : ∀ label, counter.value ((trackRound counter state.2 cur).progRuns label) =
    counter.value (state.2.progRuns label) + sumSince runsProgress state.1 cur label
  runtimeDown : ∀ entry ∈ cur.samples, ∀ prev, state.1.find entry.1 = some prev →
    entry.2.runtime.toInt < prev.runtime.toInt → ∀ t : Tracker Metric,
      t.last entry.1 = some prev → (visit counter t entry).progRuntime = t.progRuntime
  runsDown : ∀ entry ∈ cur.samples, ∀ prev, state.1.find entry.1 = some prev →
    entry.2.runCount.toNat < prev.runCount.toNat → ∀ t : Tracker Metric,
      t.last entry.1 = some prev → (visit counter t entry).progRuns = t.progRuns

/-- No run count of a program in both snapshots went down, and no difference of two
durations leaves the 64 bits. -/
def Advances (state : Snapshot × Tracker Metric) (cur : Snapshot) : Prop :=
  ∀ entry ∈ cur.samples, ∀ prev ∈ state.1.find entry.1,
    prev.runCount.toNat ≤ entry.2.runCount.toNat ∧ RuntimeFits prev entry.2

instance (prev s : ProgSample) : Decidable (RuntimeFits prev s) :=
  inferInstanceAs (Decidable (_ ∧ _))

instance (state : Snapshot × Tracker Metric) (cur : Snapshot) : Decidable (Advances state cur) :=
  inferInstanceAs (Decidable (∀ entry ∈ cur.samples, ∀ prev ∈ state.1.find entry.1, _ ∧ _))

/-- With the progress of the round, the two counters of a label stay where a `float64`
holds every whole number. -/
def Holds (state : Snapshot × Tracker Metric) (cur : Snapshot) : Prop :=
  ∀ entry ∈ cur.samples,
    counter.value (state.2.progRuntime entry.2.label) +
        sumSince runtimeProgress state.1 cur entry.2.label < exactBound ∧
      counter.value (state.2.progRuns entry.2.label) +
        sumSince runsProgress state.1 cur entry.2.label < exactBound

instance (state : Snapshot × Tracker Metric) (cur : Snapshot) :
    Decidable (Holds counter state cur) :=
  inferInstanceAs (Decidable (∀ entry ∈ cur.samples, _ ∧ _))

/-- The snapshot before, and the tracker behind it. -/
def roundStep (state : Snapshot × Tracker Metric) (cur : Snapshot) : Snapshot × Tracker Metric :=
  (cur, trackRound counter state.2 cur)

theorem gain_shown (lawful : counter.Lawful) (metrics : Label → Metric) (label : Label) (d : Nat)
    (small : counter.value (metrics label) < exactBound)
    (unchanged : gain counter metrics label d = metrics) : d = 0 := by
  by_contra positive
  have added := congrFun unchanged label
  rw [gain, if_pos (Nat.pos_of_ne_zero positive), add, Function.update_self] at added
  exact lawful.add_shown (metrics label) (toFloat64 d) small
    (float64_positive d (Nat.pos_of_ne_zero positive)) (congrArg counter.value added)

theorem visit_runtime (t : Tracker Metric) (entry : ProgramID × ProgSample) (prev : ProgSample)
    (last : t.last entry.1 = some prev) : (visit counter t entry).progRuntime =
      gain counter t.progRuntime entry.2.label (runtimeAdded prev entry.2) := by
  rw [visit_eq]
  dsimp only
  rw [last, Option.elim_some]

theorem visit_runs (t : Tracker Metric) (entry : ProgramID × ProgSample) (prev : ProgSample)
    (last : t.last entry.1 = some prev) : (visit counter t entry).progRuns =
      gain counter t.progRuns entry.2.label (runsAdded prev entry.2) := by
  rw [visit_eq]
  dsimp only
  rw [last, Option.elim_some]

section Round

variable (lawful : counter.Lawful) (state : Snapshot × Tracker Metric) (cur : Snapshot)
  (known : state.2.last = state.1.find)

include lawful known

/-- A counter over a round in which what is added is the progress and holds. -/
theorem round_value (metrics : Tracker Metric → Label → Metric)
    (added progress : ProgSample → ProgSample → Nat)
    (step : ∀ t entry, metrics (visit counter t entry) =
      gain counter (metrics t) entry.2.label ((t.last entry.1).elim 0 (added · entry.2)))
    (agreed : ∀ entry ∈ cur.samples, ∀ prev, state.1.find entry.1 = some prev →
      added prev entry.2 = progress prev entry.2)
    (holds : ∀ entry ∈ cur.samples, counter.value (metrics state.2 entry.2.label) +
      sumSince progress state.1 cur entry.2.label ≤ exactBound) (label : Label) :
    counter.value (metrics (cur.samples.foldl (visit counter) state.2) label) =
      counter.value (metrics state.2 label) + sumSince progress state.1 cur label := by
  by_cases present : ∃ entry ∈ cur.samples, entry.2.label = label
  · obtain ⟨entry, member, rfl⟩ := present
    have same : labelSum entry.2.label
          (fun other => (state.2.last other.1).elim 0 (added · other.2)) cur.samples =
        sumSince progress state.1 cur entry.2.label := by
      apply label_sum_congr
      intro other inside
      rw [known]
      cases found : state.1.find other.1 with
      | none => rfl
      | some prev => exact agreed other inside prev found
    have total := visit_all_value counter metrics added step lawful cur.samples cur.distinct state.2
      entry.2.label (by rw [same]; exact holds entry member)
    rw [total, same]
  · have absent : ∀ entry ∈ cur.samples, entry.2.label ≠ label :=
      fun entry member same => present ⟨entry, member, same⟩
    rw [visit_all_other counter metrics added step _ _ _ absent, sumSince,
      label_sum_absent label _ _ absent, Nat.add_zero]

theorem advances_exact (advances : Advances state cur) (holds : Holds counter state cur) :
    RoundExact counter state cur := by
  constructor
  · intro label
    apply round_value counter lawful state cur known Tracker.progRuntime runtimeAdded
    · intro t entry
      rw [visit_eq]
    · intro entry member prev found
      exact runtime_added_fits prev entry.2 (advances entry member prev found).2
    · intro entry member
      exact Nat.le_of_lt (holds entry member).1
  · intro label
    apply round_value counter lawful state cur known Tracker.progRuns runsAdded
    · intro t entry
      rw [visit_eq]
    · intro entry member prev found
      exact runs_added_counted prev entry.2 (advances entry member prev found).1
    · intro entry member
      exact Nat.le_of_lt (holds entry member).2
  · intro entry member prev found less t last
    have nothing : runtimeAdded prev entry.2 = 0 := by
      rw [runtime_added_fits prev entry.2 (advances entry member prev found).2, runtimeProgress]
      omega
    rw [visit_runtime counter t entry prev last, nothing, gain_nothing]
  · intro entry member prev found less
    exact absurd (advances entry member prev found).1 (Nat.not_le_of_lt less)

/-- Below the bound nothing else is exact: a decrease that adds would show. -/
theorem exact_advances (holds : Holds counter state cur) (exactly : RoundExact counter state cur) :
    Advances state cur := by
  intro entry member prev found
  obtain ⟨runtimeHolds, runsHolds⟩ := holds entry member
  have last : state.2.last entry.1 = some prev := by rw [known, found]
  constructor
  · by_contra less
    have unchanged := exactly.runsDown entry member prev found (Nat.lt_of_not_le less) state.2 last
    rw [visit_runs counter state.2 entry prev last] at unchanged
    have nothing := gain_shown counter lawful _ _ _ (by omega) unchanged
    have gained := runs_added_decrease prev entry.2 (Nat.lt_of_not_le less)
    omega
  · by_contra misfit
    rcases lt_or_ge entry.2.runtime.toInt prev.runtime.toInt with less | more
    · have unchanged := exactly.runtimeDown entry member prev found less state.2 last
      rw [visit_runtime counter state.2 entry prev last] at unchanged
      have nothing := gain_shown counter lawful _ _ _ (by omega) unchanged
      have gained := runtime_added_decrease prev entry.2 less misfit
      omega
    · -- An overflowing increase is too much progress for the bound.
      have large := runtime_progress_misfit prev entry.2 more misfit
      have part := label_sum_member
        (fun other => (state.1.find other.1).elim 0 (runtimeProgress · other.2)) cur.samples entry member
      rw [found, Option.elim_some, ← sumSince] at part
      have bound : exactBound < 2 ^ 63 := by decide
      omega

end Round

/-- Over any sequence of snapshots, rounds whose programs advance and whose totals hold
add exactly the progress; as long as the totals hold, no other rounds do. -/
theorem counters_add_progress (lawful : counter.Lawful) (snapshots : List Snapshot) :
    (Along (roundStep counter) (fun state cur => Advances state cur ∧ Holds counter state cur)
        (Snapshot.empty, Tracker.start counter) snapshots →
      Along (roundStep counter) (RoundExact counter) (Snapshot.empty, Tracker.start counter)
        snapshots) ∧
      (Along (roundStep counter) (Holds counter) (Snapshot.empty, Tracker.start counter) snapshots →
        Along (roundStep counter) (RoundExact counter) (Snapshot.empty, Tracker.start counter)
            snapshots →
          Along (roundStep counter) Advances (Snapshot.empty, Tracker.start counter) snapshots) := by
  have rounds := along_congr_invariant (roundStep counter)
    (fun state cur => RoundExact counter state cur ∧ Holds counter state cur)
    (fun state cur => Advances state cur ∧ Holds counter state cur)
    (fun state => state.2.last = state.1.find) (fun state cur _ => round_last counter state.2 cur)
    (fun state cur known => and_congr_left fun holds =>
      ⟨exact_advances counter lawful state cur known holds,
        fun advances => advances_exact counter lawful state cur known advances holds⟩)
    (Snapshot.empty, Tracker.start counter) rfl snapshots
  constructor
  · intro advance
    exact ((along_and _ _ _ _ _).mp (rounds.mpr advance)).1
  · intro hold exactly
    exact ((along_and _ _ _ _ _).mp (rounds.mp ((along_and _ _ _ _ _).mpr ⟨exactly, hold⟩))).1

end Exactness

def ran (runtime : BitVec 64) (runCount : U64) : ProgSample where
  name := "ko_retransmit"
  tag := "a1"
  type := "Tracing"
  runtime := runtime
  runCount := runCount

def oneProgram (sample : ProgSample) : Snapshot where
  samples := [(7, sample)]
  distinct := by simp

def twoPrograms (first second : ProgSample) : Snapshot where
  samples := [(7, first), (9, second)]
  distinct := by simp

/-- Two programs share a label, and one of them is gone in the last snapshot. -/
def sharedLabel : List Snapshot :=
  [twoPrograms (ran 10 3) (ran 40 1), twoPrograms (ran 25 5) (ran 30 4), oneProgram (ran 26 9)]

theorem counters_add_progress_shared_label :
    Along (roundStep float64Counter) (RoundExact float64Counter)
        (Snapshot.empty, Tracker.start float64Counter) sharedLabel ∧
      let state := run (roundStep float64Counter) (Snapshot.empty, Tracker.start float64Counter)
        sharedLabel
      state.2.progRuntime (ran 26 9).label = 16 ∧ state.2.progRuns (ran 26 9).label = 9 :=
  ⟨(counters_add_progress float64Counter float64_counter_lawful sharedLabel).1 (by decide +kernel),
    by decide +kernel⟩

/-- The id is used again by a program with 3 runs after one with 5: the difference is
`2 ^ 64 - 2`, and the counter of the label gains what it is rounded to. -/
theorem run_count_decrease_counted :
    let state := run (roundStep float64Counter) (Snapshot.empty, Tracker.start float64Counter)
      [oneProgram (ran 0 5), oneProgram (ran 0 3)]
    float64Counter.value (state.2.progRuns (ran 0 3).label) = 2 ^ 64 ∧
      ¬ Along (roundStep float64Counter) (RoundExact float64Counter)
        (Snapshot.empty, Tracker.start float64Counter) [oneProgram (ran 0 5), oneProgram (ran 0 3)] := by
  constructor
  · decide +kernel
  · intro along
    have unchanged := along.2.1.runsDown (7, ran 0 3) List.mem_cons_self (ran 0 5) rfl
      (by decide) (trackRound float64Counter (Tracker.start float64Counter) (oneProgram (ran 0 5))) rfl
    have added := congrFun unchanged (ran 0 3).label
    revert added
    decide +kernel

end KoAgent.ProgStats
