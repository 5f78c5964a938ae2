import KoAgent.FilterModel
import KoAgent.FloatCounters
import KoAgent.StepRuns
import Mathlib.Algebra.GroupWithZero.Nat

/-!
# Following the drop counters of the kernel

`ko_filter_drops` and `ko_ringbuf_drops` hold one counter for each CPU, which the
programs on that CPU increment. Every five seconds a goroutine looks the values
up, adds them and passes the difference, as a `float64`, to a metric. The lookup copies one CPU
after the other while all of them go on counting, so the values it adds up need
never have stood in the map together. The model keeps the true counts; a map value
is its count modulo two to the 64, and the counters of the metrics package are a
parameter.
-/

namespace KoAgent.DropCounters

open KoAgent.FilterModel KoAgent.FloatCounters KoAgent.StepRuns

set_option autoImplicit false

/-- The two metrics that follow a drop counter. -/
inductive DropMetric where
  | ringbufDropped
  | filterDroppedBPF
  deriving DecidableEq

/-- `vals` is what the lookup under way has copied; `began`, `shown` and `covered`
are ghosts: the counts when it began, the counts the last complete lookup saw, and
the drops there were when that one began. -/
structure DropState (Metric : Type) where
  counts : List Nat
  running : Bool
  vals : Option (List U64)
  last : U64
  metrics : DropMetric → Metric
  began : List Nat
  shown : List Nat
  covered : Nat

def DropState.start {Metric : Type} (counter : Counter Metric) (cpus : Nat) : DropState Metric where
  counts := List.replicate cpus 0
  running := true
  vals := none
  last := 0
  metrics := fun _ => counter.start
  began := List.replicate cpus 0
  shown := List.replicate cpus 0
  covered := 0

inductive DropStep where
  | drop (cpu : Nat)
  | tick (found : Bool)
  | copy
  | finish
  deriving DecidableEq

def total (vals : List U64) : U64 := vals.foldl (fun sum value => sum + value) 0

section Tracking

variable {Metric : Type} (counter : Counter Metric)

/-- The round of the goroutine that follows one counter in one metric. -/
def trackDrops (metric : DropMetric) (s : DropState Metric) : DropStep → DropState Metric
  | .drop cpu => { s with counts := s.counts.modify cpu fun count => count + 1 }
  | .tick found =>
      match s.running, s.vals with
      | true, none =>
          if found then { s with vals := some [], began := s.counts }
          else { s with running := false }
      | _, _ => s
  | .copy =>
      match s.vals with
      | none => s
      | some vals =>
          match s.counts[vals.length]? with
          | none => s
          | some count => { s with vals := some (vals ++ [BitVec.ofNat 64 count]) }
  | .finish =>
      match s.vals with
      | none => s
      | some vals =>
          if vals.length = s.counts.length then
            let done := { s with
              vals := none
              shown := vals.map BitVec.toNat
              covered := s.began.sum }
            if s.last < total vals then
              { done with
                metrics := Function.update s.metrics metric
                  (counter.add (s.metrics metric) (toFloat64 (total vals - s.last).toNat))
                last := total vals }
            else done
          else s

def trackRingbufDrops : DropState Metric → DropStep → DropState Metric :=
  trackDrops counter .ringbufDropped

def trackFilterDrops : DropState Metric → DropStep → DropState Metric :=
  trackDrops counter .filterDroppedBPF

end Tracking

/-- Place by place, `left` is at most as large, as far as it goes. -/
def Below : List Nat → List Nat → Prop
  | [], _ => True
  | _ :: _, [] => False
  | first :: left, second :: right => first ≤ second ∧ Below left right

theorem below_refl (counts : List Nat) : Below counts counts := by
  induction counts with
  | nil => trivial
  | cons count rest induction => exact ⟨Nat.le_refl count, induction⟩

theorem below_trans (left middle right : List Nat) (first : Below left middle)
    (second : Below middle right) : Below left right := by
  induction left generalizing middle right with
  | nil => trivial
  | cons count rest induction =>
      cases middle with
      | nil => exact first.elim
      | cons other others =>
          cases right with
          | nil => exact second.elim
          | cons bound bounds =>
              exact ⟨Nat.le_trans first.1 second.1, induction others bounds first.2 second.2⟩

theorem below_sum (left right : List Nat) (below : Below left right) : left.sum ≤ right.sum := by
  induction left generalizing right with
  | nil => exact Nat.zero_le _
  | cons count rest induction =>
      cases right with
      | nil => exact below.elim
      | cons bound bounds =>
          rw [List.sum_cons, List.sum_cons]
          exact Nat.add_le_add below.1 (induction bounds below.2)

theorem below_increment (counts : List Nat) (cpu : Nat) :
    Below counts (counts.modify cpu fun count => count + 1) := by
  induction counts generalizing cpu with
  | nil => trivial
  | cons count rest induction =>
      cases cpu with
      | zero => exact ⟨Nat.le_succ count, below_refl rest⟩
      | succ cpu => exact ⟨Nat.le_refl count, induction cpu⟩

/-- One more place. -/
theorem below_snoc (left right : List Nat) (below : Below left right) (count bound : Nat)
    (place : right[left.length]? = some bound) (small : count ≤ bound) :
    Below (left ++ [count]) right := by
  induction left generalizing right with
  | nil =>
      cases right with
      | nil => cases place
      | cons first rest =>
          cases place
          exact ⟨small, trivial⟩
  | cons head rest induction =>
      cases right with
      | nil => exact below.elim
      | cons first others => exact ⟨below.1, induction others below.2 place⟩

theorem below_take_snoc (floor left : List Nat) (below : Below (floor.take left.length) left)
    (count : Nat) (low : ∀ bound, floor[left.length]? = some bound → bound ≤ count) :
    Below (floor.take (left ++ [count]).length) (left ++ [count]) := by
  induction left generalizing floor with
  | nil =>
      cases floor with
      | nil => trivial
      | cons bound bounds => exact ⟨low bound rfl, by rw [List.take_zero]; trivial⟩
  | cons head rest induction =>
      cases floor with
      | nil => trivial
      | cons bound bounds => exact ⟨below.1, induction bounds below.2 low⟩

theorem below_getElem? (left right : List Nat) (below : Below left right) (index first second : Nat)
    (here : left[index]? = some first) (there : right[index]? = some second) : first ≤ second := by
  induction left generalizing right index with
  | nil => cases here
  | cons head rest induction =>
      cases right with
      | nil => exact below.elim
      | cons bound bounds =>
          cases index with
          | zero =>
              cases here
              cases there
              exact below.1
          | succ index => exact induction bounds below.2 index here there

theorem getElem?_le_sum (counts : List Nat) (index count : Nat) (place : counts[index]? = some count) :
    count ≤ counts.sum := by
  induction counts generalizing index with
  | nil => cases place
  | cons first rest induction =>
      rw [List.sum_cons]
      cases index with
      | zero =>
          cases place
          omega
      | succ index =>
          have later := induction index place
          omega

/-- As long as the true sum fits, the sum in 64 bits is the true one. -/
theorem total_value (vals : List U64) (fits : (vals.map BitVec.toNat).sum < 2 ^ 64) :
    (total vals).toNat = (vals.map BitVec.toNat).sum := by
  have from_ (sum : U64) (room : sum.toNat + (vals.map BitVec.toNat).sum < 2 ^ 64) :
      (vals.foldl (fun sum value => sum + value) sum).toNat =
        sum.toNat + (vals.map BitVec.toNat).sum := by
    clear fits
    induction vals generalizing sum with
    | nil => rfl
    | cons value rest induction =>
        rw [List.map_cons, List.sum_cons] at room ⊢
        have added : (sum + value).toNat = sum.toNat + value.toNat := by
          rw [BitVec.toNat_add, Nat.mod_eq_of_lt (by omega)]
        rw [List.foldl_cons, induction (sum + value) (by omega), added]
        omega
  have zero : (0 : U64).toNat = 0 := rfl
  rw [total, from_ 0 (by omega), zero, Nat.zero_add]

theorem fits_word (count : Nat) (fits : count ≤ exactBound) : count < 2 ^ 64 :=
  Nat.lt_of_le_of_lt fits (by decide)

section Invariant

variable {Metric : Type} (counter : Counter Metric)

/-- A lookup under way has copied at least what there was when it began. -/
structure UnderWay (s : DropState Metric) (vals : List U64) : Prop where
  older : Below s.shown s.began
  newer : Below s.began s.counts
  aligned : s.began.length = s.counts.length
  seen : Below (vals.map BitVec.toNat) s.counts
  fresh : Below (s.began.take (vals.map BitVec.toNat).length) (vals.map BitVec.toNat)

/-- The metric shows what the last complete lookup saw. -/
structure Tracked (metric : DropMetric) (s : DropState Metric) : Prop where
  metric : counter.value (s.metrics metric) = s.last.toNat
  last : s.last.toNat = s.shown.sum
  shown : Below s.shown s.counts
  covered : s.covered ≤ s.shown.sum
  reading : ∀ vals, s.vals = some vals → UnderWay s vals

theorem counts_grow (metric : DropMetric) (s : DropState Metric) (step : DropStep) :
    s.counts.sum ≤ (trackDrops counter metric s step).counts.sum := by
  cases step with
  | drop cpu => exact below_sum _ _ (below_increment s.counts cpu)
  | tick found =>
      rw [trackDrops]
      split
      · split_ifs <;> exact Nat.le_refl _
      · exact Nat.le_refl _
  | copy =>
      rw [trackDrops]
      split
      · exact Nat.le_refl _
      · split <;> exact Nat.le_refl _
  | finish =>
      rw [trackDrops]
      split
      · exact Nat.le_refl _
      · split_ifs <;> exact Nat.le_refl _

theorem drop_tracked (metric : DropMetric) (s : DropState Metric) (tracked : Tracked counter metric s) (cpu : Nat) :
    Tracked counter metric (trackDrops counter metric s (.drop cpu)) := by
  have grown := below_increment s.counts cpu
  refine { tracked with shown := ?_, reading := ?_ }
  · exact below_trans _ _ _ tracked.shown grown
  · intro vals reading
    have underWay := tracked.reading vals reading
    refine { underWay with newer := ?_, aligned := ?_, seen := ?_ }
    · exact below_trans _ _ _ underWay.newer grown
    · change s.began.length = (s.counts.modify cpu _).length
      rw [List.length_modify]
      exact underWay.aligned
    · exact below_trans _ _ _ underWay.seen grown

theorem tick_tracked (metric : DropMetric) (s : DropState Metric) (tracked : Tracked counter metric s)
    (found : Bool) : Tracked counter metric (trackDrops counter metric s (.tick found)) := by
  rw [trackDrops]
  cases s.running with
  | false => exact tracked
  | true =>
      cases idle : s.vals with
      | some vals => exact tracked
      | none =>
          dsimp only
          cases found with
          | false =>
              refine { tracked with reading := ?_ }
              intro vals started
              cases started
          | true =>
              refine { tracked with reading := ?_ }
              intro vals started
              cases started
              constructor
              · exact tracked.shown
              · exact below_refl s.counts
              · rfl
              · trivial
              · trivial

theorem copy_tracked (metric : DropMetric) (s : DropState Metric) (tracked : Tracked counter metric s)
    (fits : s.counts.sum < 2 ^ 64) : Tracked counter metric (trackDrops counter metric s .copy) := by
  rw [trackDrops]
  cases reading : s.vals with
  | none => exact tracked
  | some vals =>
      dsimp only
      cases place : s.counts[vals.length]? with
      | none => exact tracked
      | some count =>
          have underWay := tracked.reading vals reading
          have small := getElem?_le_sum s.counts vals.length count place
          have value : (BitVec.ofNat 64 count).toNat = count := by
            rw [BitVec.toNat_ofNat, Nat.mod_eq_of_lt (by omega)]
          have copied : (vals ++ [BitVec.ofNat 64 count]).map BitVec.toNat =
              vals.map BitVec.toNat ++ [count] := by
            rw [List.map_append, List.map_singleton, value]
          refine { tracked with reading := ?_ }
          intro others same
          cases same
          refine { underWay with seen := ?_, fresh := ?_ }
          · rw [copied]
            apply below_snoc _ _ underWay.seen count count
            · rw [List.length_map]
              exact place
            · exact Nat.le_refl count
          · rw [copied]
            apply below_take_snoc _ _ underWay.fresh
            intro bound found
            rw [List.length_map] at found
            exact below_getElem? _ _ underWay.newer vals.length bound count found place

section Laws

variable (lawful : counter.Lawful)

include lawful

theorem finish_tracked (metric : DropMetric) (s : DropState Metric) (tracked : Tracked counter metric s)
    (fits : s.counts.sum ≤ exactBound) :
    Tracked counter metric (trackDrops counter metric s .finish) := by
  have word := fits_word _ fits
  rw [trackDrops]
  cases reading : s.vals with
  | none => exact tracked
  | some vals =>
      dsimp only
      by_cases complete : vals.length = s.counts.length
      · have underWay := tracked.reading vals reading
        have fresh := underWay.fresh
        have all : s.began.take (vals.map BitVec.toNat).length = s.began := by
          rw [List.length_map, complete, ← underWay.aligned, List.take_length]
        rw [all] at fresh
        have bound := below_sum _ _ underWay.seen
        have since := below_sum _ _ fresh
        have before := below_sum _ _ underWay.older
        have value := total_value vals (by omega)
        have last := tracked.last
        have shown := tracked.metric
        rw [if_pos complete]
        by_cases more : s.last < total vals
        · have difference : (total vals - s.last).toNat = (total vals).toNat - s.last.toNat :=
            BitVec.toNat_sub_of_le (BitVec.le_of_lt more)
          have larger : s.last.toNat < (total vals).toNat := BitVec.lt_def.mp more
          rw [if_pos more]
          constructor
          · dsimp only
            rw [Function.update_self, add_float64 lawful _ _ (by omega), shown, difference]
            omega
          · exact value
          · exact underWay.seen
          · exact since
          · intro others same
            cases same
        · have smaller : (total vals).toNat ≤ s.last.toNat := by
            rw [BitVec.lt_def] at more
            omega
          rw [if_neg more]
          constructor
          · exact shown
          · dsimp only
            omega
          · exact underWay.seen
          · exact since
          · intro others same
            cases same
      · rw [if_neg complete]
        exact tracked

theorem drop_start_tracked (metric : DropMetric) (cpus : Nat) :
    Tracked counter metric (DropState.start counter cpus) := by
  have zero : (List.replicate cpus 0).sum = 0 := List.sum_replicate_nat.trans (Nat.mul_zero cpus)
  constructor
  · exact lawful.start_value
  · exact zero.symm
  · exact below_refl _
  · exact Nat.zero_le _
  · intro vals reading
    cases reading

theorem track_drops_tracked (metric : DropMetric) (s : DropState Metric) (step : DropStep)
    (tracked : s.counts.sum ≤ exactBound → Tracked counter metric s)
    (fits : (trackDrops counter metric s step).counts.sum ≤ exactBound) :
    Tracked counter metric (trackDrops counter metric s step) := by
  have small : s.counts.sum ≤ exactBound := Nat.le_trans (counts_grow counter metric s step) fits
  cases step with
  | drop cpu => exact drop_tracked counter metric s (tracked small) cpu
  | tick found => exact tick_tracked counter metric s (tracked small) found
  | copy => exact copy_tracked counter metric s (tracked small) (fits_word _ small)
  | finish => exact finish_tracked counter lawful metric s (tracked small) small

/-- However the increments on the CPUs fall between the copies of a lookup, as long as
a `float64` holds the number of drops, the metric never shows more drops than there
were, and it shows all those from before the last complete lookup. -/
theorem drop_metric_tracks (metric : DropMetric) (cpus : Nat) (steps : List DropStep)
    (fits : (run (trackDrops counter metric) (DropState.start counter cpus) steps).counts.sum ≤
      exactBound) :
    let s := run (trackDrops counter metric) (DropState.start counter cpus) steps
    s.covered ≤ counter.value (s.metrics metric) ∧
      counter.value (s.metrics metric) ≤ s.counts.sum := by
  have tracked := invariant_run (trackDrops counter metric)
    (fun s => s.counts.sum ≤ exactBound → Tracked counter metric s)
    (track_drops_tracked counter lawful metric) (DropState.start counter cpus)
    (fun _ => drop_start_tracked counter lawful metric cpus) steps fits
  generalize run (trackDrops counter metric) (DropState.start counter cpus) steps = s at tracked
  have covered := tracked.covered
  have shown := below_sum _ _ tracked.shown
  have last := tracked.last
  have value := tracked.metric
  dsimp only
  omega

end Laws

end Invariant

/-- Two CPUs count on while the lookup copies the first of them. -/
def interruptedLookup : List DropStep :=
  [.drop 0, .drop 1, .tick true, .copy, .drop 0, .drop 1, .copy, .finish]

theorem drop_metric_tracks_interrupted :
    let s := run (trackDrops float64Counter .filterDroppedBPF) (DropState.start float64Counter 2)
      interruptedLookup
    s.counts.sum = 4 ∧ s.covered = 2 ∧ s.covered ≤ float64Counter.value (s.metrics .filterDroppedBPF) ∧
      float64Counter.value (s.metrics .filterDroppedBPF) ≤ s.counts.sum :=
  ⟨rfl, rfl, drop_metric_tracks float64Counter float64_counter_lawful .filterDroppedBPF 2
    interruptedLookup (by decide)⟩

end KoAgent.DropCounters
