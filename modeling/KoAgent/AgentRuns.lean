import KoAgent.EventReader
import KoAgent.EventDiscipline
import Mathlib.Data.List.Sublists

/-!
# From the handlers through the ring buffer to the reader

The agent as one system: the handlers run in any order and at any time, on any
state of the maps they read; what they emit goes into the ring buffer as bytes,
and the reader takes the oldest sample out. `reached` is a ghost that keeps every
submission which was not lost for lack of room in the buffer.
-/

namespace KoAgent.AgentRuns

open KoAgent.ByteWords KoAgent.FilterModel KoAgent.CelExpression KoAgent.FilterSets
open KoAgent.KernelFilter KoAgent.SocketHandlers KoAgent.WireFormats KoAgent.EventReader
open KoAgent.EventDiscipline KoAgent.StepRuns

set_option autoImplicit false

/-- The call of `submit_conn_evt` that a step makes, if any. -/
def stepSubmission (m : SockMap) : HandlerStep → Option (Call × Submission)
  | .sockState call oldstate newstate =>
      (koSockState call oldstate newstate m).2.map fun sub => (call, sub)
  | .retransmit call => (koRetransmit call m).2.map fun sub => (call, sub)
  | .probe call => (koProbe call m).2.map fun sub => (call, sub)
  | .destroySock _ => none
  | .evict _ => none

/-- The samples that one call of `submit_conn_evt` puts in the ring buffer. -/
def emittedSamples (call : Call) (sub : Submission) : List (List Byte) :=
  match submitConnEvt call sub with
  | .emitted record => [eventSample call sub record.filterIdx]
  | .filtered => []
  | .noRoom => []

def reachedRecords (call : Call) (sub : Submission) : List ConnEvent :=
  match submitConnEvt call sub with
  | .noRoom => []
  | .filtered => [connEvent call sub filterUndecided]
  | .emitted _ => [connEvent call sub filterUndecided]

structure AgentState where
  kernel : KoState
  ring : List (List Byte)
  reader : ReaderState
  reached : List ConnEvent

def AgentState.start (clock : U64) : AgentState where
  kernel := KoState.start clock
  ring := []
  reader := {}
  reached := []

inductive AgentStep where
  | handler (step : HandlerStep)
  | read (source : CgroupAttrs × Bool) (done : Bool)

def agentStep (t : Tracer) (s : AgentState) : AgentStep → AgentState
  | .handler step =>
      { s with
        kernel := handlerStep s.kernel step
        ring := s.ring ++
          (stepSubmission s.kernel.sockCtx step).elim [] fun call => emittedSamples call.1 call.2
        reached := s.reached ++
          (stepSubmission s.kernel.sockCtx step).elim [] fun call => reachedRecords call.1 call.2 }
  | .read source done =>
      match s.ring with
      | [] => s
      | sample :: rest =>
          if s.reader.status = .running then
            { s with
              ring := rest
              reader := readRecord t s.reader { sample := sample, source := source, done := done } }
          else s

/-- What the kernel side counts, and the records it has emitted. -/
structure Tally where
  submitted : Nat
  filterDrops : Nat
  ringbufDrops : Nat
  records : List ConnEvent

def isSubmitted : LogEntry → Bool
  | .submitted _ => true
  | .captured _ _ => false
  | .destroyed _ => false

def tally (s : KoState) : Tally where
  submitted := s.log.countP isSubmitted
  filterDrops := s.filterDrops
  ringbufDrops := s.ringbufDrops
  records := s.ring

def Tally.submit (before : Tally) (call : Call) (sub : Submission) : Tally :=
  match submitConnEvt call sub with
  | .filtered =>
      { before with submitted := before.submitted + 1, filterDrops := before.filterDrops + 1 }
  | .noRoom =>
      { before with submitted := before.submitted + 1, ringbufDrops := before.ringbufDrops + 1 }
  | .emitted record =>
      { before with submitted := before.submitted + 1, records := before.records ++ [record] }

theorem finish_call_tally (s : KoState) (call : Call) (result : SockMap × Option Submission) :
    tally (finishCall s call result) =
      result.2.elim (tally s) fun sub => (tally s).submit call sub := by
  unfold finishCall
  cases result.2 with
  | none => rfl
  | some sub =>
      have counted : (LogEntry.submitted sub :: s.log).countP isSubmitted =
          s.log.countP isSubmitted + 1 := List.countP_cons_of_pos rfl
      rw [Option.elim_some, Tally.submit]
      dsimp only
      cases submitConnEvt call sub <;> (dsimp only [tally]; rw [counted])

theorem note_capture_tally (s : KoState) (call : Call) (oldstate newstate : TcpState) :
    tally (noteCapture s call oldstate newstate) = tally s := by
  rw [noteCapture]
  split_ifs
  · rfl
  · rfl

/-- One step of the kernel side, as its counters and its records show it. -/
theorem handler_step_tally (s : KoState) (step : HandlerStep) :
    tally (handlerStep s step) =
      (stepSubmission s.sockCtx step).elim (tally s) fun call => (tally s).submit call.1 call.2 := by
  cases step with
  | sockState call oldstate newstate =>
      rw [handlerStep, note_capture_tally, finish_call_tally, stepSubmission]
      cases (koSockState call oldstate newstate s.sockCtx).2 <;> rfl
  | retransmit call =>
      rw [handlerStep, finish_call_tally, stepSubmission]
      cases (koRetransmit call s.sockCtx).2 <;> rfl
  | probe call =>
      rw [handlerStep, finish_call_tally, stepSubmission]
      cases (koProbe call s.sockCtx).2 <;> rfl
  | destroySock skaddr => rfl
  | evict skaddr => rfl

theorem emitted_record (call : Call) (sub : Submission) (record : ConnEvent)
    (emitted : submitConnEvt call sub = .emitted record) :
    record = connEvent call sub record.filterIdx := by
  rw [submitConnEvt] at emitted
  split_ifs at emitted
  cases emitted
  rfl

theorem emitted_sample_read (call : Call) (sub : Submission) (record : ConnEvent)
    (emitted : submitConnEvt call sub = .emitted record) :
    binaryRead (eventSample call sub record.filterIdx) = .ok record := by
  rw [sample_read_back, ← emitted_record call sub record emitted]

/-- Every submission is in the ring buffer or in one of the two drop counters. -/
def Tally.Balanced (counts : Tally) : Prop :=
  counts.submitted = counts.records.length + counts.filterDrops + counts.ringbufDrops

theorem submit_balanced (counts : Tally) (balanced : counts.Balanced) (call : Call)
    (sub : Submission) : (counts.submit call sub).Balanced := by
  unfold Tally.Balanced at balanced ⊢
  unfold Tally.submit
  cases submitConnEvt call sub with
  | filtered =>
      dsimp only
      omega
  | noRoom =>
      dsimp only
      omega
  | emitted record =>
      dsimp only
      rw [List.length_append, List.length_singleton]
      omega

/-- The samples of one submission decode to the records it adds. -/
theorem submit_records (counts : Tally) (call : Call) (sub : Submission) :
    ∃ added, (counts.submit call sub).records = counts.records ++ added ∧
      (emittedSamples call sub).map binaryRead = added.map .ok := by
  unfold Tally.submit emittedSamples
  cases outcome : submitConnEvt call sub with
  | filtered => exact ⟨[], (List.append_nil _).symm, rfl⟩
  | noRoom => exact ⟨[], (List.append_nil _).symm, rfl⟩
  | emitted record =>
      refine ⟨[record], rfl, ?_⟩
      rw [List.map_singleton, List.map_singleton, emitted_sample_read call sub record outcome]

/-- An event without the label of its filter. -/
def unlabelled (event : TracedEvent) : TracedEvent := { event with filterIdx := 0, filterName := "" }

/-- The kernel's records cut in two: those the reader has taken, and those whose
samples still wait in the buffer. -/
structure Conserved (t : Tracer) (s : AgentState) (taken waiting : List ConnEvent) : Prop where
  balanced : (tally s.kernel).Balanced
  records : (tally s.kernel).records = taken ++ waiting
  samples : s.ring.map binaryRead = waiting.map .ok
  total : s.reader.eventsTotal = taken.length
  decoded : s.reader.decodeErrors = 0
  accounted : Accounted t.filterSet s.reader
  ordered : ((s.reader.handed ++ s.reader.abandoned).map unlabelled).Sublist
    (taken.map fun raw => unlabelled (decodeConnEvent raw))

theorem handler_step_conserved (t : Tracer) (s : AgentState) (taken waiting : List ConnEvent)
    (conserved : Conserved t s taken waiting) (step : HandlerStep) :
    ∃ later, Conserved t (agentStep t s (.handler step)) taken later := by
  have counts := handler_step_tally s.kernel step
  rw [agentStep]
  cases made : stepSubmission s.kernel.sockCtx step with
  | none =>
      rw [made, Option.elim_none] at counts
      refine ⟨waiting, { conserved with balanced := ?_, records := ?_, samples := ?_ }⟩
      · rw [counts]
        exact conserved.balanced
      · rw [counts]
        exact conserved.records
      · rw [Option.elim_none, List.append_nil]
        exact conserved.samples
  | some call =>
      rw [made, Option.elim_some] at counts
      rcases submit_records (tally s.kernel) call.1 call.2 with ⟨added, records, samples⟩
      refine ⟨waiting ++ added, { conserved with balanced := ?_, records := ?_, samples := ?_ }⟩
      · rw [counts]
        exact submit_balanced _ conserved.balanced call.1 call.2
      · rw [counts, records, conserved.records, List.append_assoc]
      · rw [Option.elim_some, List.map_append, List.map_append, conserved.samples, samples]

theorem passed_event_unlabelled (t : Tracer) (raw : ConnEvent) (source : CgroupAttrs × Bool) :
    ((decideEvent t raw source).event.toList.map unlabelled).Sublist
      [unlabelled (decodeConnEvent raw)] := by
  cases passed : (decideEvent t raw source).event with
  | none => exact List.nil_sublist _
  | some event =>
      rcases decided_event_named t raw source event passed with ⟨set, idx, named⟩
      rcases Option.map_eq_some_iff.mp named with ⟨name, -, rfl⟩
      exact List.Sublist.refl _

theorem read_step_conserved (cel : Cel) (cfg : List Config) (t : Tracer)
    (built : initFilters cel cfg = .ok t.filterSet) (s : AgentState)
    (taken waiting : List ConnEvent) (conserved : Conserved t s taken waiting)
    (source : CgroupAttrs × Bool) (done : Bool) :
    ∃ earlier later, Conserved t (agentStep t s (.read source done)) earlier later := by
  rw [agentStep]
  have samples := conserved.samples
  cases contents : s.ring with
  | nil => exact ⟨taken, waiting, conserved⟩
  | cons sample rest =>
      dsimp only
      by_cases running : s.reader.status = .running
      · rw [contents] at samples
        cases waiting with
        | nil => cases samples
        | cons raw others =>
            rw [List.map_cons, List.map_cons] at samples
            rcases List.cons.inj samples with ⟨decoded, remaining⟩
            rcases read_record_decoded t s.reader { sample := sample, source := source, done := done }
              raw running (conserved.accounted.sending running) decoded with ⟨events, total, errors⟩
            rw [if_pos running]
            refine ⟨taken ++ [raw], others, { conserved with
              records := ?_
              samples := remaining
              total := ?_
              decoded := errors.trans conserved.decoded
              accounted := read_record_accounted cel cfg t built _ _ conserved.accounted
              ordered := ?_ }⟩
            · rw [conserved.records, List.append_assoc]
              rfl
            · rw [total, conserved.total, List.length_append, List.length_singleton]
            · have later := conserved.ordered.append (passed_event_unlabelled t raw source)
              have grown : (taken ++ [raw]).map (fun raw => unlabelled (decodeConnEvent raw)) =
                  taken.map (fun raw => unlabelled (decodeConnEvent raw)) ++
                    [unlabelled (decodeConnEvent raw)] := List.map_append
              rw [← List.map_append, ← events, ← grown] at later
              exact later
      · rw [if_neg running]
        exact ⟨taken, waiting, conserved⟩

theorem agent_start_conserved (t : Tracer) (clock : U64) :
    Conserved t (AgentState.start clock) [] [] where
  balanced := rfl
  records := rfl
  samples := rfl
  total := rfl
  decoded := rfl
  accounted := reader_start_accounted t.filterSet
  ordered := List.Sublist.refl _

/-- Where the submissions are. -/
theorem conserved_counts (t : Tracer) (s : AgentState) (taken waiting : List ConnEvent)
    (conserved : Conserved t s taken waiting) :
    s.kernel.log.countP isSubmitted =
      s.kernel.filterDrops + s.kernel.ringbufDrops + s.ring.length + s.reader.droppedUserspace +
        (s.reader.handed.length + s.reader.abandoned.length) := by
  have balanced := conserved.balanced
  have records := conserved.records
  have total := conserved.accounted.total
  have passed := conserved.accounted.passed
  have pending := congrArg List.length conserved.samples
  change s.kernel.log.countP isSubmitted =
    s.kernel.ring.length + s.kernel.filterDrops + s.kernel.ringbufDrops at balanced
  change s.kernel.ring = taken ++ waiting at records
  rw [conserved.decoded, conserved.total] at total
  rw [List.length_map, List.length_map] at pending
  rw [List.length_append] at passed
  rw [balanced, records, List.length_append]
  omega

theorem conserved_order (t : Tracer) (s : AgentState) (taken waiting : List ConnEvent)
    (conserved : Conserved t s taken waiting) :
    ((s.reader.handed ++ s.reader.abandoned).map unlabelled).Sublist
      (s.kernel.ring.map fun raw => unlabelled (decodeConnEvent raw)) := by
  have records : s.kernel.ring = taken ++ waiting := conserved.records
  apply conserved.ordered.trans
  rw [records]
  exact (List.sublist_append_left taken waiting).map _

/-- In every interleaving of the handlers with the reader, no submission is lost
silently or counted twice: each is dropped by one of the three counted drops,
waits in the buffer, or has been passed on, in the order of emission and with
nothing changed but its label; at most one of those passed on was given up at its
send. No sample fails to decode. -/
theorem agent_conserves_events (cel : Cel) (cfg : List Config) (t : Tracer)
    (built : initFilters cel cfg = .ok t.filterSet) (clock : U64) (steps : List AgentStep) :
    let s := run (agentStep t) (AgentState.start clock) steps
    s.reader.decodeErrors = 0 ∧
      s.kernel.log.countP isSubmitted =
        s.kernel.filterDrops + s.kernel.ringbufDrops + s.ring.length + s.reader.droppedUserspace +
          (s.reader.handed.length + s.reader.abandoned.length) ∧
      s.reader.abandoned.length ≤ 1 ∧
      ((s.reader.handed ++ s.reader.abandoned).map unlabelled).Sublist
        (s.kernel.ring.map fun raw => unlabelled (decodeConnEvent raw)) := by
  have conserved := invariant_run (agentStep t)
    (fun s => ∃ taken waiting, Conserved t s taken waiting)
    (by
      intro s step found
      rcases found with ⟨taken, waiting, conserved⟩
      cases step with
      | handler step =>
          rcases handler_step_conserved t s taken waiting conserved step with ⟨later, after⟩
          exact ⟨taken, later, after⟩
      | read source done =>
          exact read_step_conserved cel cfg t built s taken waiting conserved source done)
    (AgentState.start clock) ⟨[], [], agent_start_conserved t clock⟩ steps
  generalize run (agentStep t) (AgentState.start clock) steps = s at conserved
  dsimp only
  rcases conserved with ⟨taken, waiting, conserved⟩
  constructor
  · exact conserved.decoded
  · exact ⟨conserved_counts t s taken waiting conserved, conserved.accounted.givenUp,
      conserved_order t s taken waiting conserved⟩

/-- A connection that is probed and closed while the reader takes the first record. -/
def probedConnection : List AgentStep :=
  [.handler (.sockState (plainCall 5) .close .synSent), .handler (.probe (plainCall 200000000)),
    .read ({ pod := "b" }, true) false,
    .handler (.sockState (plainCall 300000000) .established .finWait1)]

theorem agent_conserves_events_probed :
    initFilters hostPodCel hostPodFilters = .ok (some hostPodSet) ∧
      (let s := run (agentStep { filterSet := some hostPodSet, verify := false, events := true })
        (AgentState.start 0) probedConnection
      s.reader.decodeErrors = 0 ∧
        s.kernel.log.countP isSubmitted =
          s.kernel.filterDrops + s.kernel.ringbufDrops + s.ring.length + s.reader.droppedUserspace +
            (s.reader.handed.length + s.reader.abandoned.length)) := by
  have conserved := agent_conserves_events hostPodCel hostPodFilters
    { filterSet := some hostPodSet, verify := false, events := true } rfl 0 probedConnection
  exact ⟨rfl, conserved.1, conserved.2.1⟩

end KoAgent.AgentRuns
