import KoAgent.BoundedChannels
import KoAgent.EventReader

/-!
# From the tracer to the exporters

The goroutines of `App.Run` behind the tracer: `consumeEvents` takes events from
a channel of 256, looks the container up and pushes the event to every exporter in
turn; each exporter keeps a queue of 1024, loses what does not fit, and logs the
rest at its own pace. A step is one action of one goroutine, in any order. Behind
a cancelled context goroutines stop taking steps. `sent`, `pushed`, `offered` and
`lost` are ghosts: what the tracer sent, what the consumer pushed, what one
exporter was offered, and how much of that found its queue full.
-/

namespace KoAgent.EventDelivery

open KoAgent.FilterModel KoAgent.ContainerCache KoAgent.EventReader KoAgent.BoundedChannels
open KoAgent.StepRuns

set_option autoImplicit false

def queueSize : Nat := 1024

def eventsSize : Nat := 256

/-- `exporters.Event`. -/
structure ExportedEvent where
  event : TracedEvent
  container : Option ContainerInfo
  deriving DecidableEq

structure StdoutExporter where
  events : Channel ExportedEvent queueSize
  logged : List ExportedEvent
  offered : List ExportedEvent
  lost : Nat

def newStdoutExporter : StdoutExporter where
  events := Channel.empty
  logged := []
  offered := []
  lost := 0

/-- `Push`: the `default` branch of the `select` drops the event. -/
def StdoutExporter.push (e : StdoutExporter) (ev : ExportedEvent) : StdoutExporter :=
  match e.events.send ev with
  | some events => { e with events := events, offered := e.offered ++ [ev] }
  | none => { e with offered := e.offered ++ [ev], lost := e.lost + 1 }

/-- One round of `StdoutExporter.Run`. -/
def StdoutExporter.drain (e : StdoutExporter) : StdoutExporter :=
  match e.events.receive with
  | some (ev, events) => { e with events := events, logged := e.logged ++ [ev] }
  | none => e

/-- Where `consumeEvents` is: at its `select`, in the lookup of `push`, or at the
exporter with the given index in the loop of `push`. -/
inductive Consumer where
  | waiting
  | resolving (event : TracedEvent)
  | pushing (ev : ExportedEvent) (next : Nat)
  deriving DecidableEq

structure DeliveryState where
  events : Channel TracedEvent eventsSize
  consumer : Consumer
  exporters : List StdoutExporter
  sent : List TracedEvent
  pushed : List ExportedEvent

def DeliveryState.start (count : Nat) : DeliveryState where
  events := Channel.empty
  consumer := .waiting
  exporters := List.replicate count newStdoutExporter
  sent := []
  pushed := []

inductive DeliveryStep where
  | send (event : TracedEvent)
  | receive
  | lookup (answer : Option ContainerInfo)
  | push
  | drain (exporter : Nat)
  deriving DecidableEq

/-- The container of the event; without a cgroup or a client there is no lookup. -/
def eventContainer (kontext : Bool) (event : TracedEvent) (answer : Option ContainerInfo) :
    Option ContainerInfo :=
  if event.cgroupID ≠ 0 ∧ kontext = true then answer else none

def deliveryStep (kontext : Bool) (s : DeliveryState) : DeliveryStep → DeliveryState
  | .send event =>
      match s.events.send event with
      | none => s
      | some events => { s with events := events, sent := s.sent ++ [event] }
  | .receive =>
      match s.consumer, s.events.receive with
      | .waiting, some (event, events) => { s with events := events, consumer := .resolving event }
      | _, _ => s
  | .lookup answer =>
      match s.consumer with
      | .resolving event =>
          let ev := { event := event, container := eventContainer kontext event answer }
          { s with consumer := .pushing ev 0, pushed := s.pushed ++ [ev] }
      | _ => s
  | .push =>
      match s.consumer with
      | .pushing ev next =>
          if next < s.exporters.length then
            { s with
              consumer := .pushing ev (next + 1)
              exporters := s.exporters.modify next fun e => e.push ev }
          else { s with consumer := .waiting }
      | _ => s
  | .drain exporter => { s with exporters := s.exporters.modify exporter StdoutExporter.drain }

/-- What reached one exporter, against what it was offered. -/
def ExporterOk (e : StdoutExporter) : Prop := Lossy e.offered e.logged e.events.items e.lost

theorem push_offered (e : StdoutExporter) (ev : ExportedEvent) :
    (e.push ev).offered = e.offered ++ [ev] := by
  rw [StdoutExporter.push]
  cases e.events.send ev <;> rfl

theorem push_ok (e : StdoutExporter) (ok : ExporterOk e) (ev : ExportedEvent) :
    ExporterOk (e.push ev) := by
  rw [ExporterOk, StdoutExporter.push]
  cases sent : e.events.send ev with
  | none => exact lossy_refused _ _ _ _ ok ev
  | some events =>
      have items := ((send_some_iff e.events events ev).mp sent).2
      dsimp only
      rw [items]
      exact lossy_accepted _ _ _ _ ok ev

theorem drain_offered (e : StdoutExporter) : e.drain.offered = e.offered := by
  rw [StdoutExporter.drain]
  cases e.events.receive <;> rfl

theorem drain_ok (e : StdoutExporter) (ok : ExporterOk e) : ExporterOk e.drain := by
  rw [StdoutExporter.drain]
  cases received : e.events.receive with
  | none => exact ok
  | some taken =>
      have items := receive_some_items e.events taken.2 taken.1 received
      rw [ExporterOk, items] at ok
      exact lossy_received _ _ _ _ _ ok

/-- The events that the exporter at `index` has been offered by now. -/
def given (s : DeliveryState) (index : Nat) : List ExportedEvent :=
  match s.consumer with
  | .pushing _ next => if index < next then s.pushed else s.pushed.dropLast
  | .waiting => s.pushed
  | .resolving _ => s.pushed

/-- The event taken from the channel that is not pushed yet. -/
def resolvingEvent : Consumer → List TracedEvent
  | .resolving event => [event]
  | .waiting => []
  | .pushing _ _ => []

structure Delivered (s : DeliveryState) : Prop where
  exporters : ∀ index e, s.exporters[index]? = some e → ExporterOk e ∧ e.offered = given s index
  current : ∀ ev next, s.consumer = .pushing ev next → s.pushed.dropLast ++ [ev] = s.pushed
  sent : s.sent = s.pushed.map ExportedEvent.event ++ resolvingEvent s.consumer ++ s.events.items

/-- A change to one exporter, and what is to be shown of that exporter alone. -/
theorem modified_exporters (exporters : List StdoutExporter) (index : Nat)
    (change : StdoutExporter → StdoutExporter) (before after : Nat → List ExportedEvent)
    (ok : ∀ i e, exporters[i]? = some e → ExporterOk e ∧ e.offered = before i)
    (here : ∀ e, ExporterOk e → e.offered = before index →
      ExporterOk (change e) ∧ (change e).offered = after index)
    (others : ∀ i, i ≠ index → after i = before i) (i : Nat) (e : StdoutExporter)
    (found : (exporters.modify index change)[i]? = some e) : ExporterOk e ∧ e.offered = after i := by
  rw [List.getElem?_modify, Option.map_eq_map] at found
  rcases Option.map_eq_some_iff.mp found with ⟨old, place, result⟩
  rcases ok i old place with ⟨lossy, offered⟩
  by_cases same : index = i
  · subst same
    rw [if_pos rfl] at result
    subst result
    exact here old lossy offered
  · rw [if_neg same] at result
    subst result
    rw [others i (fun equal => same equal.symm)]
    exact ⟨lossy, offered⟩

section Steps

variable (kontext : Bool) (s : DeliveryState) (delivered : Delivered s)

include delivered

theorem send_delivered (event : TracedEvent) : Delivered (deliveryStep kontext s (.send event)) := by
  rw [deliveryStep]
  cases made : s.events.send event with
  | none => exact delivered
  | some events =>
      have items := ((send_some_iff s.events events event).mp made).2
      refine { delivered with sent := ?_ }
      dsimp only
      rw [items, delivered.sent, List.append_assoc]

theorem receive_delivered : Delivered (deliveryStep kontext s .receive) := by
  rw [deliveryStep]
  cases phase : s.consumer with
  | waiting =>
      cases received : s.events.receive with
      | none => exact delivered
      | some taken =>
          have items := receive_some_items s.events taken.2 taken.1 received
          have sent := delivered.sent
          have exporters := delivered.exporters
          simp only [given, phase] at exporters
          rw [phase, items] at sent
          constructor
          · exact exporters
          · intro ev next pushing
            cases pushing
          · rw [sent]
            simp [resolvingEvent]
  | resolving event => exact delivered
  | pushing ev next => exact delivered

theorem lookup_delivered (answer : Option ContainerInfo) :
    Delivered (deliveryStep kontext s (.lookup answer)) := by
  rw [deliveryStep]
  cases phase : s.consumer with
  | waiting => exact delivered
  | pushing ev next => exact delivered
  | resolving event =>
      have sent := delivered.sent
      have exporters := delivered.exporters
      simp only [given, phase] at exporters
      rw [phase] at sent
      constructor
      · intro index e found
        rcases exporters index e found with ⟨lossy, offered⟩
        refine ⟨lossy, ?_⟩
        simp only [given]
        rw [if_neg (Nat.not_lt_zero index), List.dropLast_concat]
        exact offered
      · intro ev next pushing
        cases pushing
        dsimp only
        rw [List.dropLast_concat]
      · dsimp only
        rw [sent, List.map_append]
        simp [resolvingEvent]

/-- One exporter more has been offered the event in hand. -/
theorem push_one_delivered (ev : ExportedEvent) (next : Nat) (phase : s.consumer = .pushing ev next) :
    Delivered { s with
      consumer := .pushing ev (next + 1)
      exporters := s.exporters.modify next fun e => e.push ev } := by
  have current := delivered.current ev next phase
  have sent := delivered.sent
  have exporters := delivered.exporters
  simp only [given, phase] at exporters
  rw [phase] at sent
  constructor
  · simp only [given]
    apply modified_exporters s.exporters next (fun e => e.push ev) _ _ exporters
    · intro e lossy offered
      rw [if_neg (Nat.lt_irrefl next)] at offered
      refine ⟨push_ok e lossy ev, ?_⟩
      rw [push_offered, offered, current, if_pos (Nat.lt_succ_self next)]
    · intro i other
      have same : i < next + 1 ↔ i < next := by omega
      simp only [same]
  · intro other later pushing
    cases pushing
    exact current
  · exact sent

theorem push_done_delivered (ev : ExportedEvent) (next : Nat) (phase : s.consumer = .pushing ev next)
    (all : s.exporters.length ≤ next) : Delivered { s with consumer := .waiting } := by
  have sent := delivered.sent
  have exporters := delivered.exporters
  simp only [given, phase] at exporters
  rw [phase] at sent
  constructor
  · intro index e found
    have inside : index < s.exporters.length := (List.getElem?_eq_some_iff.mp found).1
    rcases exporters index e found with ⟨lossy, offered⟩
    rw [if_pos (by omega)] at offered
    exact ⟨lossy, offered⟩
  · intro other later pushing
    cases pushing
  · exact sent

theorem push_delivered : Delivered (deliveryStep kontext s .push) := by
  rw [deliveryStep]
  cases phase : s.consumer with
  | waiting => exact delivered
  | resolving event => exact delivered
  | pushing ev next =>
      dsimp only
      by_cases more : next < s.exporters.length
      · rw [if_pos more]
        exact push_one_delivered s delivered ev next phase
      · rw [if_neg more]
        exact push_done_delivered s delivered ev next phase (Nat.le_of_not_lt more)

theorem drain_delivered (exporter : Nat) :
    Delivered (deliveryStep kontext s (.drain exporter)) := by
  rw [deliveryStep]
  refine { delivered with exporters := ?_ }
  apply modified_exporters s.exporters exporter StdoutExporter.drain _ _ delivered.exporters
  · intro e lossy offered
    rw [drain_offered]
    exact ⟨drain_ok e lossy, offered⟩
  · intro i other
    rfl

theorem delivery_step_delivered (step : DeliveryStep) : Delivered (deliveryStep kontext s step) := by
  cases step with
  | send event => exact send_delivered kontext s delivered event
  | receive => exact receive_delivered kontext s delivered
  | lookup answer => exact lookup_delivered kontext s delivered answer
  | push => exact push_delivered kontext s delivered
  | drain exporter => exact drain_delivered kontext s delivered exporter

end Steps

theorem delivery_start_delivered (count : Nat) : Delivered (DeliveryState.start count) := by
  constructor
  · intro index e found
    rw [List.eq_of_mem_replicate (List.mem_of_getElem? found)]
    exact ⟨lossy_start, rfl⟩
  · intro ev next pushing
    cases pushing
  · rfl

/-- One exporter against the consumer: it has been offered all but at most the last
of the pushed events. -/
theorem delivered_exporter (s : DeliveryState) (delivered : Delivered s) (index : Nat)
    (e : StdoutExporter) (found : s.exporters[index]? = some e) :
    Lossy e.offered e.logged e.events.items e.lost ∧ e.offered <+: s.pushed ∧
      s.pushed.length ≤ e.offered.length + 1 := by
  rcases delivered.exporters index e found with ⟨lossy, offered⟩
  refine ⟨lossy, ?_⟩
  rw [offered, given]
  cases s.consumer with
  | waiting => exact ⟨List.prefix_rfl, Nat.le_succ _⟩
  | resolving event => exact ⟨List.prefix_rfl, Nat.le_succ _⟩
  | pushing ev next =>
      dsimp only
      by_cases done : index < next
      · rw [if_pos done]
        exact ⟨List.prefix_rfl, Nat.le_succ _⟩
      · rw [if_neg done, List.length_dropLast]
        exact ⟨List.dropLast_prefix _, by omega⟩

/-- Everything but one exporter. -/
structure OthersView where
  events : Channel TracedEvent eventsSize
  consumer : Consumer
  sent : List TracedEvent
  pushed : List ExportedEvent
  count : Nat
  others : Nat → Option StdoutExporter

def hidden (exporter : Nat) (exporters : List StdoutExporter) : Nat → Option StdoutExporter :=
  fun index => if index = exporter then none else exporters[index]?

def othersView (exporter : Nat) (s : DeliveryState) : OthersView where
  events := s.events
  consumer := s.consumer
  sent := s.sent
  pushed := s.pushed
  count := s.exporters.length
  others := hidden exporter s.exporters

theorem hidden_modify (exporter index : Nat) (change : StdoutExporter → StdoutExporter)
    (exporters : List StdoutExporter) :
    hidden exporter (exporters.modify index change) = fun i =>
      (hidden exporter exporters i).map fun e => if index = i then change e else e := by
  funext i
  rw [hidden, hidden, List.getElem?_modify, Option.map_eq_map]
  by_cases here : i = exporter
  · rw [if_pos here, if_pos here]
    rfl
  · rw [if_neg here, if_neg here]

theorem hidden_modify_self (exporter : Nat) (change : StdoutExporter → StdoutExporter)
    (exporters : List StdoutExporter) :
    hidden exporter (exporters.modify exporter change) = hidden exporter exporters := by
  rw [hidden_modify]
  funext i
  by_cases same : exporter = i
  · rw [hidden, if_pos same.symm]
    rfl
  · simp only [if_neg same, Option.map_id']

/-- One step on two states that differ in the hidden exporter only. -/
theorem delivery_step_determined (kontext : Bool) (exporter : Nat) (left right : DeliveryState)
    (step : DeliveryStep) (same : othersView exporter left = othersView exporter right) :
    othersView exporter (deliveryStep kontext left step) =
      othersView exporter (deliveryStep kontext right step) := by
  cases left with
  | mk events consumer exporters sent pushed =>
  cases right with
  | mk events' consumer' exporters' sent' pushed' =>
  simp only [othersView, OthersView.mk.injEq] at same
  rcases same with ⟨rfl, rfl, rfl, rfl, count, others⟩
  have modified (index : Nat) (change : StdoutExporter → StdoutExporter) :
      hidden exporter (exporters.modify index change) =
        hidden exporter (exporters'.modify index change) := by
    rw [hidden_modify, hidden_modify, others]
  cases step with
  | send event =>
      simp only [deliveryStep]
      cases events.send event <;> simp only [othersView, count, others]
  | receive =>
      simp only [deliveryStep]
      cases consumer with
      | waiting => cases events.receive <;> simp only [othersView, count, others]
      | resolving event => simp only [othersView, count, others]
      | pushing ev next => simp only [othersView, count, others]
  | lookup answer =>
      simp only [deliveryStep]
      cases consumer <;> simp only [othersView, count, others]
  | push =>
      simp only [deliveryStep]
      cases consumer with
      | waiting => simp only [othersView, count, others]
      | resolving event => simp only [othersView, count, others]
      | pushing ev next =>
          dsimp only
          rw [count]
          by_cases more : next < exporters'.length
          · rw [if_pos more, if_pos more]
            simp only [othersView, List.length_modify, count, modified]
          · rw [if_neg more, if_neg more]
            simp only [othersView, count, others]
  | drain index => simp only [deliveryStep, othersView, List.length_modify, count, modified]

/-- How fast one exporter logs, and whether it does at all, makes no difference to
the tracer, the consumer and the other exporters. -/
theorem exporter_pace_invisible (kontext : Bool) (count exporter : Nat) (steps : List DeliveryStep) :
    othersView exporter (run (deliveryStep kontext) (DeliveryState.start count) steps) =
      othersView exporter (run (deliveryStep kontext) (DeliveryState.start count)
        (steps.filter fun step => !decide (step = .drain exporter))) := by
  apply run_without_quiet (deliveryStep kontext) (othersView exporter)
    (fun step => decide (step = .drain exporter))
  · exact delivery_step_determined kontext exporter
  · rfl
  · generalize DeliveryState.start count = s
    induction steps generalizing s with
    | nil => trivial
    | cons step rest induction =>
        constructor
        · intro quiet
          rw [of_decide_eq_true quiet]
          simp only [deliveryStep, othersView, List.length_modify, hidden_modify_self]
        · exact induction _

def ofConsumer : DeliveryStep → Bool
  | .receive => true
  | .lookup _ => true
  | .push => true
  | .send _ => false
  | .drain _ => false

/-- The steps the consumer still takes before it is back at its `select`. -/
def remaining (s : DeliveryState) : Nat :=
  match s.consumer with
  | .waiting => 0
  | .resolving _ => s.exporters.length + 2
  | .pushing _ next => s.exporters.length - next + 1

/-- The consumer's next step is always possible and brings it closer to its `select`. -/
theorem consumer_advances (kontext : Bool) (s : DeliveryState) (busy : remaining s ≠ 0) :
    ∃ step, ofConsumer step = true ∧ (deliveryStep kontext s step).events = s.events ∧
      remaining (deliveryStep kontext s step) + 1 ≤ remaining s := by
  cases phase : s.consumer with
  | waiting =>
      rw [remaining, phase] at busy
      exact absurd rfl busy
  | resolving event =>
      refine ⟨.lookup none, rfl, ?_, ?_⟩
      · rw [deliveryStep, phase]
      · simp only [deliveryStep, remaining, phase]
        omega
  | pushing ev next =>
      refine ⟨.push, rfl, ?_, ?_⟩
      · simp only [deliveryStep, phase]
        split_ifs
        · rfl
        · rfl
      · simp only [deliveryStep, remaining, phase]
        by_cases more : next < s.exporters.length
        · rw [if_pos more]
          simp only [List.length_modify]
          omega
        · rw [if_neg more]
          dsimp only
          omega

theorem consumer_returns (kontext : Bool) (count : Nat) (s : DeliveryState)
    (bound : remaining s ≤ count) :
    ∃ steps, steps.length ≤ count ∧ (∀ step ∈ steps, ofConsumer step = true) ∧
      (run (deliveryStep kontext) s steps).events = s.events ∧
      remaining (run (deliveryStep kontext) s steps) = 0 := by
  induction count generalizing s with
  | zero =>
      refine ⟨[], Nat.le_refl 0, ?_, rfl, Nat.le_zero.mp bound⟩
      intro step member
      cases member
  | succ count induction =>
      by_cases idle : remaining s = 0
      · refine ⟨[], Nat.zero_le _, ?_, rfl, idle⟩
        intro step member
        cases member
      · rcases consumer_advances kontext s idle with ⟨step, own, events, closer⟩
        rcases induction (deliveryStep kontext s step) (by omega) with
          ⟨steps, few, owned, kept, done⟩
        refine ⟨step :: steps, Nat.succ_le_succ few, ?_, kept.trans events, done⟩
        intro other member
        rcases List.mem_cons.mp member with rfl | later
        · exact own
        · exact owned other later

/-- The tracer's send is never stopped for good: from any state, with every
exporter at a standstill, the consumer alone makes room in a bounded number of
its own steps. -/
theorem consumer_makes_room (kontext : Bool) (s : DeliveryState) :
    ∃ steps, steps.length ≤ s.exporters.length + 3 ∧ (∀ step ∈ steps, ofConsumer step = true) ∧
      (run (deliveryStep kontext) s steps).events.items.length < eventsSize := by
  have bound : remaining s ≤ s.exporters.length + 2 := by
    rw [remaining]
    cases s.consumer with
    | waiting => exact Nat.zero_le _
    | resolving event => exact Nat.le_refl _
    | pushing ev next =>
        dsimp only
        omega
  rcases consumer_returns kontext _ s bound with ⟨steps, few, owned, kept, idle⟩
  by_cases room : s.events.items.length < eventsSize
  · refine ⟨steps, by omega, owned, ?_⟩
    rw [kept]
    exact room
  · refine ⟨steps ++ [.receive], ?_, ?_, ?_⟩
    · rw [List.length_append, List.length_singleton]
      omega
    · intro step member
      rcases List.mem_append.mp member with earlier | last
      · exact owned step earlier
      · rw [List.mem_singleton.mp last]
        rfl
    · have last : run (deliveryStep kontext) s (steps ++ [.receive]) =
          deliveryStep kontext (run (deliveryStep kontext) s steps) .receive := run_append ..
      have full : (run (deliveryStep kontext) s steps).events.items.length ≤ eventsSize :=
        (run (deliveryStep kontext) s steps).events.bounded
      rw [← kept] at room
      rw [last]
      generalize run (deliveryStep kontext) s steps = t at idle room full
      rw [remaining] at idle
      rw [deliveryStep]
      cases phase : t.consumer with
      | resolving event =>
          rw [phase] at idle
          cases idle
      | pushing ev next =>
          rw [phase] at idle
          cases idle
      | waiting =>
          cases received : t.events.receive with
          | none =>
              have empty := receive_none_items t.events received
              rw [empty] at room
              exact absurd (by decide) room
          | some taken =>
              have items := receive_some_items t.events taken.2 taken.1 received
              rw [items, List.length_cons] at full
              exact full

end KoAgent.EventDelivery
