import KoAgent.FilteredAgent
import KoAgent.EventDelivery

/-!
# From the handlers to the lines on stdout

The node agent as `run` puts it together: the tracer, whose sink is the channel
that `consumeEvents` reads, and the exporters behind it. The reader takes no
further sample while it stands at its `select` with an event in hand, and it
stands there while the channel is full. Handlers, start-up, the writers of the
verdict map, reader, consumer and exporters take their steps in any order.
-/

namespace KoAgent.NodePipeline

open KoAgent.FilterModel KoAgent.CelExpression KoAgent.FilterSets KoAgent.ContainerCache
open KoAgent.PushdownRefinement KoAgent.PushdownMeaning KoAgent.KernelFilter
open KoAgent.SocketHandlers KoAgent.EventReader KoAgent.EventDiscipline KoAgent.AgentRuns
open KoAgent.AgentDecisions KoAgent.FilteredAgent KoAgent.ReferenceCel KoAgent.BoundedChannels
open KoAgent.EventDelivery KoAgent.StepRuns

set_option autoImplicit false

/-- `run` always gives the tracer a sink. -/
def nodeTracer (filterSet : Option FilterSet) (verify : Bool) : Tracer where
  filterSet := filterSet
  verify := verify
  events := true

structure NodeState where
  tracer : FilteredState
  inHand : Option TracedEvent
  delivery : DeliveryState

def NodeState.start (clock : U64) (exporters : Nat) : NodeState where
  tracer := FilteredState.start clock
  inHand := none
  delivery := DeliveryState.start exporters

inductive NodeStep where
  | tracer (step : FilteredStep)
  | send
  | receive
  | lookup (answer : Option ContainerInfo)
  | push
  | drain (exporter : Nat)

/-- The event with which an iteration of the reader comes to its `select`. -/
def passedOn (before after : ReaderState) : Option TracedEvent :=
  after.handed[before.handed.length]?

def isRead : FilteredStep → Bool
  | .read _ _ _ => true
  | _ => false

def blocked (s : NodeState) (step : FilteredStep) : Bool := isRead step && s.inHand.isSome

def nodeStep (t : Tracer) (kontext : Bool) (s : NodeState) : NodeStep → NodeState
  | .tracer step =>
      if blocked s step then s
      else
        let tracer := filteredStep t s.tracer step
        { s with
          tracer := tracer
          inHand := s.inHand.or (passedOn s.tracer.agent.reader tracer.agent.reader) }
  | .send =>
      match s.inHand with
      | none => s
      | some event =>
          match s.delivery.events.send event with
          | none => s
          | some _ =>
              { s with
                inHand := none
                delivery := deliveryStep kontext s.delivery (.send event) }
  | .receive => { s with delivery := deliveryStep kontext s.delivery .receive }
  | .lookup answer => { s with delivery := deliveryStep kontext s.delivery (.lookup answer) }
  | .push => { s with delivery := deliveryStep kontext s.delivery .push }
  | .drain exporter => { s with delivery := deliveryStep kontext s.delivery (.drain exporter) }

/-- Both halves are in order, and what the reader handed over is in the second one
but for the event in hand. -/
structure NodeOk (t : Tracer) (s : NodeState) (taken waiting : List ConnEvent) : Prop where
  conserved : Conserved t s.tracer.agent taken waiting
  delivered : Delivered s.delivery
  handed : s.tracer.agent.reader.handed = s.delivery.sent ++ s.inHand.toList

theorem hand_over_handed (t : Tracer) (done : Bool) (event : TracedEvent) (s : ReaderState) :
    ∃ added : Option TracedEvent, (handOver t done event s).handed = s.handed ++ added.toList := by
  rw [handOver]
  by_cases given : (t.events && done) = true
  · rw [if_pos given]
    exact ⟨none, (List.append_nil _).symm⟩
  · rw [if_neg given]
    exact ⟨some event, rfl⟩

/-- One iteration hands over one event at most. -/
theorem read_record_handed (t : Tracer) (s : ReaderState) (read : Read) :
    ∃ added : Option TracedEvent, (readRecord t s read).handed = s.handed ++ added.toList := by
  rw [readRecord]
  by_cases running : s.status = .running
  · rw [if_pos running]
    cases KoAgent.WireFormats.binaryRead read.sample with
    | error problem => exact ⟨none, (List.append_nil _).symm⟩
    | ok raw =>
        dsimp only
        rcases note_resolution_shape t raw read.source
          { s with eventsTotal := s.eventsTotal + 1 } with ⟨updates, mismatches, shape⟩
        rw [shape]
        cases decideEvent t raw read.source with
        | droppedUserspace => exact ⟨none, (List.append_nil _).symm⟩
        | outOfRange => exact ⟨none, (List.append_nil _).symm⟩
        | passedBPF event => exact hand_over_handed t read.done event _
        | passedUserspace event => exact hand_over_handed t read.done event _
  · rw [if_neg running]
    exact ⟨none, (List.append_nil _).symm⟩

theorem agent_step_handed (t : Tracer) (s : AgentState) (step : AgentStep) :
    ∃ added : Option TracedEvent,
      (agentStep t s step).reader.handed = s.reader.handed ++ added.toList := by
  cases step with
  | handler step => exact ⟨none, (List.append_nil _).symm⟩
  | read source done =>
      rw [agentStep]
      cases s.ring with
      | nil => exact ⟨none, (List.append_nil _).symm⟩
      | cons sample rest =>
          dsimp only
          by_cases running : s.reader.status = .running
          · rw [if_pos running]
            exact read_record_handed t s.reader _
          · rw [if_neg running]
            exact ⟨none, (List.append_nil _).symm⟩

theorem filtered_step_handed (t : Tracer) (s : FilteredState) (step : FilteredStep) :
    (filteredStep t s step).agent.reader.handed = s.agent.reader.handed ++
      (passedOn s.agent.reader (filteredStep t s step).agent.reader).toList := by
  have grown : ∃ added : Option TracedEvent,
      (filteredStep t s step).agent.reader.handed = s.agent.reader.handed ++ added.toList := by
    rcases filtered_step_agent t s step with same | ⟨agent, -, moved⟩
    · rw [same]
      exact ⟨none, (List.append_nil _).symm⟩
    · rw [moved]
      exact agent_step_handed t s.agent agent
  rcases grown with ⟨added, handed⟩
  rw [passedOn, handed, List.getElem?_append_right (Nat.le_refl _), Nat.sub_self]
  cases added <;> rfl

/-- Only the reader hands over. -/
theorem passed_on_quiet (t : Tracer) (s : FilteredState) (step : FilteredStep)
    (quiet : isRead step = false) :
    passedOn s.agent.reader (filteredStep t s step).agent.reader = none := by
  have reader : (filteredStep t s step).agent.reader = s.agent.reader := by
    rcases filtered_step_agent t s step with same | ⟨agent, made, moved⟩
    · rw [same]
    · rw [moved]
      cases step with
      | handler step =>
          cases made
          rfl
      | read _ _ _ => cases quiet
      | programRules | storeVerdict _ _ | enable | dropVerdict _ => cases made
  rw [passedOn, reader]
  exact List.getElem?_eq_none (Nat.le_refl _)

theorem filtered_step_conserved (cel : Cel) (cfg : List Config) (t : Tracer)
    (built : initFilters cel cfg = .ok t.filterSet) (s : FilteredState)
    (taken waiting : List ConnEvent) (conserved : Conserved t s.agent taken waiting)
    (step : FilteredStep) :
    ∃ earlier later, Conserved t (filteredStep t s step).agent earlier later := by
  rcases filtered_step_agent t s step with same | ⟨agent, -, moved⟩
  · rw [same]
    exact ⟨taken, waiting, conserved⟩
  · rw [moved]
    cases agent with
    | handler step =>
        rcases handler_step_conserved t s.agent taken waiting conserved step with ⟨later, after⟩
        exact ⟨taken, later, after⟩
    | read source done =>
        exact read_step_conserved cel cfg t built s.agent taken waiting conserved source done

/-- The steps behind the channel leave what was sent. -/
theorem delivered_step (kontext : Bool) (t : Tracer) (s : NodeState)
    (taken waiting : List ConnEvent) (ok : NodeOk t s taken waiting) (step : DeliveryStep)
    (sent : (deliveryStep kontext s.delivery step).sent = s.delivery.sent) :
    NodeOk t { s with delivery := deliveryStep kontext s.delivery step } taken waiting where
  conserved := ok.conserved
  delivered := delivery_step_delivered kontext s.delivery ok.delivered step
  handed := by
    rw [sent]
    exact ok.handed

theorem receive_sent (kontext : Bool) (s : DeliveryState) :
    (deliveryStep kontext s .receive).sent = s.sent := by
  rw [deliveryStep]
  cases s.consumer with
  | waiting => cases s.events.receive <;> rfl
  | resolving event => rfl
  | pushing ev next => rfl

theorem lookup_sent (kontext : Bool) (s : DeliveryState) (answer : Option ContainerInfo) :
    (deliveryStep kontext s (.lookup answer)).sent = s.sent := by
  rw [deliveryStep]
  cases s.consumer <;> rfl

theorem push_sent (kontext : Bool) (s : DeliveryState) :
    (deliveryStep kontext s .push).sent = s.sent := by
  rw [deliveryStep]
  cases s.consumer with
  | waiting => rfl
  | resolving event => rfl
  | pushing ev next =>
      dsimp only
      split_ifs
      · rfl
      · rfl

theorem node_step_ok (cel : Cel) (cfg : List Config) (t : Tracer)
    (built : initFilters cel cfg = .ok t.filterSet) (kontext : Bool) (s : NodeState)
    (taken waiting : List ConnEvent) (ok : NodeOk t s taken waiting) (step : NodeStep) :
    ∃ earlier later, NodeOk t (nodeStep t kontext s step) earlier later := by
  cases step with
  | tracer step =>
      rw [nodeStep]
      by_cases waits : blocked s step = true
      · rw [if_pos waits]
        exact ⟨taken, waiting, ok⟩
      · rw [if_neg waits]
        rcases filtered_step_conserved cel cfg t built s.tracer taken waiting ok.conserved step with
          ⟨earlier, later, after⟩
        refine ⟨earlier, later, after, ok.delivered, ?_⟩
        have handed := filtered_step_handed t s.tracer step
        rw [ok.handed] at handed
        dsimp only
        cases hand : s.inHand with
        | none =>
            rw [hand, Option.toList_none, List.append_nil] at handed
            exact handed
        | some event =>
            have quiet : isRead step = false := by simpa [blocked, hand] using waits
            have nothing := passed_on_quiet t s.tracer step quiet
            rw [hand, nothing, Option.toList_none, List.append_nil] at handed
            exact handed
  | send =>
      rw [nodeStep]
      have handed := ok.handed
      cases hand : s.inHand with
      | none => exact ⟨taken, waiting, ok⟩
      | some event =>
          dsimp only
          cases made : s.delivery.events.send event with
          | none => exact ⟨taken, waiting, ok⟩
          | some events =>
              refine ⟨taken, waiting, ok.conserved,
                delivery_step_delivered kontext s.delivery ok.delivered (.send event), ?_⟩
              rw [hand] at handed
              simp only [deliveryStep, made, Option.toList_none, List.append_nil]
              exact handed
  | receive => exact ⟨taken, waiting, delivered_step kontext t s taken waiting ok _ (receive_sent _ _)⟩
  | lookup answer =>
      exact ⟨taken, waiting, delivered_step kontext t s taken waiting ok _ (lookup_sent _ _ _)⟩
  | push => exact ⟨taken, waiting, delivered_step kontext t s taken waiting ok _ (push_sent _ _)⟩
  | drain exporter => exact ⟨taken, waiting, delivered_step kontext t s taken waiting ok _ rfl⟩

theorem node_start_ok (t : Tracer) (clock : U64) (exporters : Nat) :
    NodeOk t (NodeState.start clock exporters) [] [] :=
  ⟨agent_start_conserved t clock, delivery_start_delivered exporters, rfl⟩

/-- An exporter logs events that the reader handed over, in that order. -/
theorem logged_sublist_handed (t : Tracer) (s : NodeState) (taken waiting : List ConnEvent)
    (ok : NodeOk t s taken waiting) (index : Nat) (e : StdoutExporter)
    (found : s.delivery.exporters[index]? = some e) :
    (e.logged.map ExportedEvent.event).Sublist s.tracer.agent.reader.handed := by
  rcases delivered_exporter s.delivery ok.delivered index e found with ⟨lossy, behind, _⟩
  have offered : e.logged.Sublist s.delivery.pushed :=
    ((List.sublist_append_left _ _).trans lossy.ordered).trans behind.sublist
  apply (offered.map ExportedEvent.event).trans
  rw [ok.handed, ok.delivered.sent, List.append_assoc, List.append_assoc]
  exact List.sublist_append_left _ _

/-- Whatever the order of the steps, and for each exporter by itself: every line on
stdout is a record that a handler put in the ring buffer, at most once, in the
order of emission, with nothing changed but the label, which is that of a filter.
And each submission without a line is in one of the four drops, is the one a
cancelled send gave up, or is still on its way. -/
theorem stdout_reports_emitted (cel : Cel) (cfg : List Config) (filterSet : Option FilterSet)
    (built : initFilters cel cfg = .ok filterSet) (verify kontext : Bool) (clock : U64)
    (exporters : Nat) (steps : List NodeStep) :
    let s := run (nodeStep (nodeTracer filterSet verify) kontext)
      (NodeState.start clock exporters) steps
    ∀ (index : Nat) (e : StdoutExporter), s.delivery.exporters[index]? = some e →
      ((e.logged.map ExportedEvent.event).map unlabelled).Sublist
          (s.tracer.agent.kernel.ring.map fun raw => unlabelled (decodeConnEvent raw)) ∧
        (∀ ev ∈ e.logged, Labelled filterSet ev.event) ∧
        s.tracer.agent.reader.abandoned.length ≤ 1 ∧
        ∃ ahead ≤ 1, s.tracer.agent.kernel.log.countP isSubmitted =
          s.tracer.agent.kernel.filterDrops + s.tracer.agent.kernel.ringbufDrops +
            s.tracer.agent.reader.droppedUserspace + e.lost + s.tracer.agent.reader.abandoned.length +
            (s.tracer.agent.ring.length + s.inHand.toList.length + s.delivery.events.items.length +
              (resolvingEvent s.delivery.consumer).length + ahead + e.events.items.length) +
            e.logged.length := by
  have reached := invariant_run (nodeStep (nodeTracer filterSet verify) kontext)
    (fun s => ∃ taken waiting, NodeOk (nodeTracer filterSet verify) s taken waiting)
    (by
      intro s step found
      rcases found with ⟨taken, waiting, ok⟩
      exact node_step_ok cel cfg (nodeTracer filterSet verify) built kontext s taken waiting ok step)
    (NodeState.start clock exporters) ⟨[], [], node_start_ok _ clock exporters⟩ steps
  generalize run (nodeStep (nodeTracer filterSet verify) kontext)
    (NodeState.start clock exporters) steps = s at reached
  dsimp only
  intro index e found
  rcases reached with ⟨taken, waiting, ok⟩
  have handed := logged_sublist_handed _ s taken waiting ok index e found
  refine ⟨?_, ?_, ok.conserved.accounted.givenUp, ?_⟩
  · apply (handed.map unlabelled).trans
    apply ((List.sublist_append_left _ _).map unlabelled).trans
    exact conserved_order _ s.tracer.agent taken waiting ok.conserved
  · intro ev member
    apply ok.conserved.accounted.labelled
    apply List.mem_append_left
    exact handed.subset (List.mem_map_of_mem member)
  · rcases delivered_exporter s.delivery ok.delivered index e found with ⟨lossy, behind, near⟩
    have counts := conserved_counts _ s.tracer.agent taken waiting ok.conserved
    have handedLength := congrArg List.length ok.handed
    have sentLength := congrArg List.length ok.delivered.sent
    have offeredLength := lossy.counted
    have short := behind.length_le
    rw [List.length_append] at handedLength
    rw [List.length_append, List.length_append, List.length_map] at sentLength
    refine ⟨s.delivery.pushed.length - e.offered.length, by omega, ?_⟩
    omega

/-- A connection is probed; the reader, the consumer and the one exporter take its
record to a line while the connection closes. -/
def loggedProbe : List NodeStep :=
  [.tracer .programRules, .tracer .enable,
    .tracer (.handler (.sockState (slowCall 5) .close .synSent)),
    .tracer (.handler (.probe (slowCall 200000000))),
    .tracer (.read ({ namespaceName := "prod" }, true) false true), .send,
    .tracer (.handler (.sockState (slowCall 300000000) .established .finWait1)),
    .receive, .lookup none, .push, .push, .drain 0]

theorem stdout_reports_probe :
    initFilters slowProdCel slowProdFilters = .ok (some slowProdSet) ∧
      ∃ e, (run (nodeStep (nodeTracer (some slowProdSet) false) true) (NodeState.start 0 1)
          loggedProbe).delivery.exporters[0]? = some e ∧ e.logged.length = 1 ∧
        ∀ ev ∈ e.logged, Labelled (some slowProdSet) ev.event := by
  have reports := stdout_reports_emitted slowProdCel slowProdFilters (some slowProdSet) rfl false true
    0 1 loggedProbe 0
  have one : ((run (nodeStep (nodeTracer (some slowProdSet) false) true) (NodeState.start 0 1)
      loggedProbe).delivery.exporters[0]?).map (fun e => e.logged.length) = some 1 := by
    decide +kernel
  rcases Option.map_eq_some_iff.mp one with ⟨e, found, length⟩
  exact ⟨rfl, e, found, length, (reports e found).2.1⟩

/-! ## The lines are the matching events -/

section Matches

variable (cel : Cel) (lawful : cel.Lawful) (cfg : List Config) (set : FilterSet)
variable (accepted : compile cel cfg = .ok set) (language : ∀ e ∈ set.asts, Fragment e)
variable (fits : set.flat.length ≤ maxPreds) (attrs : U64 → CgroupAttrs)

/-- What is asked of the steps of the tracer. -/
def NodeAllowed (s : NodeState) : NodeStep → Prop
  | .tracer step => blocked s step = false → FilteredAllowed set attrs s.tracer step
  | _ => True

/-- Nothing is on its way to the exporter any more, and no send was given up. -/
structure Drained (s : NodeState) (e : StdoutExporter) : Prop where
  ring : s.tracer.agent.ring = []
  inHand : s.inHand = none
  abandoned : s.tracer.agent.reader.abandoned = []
  channel : s.delivery.events.items = []
  consumer : s.delivery.consumer = .waiting
  queue : e.events.items = []

/-- A drained exporter that lost nothing has logged what the reader handed over. -/
theorem drained_logged (t : Tracer) (s : NodeState) (taken waiting : List ConnEvent)
    (ok : NodeOk t s taken waiting) (index : Nat) (e : StdoutExporter)
    (found : s.delivery.exporters[index]? = some e) (drained : Drained s e) (kept : e.lost = 0) :
    e.logged.map ExportedEvent.event = s.tracer.agent.reader.handed := by
  rcases ok.delivered.exporters index e found with ⟨lossy, offered⟩
  have sent := ok.delivered.sent
  have handed := ok.handed
  rw [ExporterOk, kept] at lossy
  have logged := lossless e.offered e.logged e.events.items lossy
  rw [drained.queue, List.append_nil, offered, given, drained.consumer] at logged
  rw [drained.consumer, drained.channel, List.append_nil] at sent
  rw [drained.inHand, sent] at handed
  rw [logged, handed]
  simp [resolvingEvent]

include lawful accepted language fits

theorem node_step_faithful (t : Tracer) (configured : t.filterSet = some set) (kontext : Bool)
    (s : NodeState) (step : NodeStep) (allowed : NodeAllowed set attrs s step)
    (placed : Placed set attrs s.tracer) (faithful : Faithful set attrs t s.tracer.agent) :
    Placed set attrs (nodeStep t kontext s step).tracer ∧
      Faithful set attrs t (nodeStep t kontext s step).tracer.agent := by
  cases step with
  | tracer step =>
      rw [nodeStep]
      by_cases waits : blocked s step = true
      · rw [if_pos waits]
        exact ⟨placed, faithful⟩
      · rw [if_neg waits]
        have permitted := allowed (by simpa using waits)
        constructor
        · exact filtered_step_placed set attrs t configured s.tracer step permitted placed
        · exact filtered_step_faithful cel lawful cfg set accepted language fits t configured attrs
            s.tracer step permitted placed faithful
  | send =>
      rw [nodeStep]
      cases s.inHand with
      | none => exact ⟨placed, faithful⟩
      | some event =>
          dsimp only
          cases s.delivery.events.send event with
          | none => exact ⟨placed, faithful⟩
          | some events => exact ⟨placed, faithful⟩
  | receive | lookup _ | push | drain _ => exact ⟨placed, faithful⟩

/-- Under attributes that stay as they are, and where the kernel decides CIDR tests as
user space does, in every run from the moment the handlers are attached: the lines of
an exporter are events the filters match, in order, each under its first match; and
once it is drained without a loss its lines are all the matching events among the
submissions that found room. -/
theorem stdout_lines_match (verify kontext : Bool) (clock : U64) (exporters : Nat)
    (steps : List NodeStep)
    (along : Along (nodeStep (nodeTracer (some set) verify) kontext) (NodeAllowed set attrs)
      (NodeState.start clock exporters) steps) :
    let s := run (nodeStep (nodeTracer (some set) verify) kontext)
      (NodeState.start clock exporters) steps
    s.tracer.agent.reached.length + s.tracer.agent.kernel.ringbufDrops =
        s.tracer.agent.kernel.log.countP isSubmitted ∧
      ∀ (index : Nat) (e : StdoutExporter), s.delivery.exporters[index]? = some e →
        (e.logged.map ExportedEvent.event).Sublist
            (s.tracer.agent.reached.filterMap (forwarded set attrs)) ∧
          (Drained s e → e.lost = 0 → e.logged.map ExportedEvent.event =
            s.tracer.agent.reached.filterMap (forwarded set attrs)) := by
  have built := init_filters_built cel cfg set accepted
  have reached := invariant_along (nodeStep (nodeTracer (some set) verify) kontext)
    (NodeAllowed set attrs)
    (fun s => (∃ taken waiting, NodeOk (nodeTracer (some set) verify) s taken waiting) ∧
      Placed set attrs s.tracer ∧
        Faithful set attrs (nodeTracer (some set) verify) s.tracer.agent)
    (by
      intro s step allowed found
      rcases found with ⟨⟨taken, waiting, ok⟩, placed, faithful⟩
      constructor
      · exact node_step_ok cel cfg (nodeTracer (some set) verify) built kontext s taken waiting ok step
      · exact node_step_faithful cel lawful cfg set accepted language fits attrs
          (nodeTracer (some set) verify) rfl kontext s step allowed placed faithful)
    (NodeState.start clock exporters)
    ⟨⟨[], [], node_start_ok _ clock exporters⟩, start_placed set attrs clock,
      start_faithful set attrs _ clock⟩ steps along
  generalize run (nodeStep (nodeTracer (some set) verify) kontext)
    (NodeState.start clock exporters) steps = s at reached
  rcases reached with ⟨⟨taken, waiting, ok⟩, -, faithful⟩
  have events := faithful.events
  dsimp only
  constructor
  · exact faithful.reached
  · intro index e found
    constructor
    · apply (logged_sublist_handed _ s taken waiting ok index e found).trans
      rw [← events, List.append_assoc]
      exact List.sublist_append_left _ _
    · intro drained kept
      rw [drained.abandoned, drained.ring] at events
      rw [drained_logged _ s taken waiting ok index e found drained kept, ← events]
      simp

end Matches

theorem logged_probe_allowed (t : Tracer) :
    Along (nodeStep t true) (NodeAllowed slowProdSet prodAttrs) (NodeState.start 0 1)
      loggedProbe := by
  refine ⟨?_, ?_, ?_, ?_, ?_, trivial, ?_, trivial, trivial, trivial, trivial, trivial, trivial⟩
  · intro _
    trivial
  · intro _
    trivial
  · intro _ call sub made
    exact slow_prod_cidrs call sub
  · intro _ call sub made
    exact slow_prod_cidrs call sub
  · intro _ sample rest raw front decoded
    rfl
  · intro _ call sub made
    exact slow_prod_cidrs call sub

theorem logged_probe_matches :
    ∃ e, (run (nodeStep (nodeTracer (some slowProdSet) false) true) (NodeState.start 0 1)
        loggedProbe).delivery.exporters[0]? = some e ∧ e.logged.length = 1 ∧
      (e.logged.map ExportedEvent.event).Sublist
        ((run (nodeStep (nodeTracer (some slowProdSet) false) true) (NodeState.start 0 1)
          loggedProbe).tracer.agent.reached.filterMap (forwarded slowProdSet prodAttrs)) := by
  have lines := (stdout_lines_match slowProdCel (reference_lawful _) slowProdFilters slowProdSet rfl
    (by simp [slowProdSet, slow_prod_fragment]) (by decide) prodAttrs false true 0 1 loggedProbe
    (logged_probe_allowed _)).2 0
  have one : ((run (nodeStep (nodeTracer (some slowProdSet) false) true) (NodeState.start 0 1)
      loggedProbe).delivery.exporters[0]?).map (fun e => e.logged.length) = some 1 := by
    decide +kernel
  rcases Option.map_eq_some_iff.mp one with ⟨e, found, length⟩
  exact ⟨e, found, length, (lines e found).1⟩

end KoAgent.NodePipeline
