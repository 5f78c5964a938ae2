import KoAgent.AgentDecisions

/-!
# The agent with the maps it fills

`Run` attaches the handlers before `startFilters` fills the maps they read: the
rules, then the verdicts, then the switch that turns filtering on; the reader
starts last and stores verdicts itself. So the handlers see the maps in every
state between empty and complete. Here the maps are part of the system, and
nothing is assumed of them.
-/

namespace KoAgent.FilteredAgent

open KoAgent.ByteWords KoAgent.FilterModel KoAgent.CelExpression KoAgent.FilterSets
open KoAgent.CompiledSets KoAgent.PushdownRefinement KoAgent.PushdownMeaning
open KoAgent.KernelFilter KoAgent.SocketHandlers KoAgent.EventDiscipline KoAgent.FilterResolution
open KoAgent.WireFormats KoAgent.EventReader KoAgent.AgentRuns KoAgent.AgentDecisions
open KoAgent.ReferenceCel KoAgent.StepRuns

set_option autoImplicit false

/-- How far `startFilters` has come. -/
inductive Startup where
  | attached
  | programmed
  | enabled
  deriving DecidableEq

structure FilteredState where
  agent : AgentState
  maps : FilterMaps
  startup : Startup

/-- Array maps start out as zeros, hash maps empty. -/
def newMaps : FilterMaps where
  cfg := some 0
  prog := some { nFilters := 0, nPreds := 0, preds := fun _ => {} }
  verdicts := fun _ => none

def FilteredState.start (clock : U64) : FilteredState where
  agent := AgentState.start clock
  maps := newMaps
  startup := .attached

/-- The handler reads the maps of this moment. -/
def onMaps (maps : FilterMaps) : HandlerStep → HandlerStep
  | .sockState call oldstate newstate => .sockState { call with maps := maps } oldstate newstate
  | .retransmit call => .retransmit { call with maps := maps }
  | .probe call => .probe { call with maps := maps }
  | .destroySock skaddr => .destroySock skaddr
  | .evict skaddr => .evict skaddr

/-- `storeVerdict` is one update of `syncOnce`, `dropVerdict` one of its deletions or
an eviction; `stored` says whether the update of the reader succeeds. -/
inductive FilteredStep where
  | programRules
  | storeVerdict (cgroupID : U64) (attrs : CgroupAttrs)
  | enable
  | dropVerdict (cgroupID : U64)
  | handler (step : HandlerStep)
  | read (source : CgroupAttrs × Bool) (done stored : Bool)

def storeVerdicts (verdicts : U64 → Option U64) (updates : List (U64 × U64)) : U64 → Option U64 :=
  updates.foldl (fun verdicts entry => Function.update verdicts entry.1 (some entry.2)) verdicts

/-- The map updates of an iteration of the reader. -/
def newUpdates (before after : ReaderState) : List (U64 × U64) :=
  after.updates.drop before.updates.length

/-- Without filters `startFilters` only turns the switch on. -/
def filteredStep (t : Tracer) (s : FilteredState) : FilteredStep → FilteredState
  | .programRules =>
      match s.startup, t.filterSet with
      | .attached, some set =>
          { s with maps := { s.maps with prog := some set.bpfProg }, startup := .programmed }
      | _, _ => s
  | .storeVerdict cgroupID attrs =>
      match s.startup, t.filterSet with
      | .attached, _ => s
      | _, none => s
      | _, some set =>
          { s with
            maps := { s.maps with
              verdicts := Function.update s.maps.verdicts cgroupID (some (set.verdictMask attrs)) } }
  | .enable =>
      match s.startup, t.filterSet with
      | .programmed, some _ =>
          { s with maps := { s.maps with cfg := some 1 }, startup := .enabled }
      | .attached, none => { s with maps := { s.maps with cfg := some 1 }, startup := .enabled }
      | _, _ => s
  | .dropVerdict cgroupID =>
      { s with
        maps := { s.maps with verdicts := Function.update s.maps.verdicts cgroupID none } }
  | .handler step => { s with agent := agentStep t s.agent (.handler (onMaps s.maps step)) }
  | .read source done stored =>
      if s.startup = .enabled then
        let agent := agentStep t s.agent (.read source done)
        { s with
          agent := agent
          maps :=
            if stored then
              { s.maps with
                verdicts := storeVerdicts s.maps.verdicts (newUpdates s.agent.reader agent.reader) }
            else s.maps }
      else s

/-- The step that the handlers and the reader take in a step of the system. -/
def agentPart (s : FilteredState) : FilteredStep → Option AgentStep
  | .handler step => some (.handler (onMaps s.maps step))
  | .read source done _ => some (.read source done)
  | .programRules | .storeVerdict _ _ | .enable | .dropVerdict _ => none

theorem filtered_step_agent (t : Tracer) (s : FilteredState) (step : FilteredStep) :
    (filteredStep t s step).agent = s.agent ∨
      ∃ agent, agentPart s step = some agent ∧
        (filteredStep t s step).agent = agentStep t s.agent agent := by
  cases step with
  | programRules | storeVerdict _ _ | enable =>
      left
      rw [filteredStep]
      split
      all_goals rfl
  | dropVerdict cgroupID => exact Or.inl rfl
  | handler step => exact Or.inr ⟨_, rfl, rfl⟩
  | read source done stored =>
      rw [filteredStep]
      by_cases stage : s.startup = .enabled
      · rw [if_pos stage]
        exact Or.inr ⟨_, rfl, rfl⟩
      · rw [if_neg stage]
        exact Or.inl rfl

section Startup

variable (set : FilterSet) (attrs : U64 → CgroupAttrs)

/-- The cgroups keep their attributes, and the kernel decides CIDR tests as user
space does. -/
def FilteredAllowed (s : FilteredState) : FilteredStep → Prop
  | .storeVerdict cgroupID found => found = attrs cgroupID
  | .handler step => ∀ call sub,
      stepSubmission s.agent.kernel.sockCtx (onMaps s.maps step) = some (call, sub) →
        CidrsAgree set attrs call sub
  | .read source done _ => StepOk set attrs s.agent (.read source done)
  | _ => True

/-- The maps at each stage of `startFilters`. -/
structure Placed (s : FilteredState) : Prop where
  off : s.startup ≠ .enabled → s.maps.cfg = some 0
  on : s.startup = .enabled → s.maps.cfg = some 1
  rules : s.startup ≠ .attached → s.maps.prog = some set.bpfProg
  verdicts : ∀ id mask, s.maps.verdicts id = some mask → mask = set.verdictMask (attrs id)

theorem placed_maps_ok (s : FilteredState) (placed : Placed set attrs s) :
    MapsOk set attrs s.maps := by
  constructor
  · cases stage : s.startup with
    | attached =>
        left
        apply placed.off
        rw [stage]
        decide
    | programmed =>
        left
        apply placed.off
        rw [stage]
        decide
    | enabled =>
        right
        constructor
        · exact placed.on stage
        · apply placed.rules
          rw [stage]
          decide
  · exact placed.verdicts

theorem start_placed (clock : U64) : Placed set attrs (FilteredState.start clock) := by
  constructor
  · intro _
    rfl
  · intro enabled
    cases enabled
  · intro later
    exact absurd rfl later
  · intro id mask found
    cases found

/-- The submission of a handler carries the maps that the handler reads. -/
theorem submission_maps (m : SockMap) (maps : FilterMaps) (step : HandlerStep) (call : Call)
    (sub : Submission) (made : stepSubmission m (onMaps maps step) = some (call, sub)) :
    call.maps = maps := by
  cases step with
  | sockState other oldstate newstate =>
      rcases Option.map_eq_some_iff.mp made with ⟨found, -, same⟩
      cases same
      rfl
  | retransmit other =>
      rcases Option.map_eq_some_iff.mp made with ⟨found, -, same⟩
      cases same
      rfl
  | probe other =>
      rcases Option.map_eq_some_iff.mp made with ⟨found, -, same⟩
      cases same
      rfl
  | destroySock skaddr => cases made
  | evict skaddr => cases made

theorem store_verdicts_own (verdicts : U64 → Option U64) (updates : List (U64 × U64))
    (own : ∀ entry ∈ updates, entry.2 = set.verdictMask (attrs entry.1))
    (right : ∀ id mask, verdicts id = some mask → mask = set.verdictMask (attrs id)) (id mask : U64)
    (found : storeVerdicts verdicts updates id = some mask) : mask = set.verdictMask (attrs id) := by
  induction updates generalizing verdicts with
  | nil => exact right id mask found
  | cons entry rest induction =>
      apply induction (Function.update verdicts entry.1 (some entry.2)) _ _ found
      · intro other member
        exact own other (List.mem_cons_of_mem entry member)
      · intro key value stored
        by_cases same : key = entry.1
        · rw [same, Function.update_self] at stored
          rw [same, ← Option.some.inj stored]
          exact own entry List.mem_cons_self
        · rw [Function.update_of_ne same] at stored
          exact right key value stored

theorem hand_over_updates (t : Tracer) (done : Bool) (event : TracedEvent) (s : ReaderState) :
    (handOver t done event s).updates = s.updates := by
  rw [handOver]
  split_ifs
  · rfl
  · rfl

theorem settle_event_updates (t : Tracer) (done : Bool) (s : ReaderState) (decision : Decision) :
    (settleEvent t done s decision).updates = s.updates := by
  cases decision with
  | droppedUserspace => rfl
  | passedBPF event => exact hand_over_updates t done event _
  | passedUserspace event => exact hand_over_updates t done event _
  | outOfRange => rfl

/-- `resolveFilter` stores the mask of the attributes it was given. -/
theorem note_resolution_updates (t : Tracer) (configured : t.filterSet = some set)
    (raw : ConnEvent) (source : CgroupAttrs × Bool) (s : ReaderState) :
    ∃ added, (noteResolution t raw source s).updates = s.updates ++ added ∧
      ∀ entry ∈ added, entry = (raw.cgroupID, set.verdictMask source.1) := by
  rw [noteResolution, configured]
  dsimp only
  by_cases settled : (namedByKernel set raw && !t.verify) = true
  · rw [if_pos settled]
    refine ⟨[], (List.append_nil _).symm, ?_⟩
    intro entry member
    cases member
  · rw [if_neg settled]
    refine ⟨_, rfl, ?_⟩
    intro entry member
    rw [resolveFilter] at member
    dsimp only at member
    cases known : source.2 with
    | false =>
        rw [known] at member
        cases member
    | true =>
        rw [known] at member
        exact List.mem_singleton.mp member

theorem read_record_updates (t : Tracer) (configured : t.filterSet = some set) (s : ReaderState)
    (read : Read)
    (current : ∀ raw, binaryRead read.sample = .ok raw → read.source.1 = attrs raw.cgroupID) :
    ∀ entry ∈ newUpdates s (readRecord t s read), entry.2 = set.verdictMask (attrs entry.1) := by
  rw [newUpdates, readRecord]
  by_cases running : s.status = .running
  · rw [if_pos running]
    cases decoded : binaryRead read.sample with
    | error problem =>
        dsimp only
        rw [List.drop_length]
        intro entry member
        cases member
    | ok raw =>
        dsimp only
        rcases note_resolution_updates set t configured raw read.source
          { s with eventsTotal := s.eventsTotal + 1 } with ⟨added, grown, own⟩
        rw [settle_event_updates, grown, List.drop_left]
        intro entry member
        rw [own entry member, current raw decoded]
  · rw [if_neg running, List.drop_length]
    intro entry member
    cases member

theorem read_step_updates (t : Tracer) (configured : t.filterSet = some set) (s : AgentState)
    (source : CgroupAttrs × Bool) (done : Bool) (allowed : StepOk set attrs s (.read source done)) :
    ∀ entry ∈ newUpdates s.reader (agentStep t s (.read source done)).reader,
      entry.2 = set.verdictMask (attrs entry.1) := by
  rw [agentStep]
  cases contents : s.ring with
  | nil =>
      rw [newUpdates, List.drop_length]
      intro entry member
      cases member
  | cons sample rest =>
      dsimp only
      by_cases running : s.reader.status = .running
      · rw [if_pos running]
        apply read_record_updates set attrs t configured
        intro raw decoded
        exact allowed sample rest raw contents decoded
      · rw [if_neg running, newUpdates, List.drop_length]
        intro entry member
        cases member

theorem filtered_step_placed (t : Tracer) (configured : t.filterSet = some set) (s : FilteredState)
    (step : FilteredStep) (allowed : FilteredAllowed set attrs s step)
    (placed : Placed set attrs s) : Placed set attrs (filteredStep t s step) := by
  cases step with
  | programRules =>
      rw [filteredStep, configured]
      cases stage : s.startup with
      | attached =>
          refine { placed with off := ?_, on := ?_, rules := fun _ => rfl }
          · intro _
            apply placed.off
            rw [stage]
            decide
          · intro enabled
            cases enabled
      | programmed => exact placed
      | enabled => exact placed
  | storeVerdict cgroupID found =>
      have stored : Placed set attrs { s with maps := { s.maps with
          verdicts := Function.update s.maps.verdicts cgroupID (some (set.verdictMask found)) } } := by
        refine { placed with verdicts := ?_ }
        apply store_verdicts_own set attrs s.maps.verdicts [(cgroupID, set.verdictMask found)] _
          placed.verdicts
        intro entry member
        rw [List.mem_singleton.mp member]
        exact congrArg set.verdictMask allowed
      rw [filteredStep, configured]
      cases stage : s.startup with
      | attached => exact placed
      | programmed =>
          rw [stage] at stored
          exact stored
      | enabled =>
          rw [stage] at stored
          exact stored
  | enable =>
      rw [filteredStep, configured]
      cases stage : s.startup with
      | attached => exact placed
      | programmed =>
          refine { placed with off := ?_, on := fun _ => rfl, rules := ?_ }
          · intro disabled
            exact absurd rfl disabled
          · intro _
            apply placed.rules
            rw [stage]
            decide
      | enabled => exact placed
  | dropVerdict cgroupID =>
      refine { placed with verdicts := ?_ }
      intro id mask found
      dsimp only [filteredStep] at found
      by_cases same : id = cgroupID
      · rw [same, Function.update_self] at found
        cases found
      · rw [Function.update_of_ne same] at found
        exact placed.verdicts id mask found
  | handler step => exact ⟨placed.off, placed.on, placed.rules, placed.verdicts⟩
  | read source done stored =>
      rw [filteredStep]
      by_cases stage : s.startup = .enabled
      · rw [if_pos stage]
        cases stored with
        | false => exact ⟨placed.off, placed.on, placed.rules, placed.verdicts⟩
        | true =>
            refine ⟨placed.off, placed.on, placed.rules, ?_⟩
            exact store_verdicts_own set attrs s.maps.verdicts _
              (read_step_updates set attrs t configured s.agent source done allowed) placed.verdicts
      · rw [if_neg stage]
        exact placed

end Startup

section Runs

variable (cel : Cel) (lawful : cel.Lawful) (cfg : List Config) (set : FilterSet)
variable (accepted : compile cel cfg = .ok set) (language : ∀ e ∈ set.asts, Fragment e)
variable (fits : set.flat.length ≤ maxPreds) (t : Tracer) (configured : t.filterSet = some set)
variable (attrs : U64 → CgroupAttrs)

include lawful accepted language fits configured

/-- The maps are in order, so a handler or the reader takes a faithful step. -/
theorem filtered_step_faithful (s : FilteredState) (step : FilteredStep)
    (allowed : FilteredAllowed set attrs s step) (placed : Placed set attrs s)
    (faithful : Faithful set attrs t s.agent) :
    Faithful set attrs t (filteredStep t s step).agent := by
  have built : initFilters cel cfg = .ok t.filterSet := by
    rw [configured]
    exact init_filters_built cel cfg set accepted
  rcases filtered_step_agent t s step with same | ⟨agent, made, moved⟩
  · rw [same]
    exact faithful
  · rw [moved]
    cases step with
    | handler step =>
        cases made
        apply handler_step_faithful set attrs cel lawful cfg accepted language fits t s.agent _ _
          faithful
        intro call sub submitted
        constructor
        · rw [submission_maps _ s.maps step call sub submitted]
          exact placed_maps_ok set attrs s placed
        · exact allowed call sub submitted
    | read source done stored =>
        cases made
        exact read_step_faithful set attrs cel cfg accepted t built configured s.agent source done
          allowed faithful
    | programRules | storeVerdict _ _ | enable | dropVerdict _ => cases made

/-- In every run of allowed steps from the moment the handlers are attached, at every
point of start-up and afterwards: no handler meets rules that are half in place, and
the events passed on, followed by the plain path of the samples that wait, are the
plain path of every submission that found room. -/
theorem filtered_agent_forwards (clock : U64) (steps : List FilteredStep)
    (along : Along (filteredStep t) (FilteredAllowed set attrs) (FilteredState.start clock)
      steps) :
    let s := run (filteredStep t) (FilteredState.start clock) steps
    MapsOk set attrs s.maps ∧
      s.agent.reader.handed ++ s.agent.reader.abandoned ++
          s.agent.ring.filterMap (forwardedSample set attrs) =
        s.agent.reached.filterMap (forwarded set attrs) ∧
      s.agent.reached.length + s.agent.kernel.ringbufDrops =
        s.agent.kernel.log.countP isSubmitted := by
  have reached := invariant_along (filteredStep t) (FilteredAllowed set attrs)
    (fun s => Placed set attrs s ∧ Faithful set attrs t s.agent)
    (by
      intro s step allowed both
      constructor
      · exact filtered_step_placed set attrs t configured s step allowed both.1
      · exact filtered_step_faithful cel lawful cfg set accepted language fits t configured attrs s
          step allowed both.1 both.2)
    (FilteredState.start clock)
    ⟨start_placed set attrs clock, start_faithful set attrs t clock⟩ steps along
  exact ⟨placed_maps_ok set attrs _ reached.1, reached.2.events, reached.2.reached⟩

end Runs

/-- A connection that is opened before the rules are in place and probed twice, once
unfiltered and once decided by the kernel. -/
def earlyConnection : List FilteredStep :=
  [.handler (.sockState (slowCall 5) .close .synSent), .programRules,
    .handler (.probe (slowCall 200000000)), .storeVerdict 0 { namespaceName := "prod" }, .enable,
    .handler (.probe (slowCall 400000000)), .read ({ namespaceName := "prod" }, true) false true,
    .read ({ namespaceName := "prod" }, true) false true]

theorem early_connection_allowed (t : Tracer) :
    Along (filteredStep t) (FilteredAllowed slowProdSet prodAttrs)
      (FilteredState.start 0) earlyConnection := by
  refine ⟨?_, trivial, ?_, rfl, trivial, ?_, ?_, ?_, trivial⟩
  · intro call sub made
    exact slow_prod_cidrs call sub
  · intro call sub made
    exact slow_prod_cidrs call sub
  · intro call sub made
    exact slow_prod_cidrs call sub
  · intro sample rest raw front decoded
    rfl
  · intro sample rest raw front decoded
    rfl

theorem early_connection_forwarded :
    (run (filteredStep { filterSet := some slowProdSet, verify := false, events := true })
        (FilteredState.start 0) earlyConnection).agent.kernel.ring.map ConnEvent.filterIdx =
      [filterUnfiltered, 0] ∧
      MapsOk slowProdSet prodAttrs
        (run (filteredStep { filterSet := some slowProdSet, verify := false, events := true })
          (FilteredState.start 0) earlyConnection).maps := by
  have forwards := filtered_agent_forwards slowProdCel (reference_lawful _) slowProdFilters slowProdSet
    rfl (by simp [slowProdSet, slow_prod_fragment]) (by decide)
    { filterSet := some slowProdSet, verify := false, events := true } rfl prodAttrs 0
    earlyConnection (early_connection_allowed _)
  exact ⟨by decide +kernel, forwards.1⟩

/-! ## Without filters -/

/-- Nothing is programmed, and nothing has been passed on. -/
structure Silent (s : FilteredState) : Prop where
  rules : ∀ prog, s.maps.prog = some prog → prog.nFilters = 0
  present : s.maps.prog ≠ none
  on : s.startup = .enabled → s.maps.cfg = some 1
  handed : s.agent.reader.handed ++ s.agent.reader.abandoned = []

theorem settle_dropped_handed (t : Tracer) (unconfigured : t.filterSet = none) (s : ReaderState)
    (read : Read) :
    (readRecord t s read).handed = s.handed ∧ (readRecord t s read).abandoned = s.abandoned := by
  rw [readRecord]
  by_cases running : s.status = .running
  · rw [if_pos running]
    cases binaryRead read.sample with
    | error problem => exact ⟨rfl, rfl⟩
    | ok raw =>
        dsimp only
        rw [noteResolution, decideEvent, unconfigured]
        exact ⟨rfl, rfl⟩
  · rw [if_neg running]
    exact ⟨rfl, rfl⟩

theorem agent_step_silent (t : Tracer) (unconfigured : t.filterSet = none) (s : AgentState)
    (step : AgentStep) (silent : s.reader.handed ++ s.reader.abandoned = []) :
    (agentStep t s step).reader.handed ++ (agentStep t s step).reader.abandoned = [] := by
  cases step with
  | handler step => exact silent
  | read source done =>
      rw [agentStep]
      cases s.ring with
      | nil => exact silent
      | cons sample rest =>
          dsimp only
          by_cases running : s.reader.status = .running
          · have same := settle_dropped_handed t unconfigured s.reader
              { sample := sample, source := source, done := done }
            rw [if_pos running]
            dsimp only
            rw [same.1, same.2]
            exact silent
          · rw [if_neg running]
            exact silent

theorem filtered_step_silent (t : Tracer) (unconfigured : t.filterSet = none) (s : FilteredState)
    (step : FilteredStep) (silent : Silent s) : Silent (filteredStep t s step) := by
  have handed : (filteredStep t s step).agent.reader.handed ++
      (filteredStep t s step).agent.reader.abandoned = [] := by
    rcases filtered_step_agent t s step with same | ⟨agent, -, moved⟩
    · rw [same]
      exact silent.handed
    · rw [moved]
      exact agent_step_silent t unconfigured s.agent agent silent.handed
  have maps : (filteredStep t s step).maps.prog = s.maps.prog ∧
      ((filteredStep t s step).startup = .enabled → (filteredStep t s step).maps.cfg = some 1) := by
    cases step with
    | programRules | storeVerdict _ _ =>
        rw [filteredStep, unconfigured]
        cases stage : s.startup <;> exact ⟨rfl, silent.on⟩
    | enable =>
        rw [filteredStep, unconfigured]
        cases stage : s.startup with
        | attached => exact ⟨rfl, fun _ => rfl⟩
        | programmed => exact ⟨rfl, silent.on⟩
        | enabled => exact ⟨rfl, silent.on⟩
    | dropVerdict _ => exact ⟨rfl, silent.on⟩
    | handler _ => exact ⟨rfl, silent.on⟩
    | read source done stored =>
        rw [filteredStep]
        by_cases stage : s.startup = .enabled
        · rw [if_pos stage]
          cases stored with
          | false => exact ⟨rfl, silent.on⟩
          | true => exact ⟨rfl, silent.on⟩
        · rw [if_neg stage]
          exact ⟨rfl, silent.on⟩
  constructor
  · rw [maps.1]
    exact silent.rules
  · rw [maps.1]
    exact silent.present
  · exact maps.2
  · exact handed

/-- The kernel drops whatever is submitted once the switch is on. -/
theorem silent_drops (s : FilteredState) (silent : Silent s) (on : s.startup = .enabled)
    (e : KernelEvent) : koFilterEval s.maps e = filterDrop := by
  rw [koFilterEval, silent.on on]
  dsimp only
  rw [if_neg (by decide)]
  cases prog : s.maps.prog with
  | none => exact absurd prog silent.present
  | some prog' =>
      dsimp only
      rw [if_pos (silent.rules prog' prog)]

theorem filtered_step_emits_nothing (t : Tracer) (s : FilteredState) (silent : Silent s)
    (on : s.startup = .enabled) (step : FilteredStep) :
    (filteredStep t s step).agent.kernel.ring = s.agent.kernel.ring := by
  rcases filtered_step_agent t s step with same | ⟨agent, made, moved⟩
  · rw [same]
  · rw [moved]
    cases step with
    | handler step =>
        cases made
        have counts := congrArg Tally.records (handler_step_tally s.agent.kernel (onMaps s.maps step))
        change (handlerStep s.agent.kernel (onMaps s.maps step)).ring = _ at counts
        change (handlerStep s.agent.kernel (onMaps s.maps step)).ring = s.agent.kernel.ring
        rw [counts]
        cases submitted : stepSubmission s.agent.kernel.sockCtx (onMaps s.maps step) with
        | none => rfl
        | some call =>
            have own := submission_maps _ s.maps step call.1 call.2 submitted
            have dropped : submitConnEvt call.1 call.2 = .filtered := by
              rw [submitConnEvt, own, silent_drops s silent on, if_pos rfl]
            rw [Option.elim_some, Tally.submit, dropped]
            rfl
    | read source done stored =>
        cases made
        rw [agentStep]
        cases s.agent.ring with
        | nil => rfl
        | cons sample rest =>
            dsimp only
            split_ifs
            · rfl
            · rfl
    | programRules | storeVerdict _ _ | enable | dropVerdict _ => cases made

theorem enabled_stays (t : Tracer) (s : FilteredState) (on : s.startup = .enabled)
    (step : FilteredStep) : (filteredStep t s step).startup = .enabled := by
  cases step with
  | programRules | enable =>
      rw [filteredStep, on]
      exact on
  | storeVerdict _ _ =>
      rw [filteredStep, on]
      cases t.filterSet with
      | none => exact on
      | some set => rfl
  | dropVerdict _ => exact on
  | handler _ => exact on
  | read source done stored =>
      rw [filteredStep, if_pos on]
      exact on

/-- An agent without filters passes nothing on, in any run, and once `startFilters`
has turned the switch on nothing gets into the ring buffer any more. -/
theorem unconfigured_agent_silent (t : Tracer) (unconfigured : t.filterSet = none) (clock : U64)
    (steps later : List FilteredStep) :
    let s := run (filteredStep t) (FilteredState.start clock) steps
    s.agent.reader.handed ++ s.agent.reader.abandoned = [] ∧
      (s.startup = .enabled →
        (run (filteredStep t) s later).agent.kernel.ring = s.agent.kernel.ring) := by
  have silent := invariant_run (filteredStep t) Silent (filtered_step_silent t unconfigured)
    (FilteredState.start clock)
    { rules := by
        intro prog same
        cases same
        rfl
      present := by
        intro absent
        cases absent
      on := by
        intro enabled
        cases enabled
      handed := rfl } steps
  generalize run (filteredStep t) (FilteredState.start clock) steps = s at silent
  dsimp only
  constructor
  · exact silent.handed
  · intro on
    have kept := invariant_run (filteredStep t)
      (fun after => Silent after ∧ after.startup = .enabled ∧
        after.agent.kernel.ring = s.agent.kernel.ring)
      (by
        intro after step kept
        rcases kept with ⟨quiet, enabled, same⟩
        refine ⟨filtered_step_silent t unconfigured after step quiet,
          enabled_stays t after enabled step, ?_⟩
        rw [filtered_step_emits_nothing t after quiet enabled step]
        exact same)
      s ⟨silent, on, rfl⟩ later
    exact kept.2.2

/-- A probe of a connection just before the switch is turned on. -/
def probedEarly : List FilteredStep :=
  [.handler (.sockState (slowCall 5) .close .synSent), .handler (.probe (slowCall 200000000)), .enable]

/-- The connection closes, and the reader takes the sample of the probe. -/
def closedLater : List FilteredStep :=
  [.handler (.sockState (slowCall 300000000) .established .finWait1),
    .read ({ namespaceName := "prod" }, true) false true]

theorem unconfigured_probe_silent :
    let t : Tracer := { filterSet := none, verify := false, events := true }
    let s := run (filteredStep t) (FilteredState.start 0) probedEarly
    let later := run (filteredStep t) s closedLater
    s.agent.kernel.ring.length = 1 ∧ s.agent.reader.handed ++ s.agent.reader.abandoned = [] ∧
      later.agent.kernel.filterDrops = 1 ∧ later.agent.reader.droppedUserspace = 1 ∧
      later.agent.kernel.ring = s.agent.kernel.ring := by
  have silent := unconfigured_agent_silent { filterSet := none, verify := false, events := true } rfl
    0 probedEarly closedLater
  exact ⟨by decide +kernel, silent.1, by decide +kernel, by decide +kernel,
    silent.2 (by decide +kernel)⟩

end KoAgent.FilteredAgent
