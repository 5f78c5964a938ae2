import KoAgent.AgentRuns
import KoAgent.AttributeFilters

/-!
# What the agent passes on is what the filters match

The purpose of the whole pipeline, stated without it: every submission that found
room is evaluated once in user space, and passed on with the label of the first
filter that matches. `forwarded` is that plain path. The agent takes a faster
one, through the predicate stream in the kernel; here both are shown to give the
same events, as long as the attributes of the cgroups do not change, the verdicts
in the map are theirs, and the kernel decides CIDR tests as user space does.
-/

namespace KoAgent.AgentDecisions

open KoAgent.ByteWords KoAgent.FilterModel KoAgent.CelExpression KoAgent.FilterSets
open KoAgent.CompiledSets KoAgent.ProgramSize KoAgent.PushdownMeaning KoAgent.PushdownRefinement
open KoAgent.AttributeFilters KoAgent.KernelCidr KoAgent.KernelFilter KoAgent.SocketHandlers
open KoAgent.EventDiscipline KoAgent.FilterResolution KoAgent.WireFormats KoAgent.EventReader
open KoAgent.AgentRuns KoAgent.ReferenceCel KoAgent.StepRuns
open KoAgent.PredicateMachine hiding cmpField

set_option autoImplicit false

section Decisions

variable (set : FilterSet) (attrs : U64 → CgroupAttrs)

/-- The plain path of one record: `Evaluate` with the attributes of its cgroup. -/
def forwarded (raw : ConnEvent) : Option TracedEvent :=
  (set.evaluate (resolvedEvent raw (attrs raw.cgroupID))).bind fun index =>
    nameEvent set (decodeConnEvent raw) (BitVec.ofNat 16 index)

/-- What the plain path makes of a sample. -/
def forwardedSample (sample : List Byte) : Option TracedEvent :=
  (binaryRead sample).toOption.bind (forwarded set attrs)

/-- The event user space sees of a submission. -/
def submittedEvent (call : Call) (sub : Submission) : Event :=
  resolvedEvent (connEvent call sub filterUndecided)
    (attrs (attrResolve call.sk sub.cctx).cgroupID)

/-- The filter maps: filtering is still off, or the program is in place; and each
verdict in the map is the one of its cgroup. -/
structure MapsOk (maps : FilterMaps) : Prop where
  program : maps.cfg = some 0 ∨ (maps.cfg = some 1 ∧ maps.prog = some set.bpfProg)
  verdicts : ∀ id mask, maps.verdicts id = some mask → mask = set.verdictMask (attrs id)

def CidrsAgree (call : Call) (sub : Submission) : Prop :=
  ∀ p ∈ set.flat, p.kind = predIPSet →
    koIPInSet p.a sub.endpoints.family sub.endpoints.addrs p =
      evIPInSet (submittedEvent attrs call sub) p

def StepOk (s : AgentState) : AgentStep → Prop
  | .handler step => ∀ call sub, stepSubmission s.kernel.sockCtx step = some (call, sub) →
      MapsOk set attrs call.maps ∧ CidrsAgree set attrs call sub
  | .read source _ => ∀ sample rest raw, s.ring = sample :: rest → binaryRead sample = .ok raw →
      source.1 = attrs raw.cgroupID

/-- A filter that the kernel chose is the one `Evaluate` chooses. -/
def Decided (raw : ConnEvent) : Prop :=
  raw.filterIdx.toNat < set.names.length →
    set.evaluate (resolvedEvent raw (attrs raw.cgroupID)) = some raw.filterIdx.toNat

theorem effect_known_type (call : Call) (m : SockMap) (result : SockMap × Option Submission)
    (captured : Bool) (effect : Effect call m result captured) (sub : Submission)
    (made : result.2 = some sub) : KnownType sub.type := by
  cases effect with
  | unchanged => cases made
  | captured => cases made
  | sampled cctx entry => cases made
  | ended cctx type endpoints entry lifecycle =>
      cases made
      rcases lifecycle with failed | closed
      · exact Or.inl failed
      · exact Or.inr (Or.inl closed)
  | reported cctx endpoints entry =>
      cases made
      exact Or.inr (Or.inr (Or.inl rfl))
  | probed cctx endpoints entry apart =>
      cases made
      exact Or.inr (Or.inr (Or.inr rfl))

theorem step_submission_known (m : SockMap) (step : HandlerStep) (call : Call) (sub : Submission)
    (made : stepSubmission m step = some (call, sub)) : KnownType sub.type := by
  cases step with
  | sockState other oldstate newstate =>
      rcases Option.map_eq_some_iff.mp made with ⟨found, result, same⟩
      cases same
      exact effect_known_type _ m _ _ (sock_state_effect call oldstate newstate m) sub result
  | retransmit other =>
      rcases Option.map_eq_some_iff.mp made with ⟨found, result, same⟩
      cases same
      exact effect_known_type _ m _ _ (retransmit_effect call m) sub result
  | probe other =>
      rcases Option.map_eq_some_iff.mp made with ⟨found, result, same⟩
      cases same
      exact effect_known_type _ m _ _ (probe_effect call m) sub result
  | destroySock skaddr => cases made
  | evict skaddr => cases made

theorem decode_ip_shape (family : U16) (raw : Fin 16 → U8) : IPShape (decodeIP family raw) := by
  rw [decodeIP]
  split_ifs
  · exact Or.inr (Or.inl (by rw [List.length_take, List.length_ofFn]; rfl))
  · exact Or.inr (Or.inr List.length_ofFn)

/-- Whatever the handlers submit is an event the filters are meant for. -/
theorem submitted_event_observed (call : Call) (sub : Submission) (known : KnownType sub.type) :
    Observed (submittedEvent attrs call sub) where
  type := known
  life := by
    have bound := (call.submitNow - sub.cctx.startTS).isLt
    change (lifeUS call sub.cctx).toNat < 2 ^ 63
    rw [lifeUS, BitVec.toNat_udiv]
    have divided : (call.submitNow - sub.cctx.startTS).toNat / BitVec.toNat (1000 : U64) =
        (call.submitNow - sub.cctx.startTS).toNat / 1000 := rfl
    rw [divided]
    omega
  localIP := decode_ip_shape _ _
  remoteIP := decode_ip_shape _ _

theorem submitted_same_stats (call : Call) (sub : Submission) :
    SameStats (filterEvent call sub) (submittedEvent attrs call sub) :=
  ⟨rfl, rfl, rfl, rfl, rfl, rfl⟩

theorem known_type_bit (type : EventType) (known : KnownType type) : type.toNat < 64 := by
  rcases known with rfl | rfl | rfl | rfl <;> decide

/-- With the program in place, the kernel answers as the walk over the compiled
stream does. -/
theorem kernel_answer_walk (cel : Cel) (cfg : List Config) (accepted : compile cel cfg = .ok set)
    (fits : set.flat.length ≤ maxPreds) (call : Call) (sub : Submission)
    (known : KnownType sub.type) (enabled : call.maps.cfg = some 1)
    (programmed : call.maps.prog = some set.bpfProg) (cidrs : CidrsAgree set attrs call sub) :
    koFilterEval call.maps (filterEvent call sub) =
      set.runPreds (submittedEvent attrs call sub)
        (call.maps.verdicts (filterEvent call sub).cgroupID) := by
  rcases bpf_prog_copied set fits with ⟨count, copied⟩
  have loop := ko_loop_simulates (filterEvent call sub) (submittedEvent attrs call sub)
    (submitted_same_stats attrs call sub) (known_type_bit sub.type known)
    (call.maps.verdicts (filterEvent call sub).cgroupID) set.bpfProg.nPreds.toNat 0 .triTrue
    (List.ofFn set.bpfProg.preds)
  rw [Nat.sub_zero, copied] at loop
  rw [koFilterEval, enabled, programmed]
  dsimp only
  rw [if_neg (by decide), if_neg (compiled_filter_count cel cfg set accepted),
    loop (compiled_entries_ok cel cfg set accepted) cidrs]
  rfl

theorem reserved_answers_large : 32 ≤ filterDrop.toNat ∧ 32 ≤ filterUndecided.toNat ∧
    32 ≤ filterUnfiltered.toNat := by decide

/-- A walk with the verdict of the event's own cgroup never misjudges the event. -/
theorem walk_answer_sound (cel : Cel) (lawful : cel.Lawful) (cfg : List Config)
    (accepted : compile cel cfg = .ok set) (language : ∀ e ∈ set.asts, Fragment e) (ev : Event)
    (observed : Observed ev) (verdict : Option U64)
    (own : ∀ mask, verdict = some mask → mask = set.verdictMask ev.attrs) :
    (set.runPreds ev verdict = filterDrop → set.evaluate ev = none) ∧
      ((set.runPreds ev verdict).toNat < set.names.length →
        set.evaluate ev = some (set.runPreds ev verdict).toNat) := by
  rcases compiled_filter_marks cel cfg set accepted with ⟨marks, bound⟩
  rcases reserved_answers_large with ⟨drop, undecided, -⟩
  have agreement := run_preds_agreement cel lawful cfg set accepted ev
    fun e member => fragment_denotes cel lawful ev observed e (language e member)
  have answers : set.runPreds ev verdict = filterUndecided ∨
      set.runPreds ev verdict = set.runPreds ev (some (set.verdictMask ev.attrs)) := by
    cases verdict with
    | none => exact run_preds_unknown ev _ set.flat .triTrue .triTrue (Or.inr rfl)
    | some mask => exact Or.inr (by rw [own mask rfl])
  rcases answers with open_ | same
  · rw [open_]
    constructor
    · intro dropped
      exact absurd dropped (by decide)
    · intro inside
      omega
  · rw [same]
    generalize set.runPreds ev (some (set.verdictMask ev.attrs)) = answer at agreement
    generalize set.evaluate ev = outcome at agreement
    cases agreement with
    | matched k inside pushed =>
        have value : (BitVec.ofNat 16 (0 + k)).toNat = 0 + k := by
          rw [BitVec.toNat_ofNat]
          omega
        constructor
        · intro dropped
          exact absurd dropped (filter_index_reserved (0 + k) (by omega)).1
        · intro small
          rw [value]
    | dropped pushed =>
        constructor
        · intro dropped
          rfl
        · intro inside
          omega
    | undecided _ j marked first =>
        constructor
        · intro dropped
          exact absurd dropped (by decide)
        · intro inside
          omega

theorem kernel_answer_sound (cel : Cel) (lawful : cel.Lawful) (cfg : List Config)
    (accepted : compile cel cfg = .ok set) (language : ∀ e ∈ set.asts, Fragment e)
    (fits : set.flat.length ≤ maxPreds) (call : Call) (sub : Submission)
    (known : KnownType sub.type) (maps : MapsOk set attrs call.maps)
    (cidrs : CidrsAgree set attrs call sub) :
    (koFilterEval call.maps (filterEvent call sub) = filterDrop →
        set.evaluate (submittedEvent attrs call sub) = none) ∧
      ((koFilterEval call.maps (filterEvent call sub)).toNat < set.names.length →
        set.evaluate (submittedEvent attrs call sub) =
          some (koFilterEval call.maps (filterEvent call sub)).toNat) := by
  rcases maps.program with off | ⟨enabled, programmed⟩
  · have unfiltered : koFilterEval call.maps (filterEvent call sub) = filterUnfiltered := by
      rw [koFilterEval, off]
      rfl
    have bound := (compiled_programs cel cfg set accepted).2
    have large := reserved_answers_large.2.2
    rw [unfiltered]
    constructor
    · intro dropped
      exact absurd dropped (by decide)
    · intro inside
      omega
  · rw [kernel_answer_walk set attrs cel cfg accepted fits call sub known enabled programmed cidrs]
    apply walk_answer_sound set cel lawful cfg accepted language _
      (submitted_event_observed attrs call sub known)
    intro mask found
    exact maps.verdicts _ mask found

/-- The plain path does not look at the answer of the kernel. -/
theorem forwarded_any_index (call : Call) (sub : Submission) (first second : U16) :
    forwarded set attrs (connEvent call sub first) = forwarded set attrs (connEvent call sub second) :=
  rfl

/-- The fast path of one record is its plain path. -/
theorem decide_event_forwarded (cel : Cel) (cfg : List Config) (accepted : compile cel cfg = .ok set)
    (t : Tracer) (configured : t.filterSet = some set) (raw : ConnEvent)
    (source : CgroupAttrs × Bool) (current : source.1 = attrs raw.cgroupID)
    (decided : Decided set attrs raw) :
    (decideEvent t raw source).event = forwarded set attrs raw := by
  rw [decideEvent, configured, forwarded]
  dsimp only
  by_cases named : namedByKernel set raw = true
  · have inside := (named_by_kernel_iff cel cfg set accepted raw).mp named
    have same : BitVec.ofNat 16 raw.filterIdx.toNat = raw.filterIdx := BitVec.ofNat_toNat 16 _
    rw [if_pos named, decided inside, Option.bind_some, same,
      name_event_inside set _ raw.filterIdx inside]
    rfl
  · have index : (resolveFilter set raw source).index =
        set.evaluate (resolvedEvent raw (attrs raw.cgroupID)) := by
      rw [← current]
      rfl
    rw [if_neg named, index]
    cases set.evaluate (resolvedEvent raw (attrs raw.cgroupID)) with
    | none => rfl
    | some i =>
        dsimp only
        rw [Option.bind_some]
        cases nameEvent set (decodeConnEvent raw) (BitVec.ofNat 16 i) <;> rfl

theorem submission_forwarded (cel : Cel) (lawful : cel.Lawful) (cfg : List Config)
    (accepted : compile cel cfg = .ok set) (language : ∀ e ∈ set.asts, Fragment e)
    (fits : set.flat.length ≤ maxPreds) (call : Call) (sub : Submission)
    (known : KnownType sub.type) (maps : MapsOk set attrs call.maps)
    (cidrs : CidrsAgree set attrs call sub) :
    (∀ sample ∈ emittedSamples call sub, ∃ raw, binaryRead sample = .ok raw ∧ Decided set attrs raw) ∧
      (emittedSamples call sub).filterMap (forwardedSample set attrs) =
        (reachedRecords call sub).filterMap (forwarded set attrs) := by
  rcases kernel_answer_sound set attrs cel lawful cfg accepted language fits call sub known maps
    cidrs with ⟨dropped, chosen⟩
  rw [emittedSamples, reachedRecords, submitConnEvt]
  by_cases drop : koFilterEval call.maps (filterEvent call sub) = filterDrop
  · have unmatched : forwarded set attrs (connEvent call sub filterUndecided) = none := by
      change (set.evaluate (submittedEvent attrs call sub)).bind _ = none
      rw [dropped drop]
      rfl
    rw [if_pos drop]
    constructor
    · intro sample member
      cases member
    · change [] = [connEvent call sub filterUndecided].filterMap (forwarded set attrs)
      rw [List.filterMap_cons_none unmatched]
      rfl
  · rw [if_neg drop]
    cases call.reserved with
    | false =>
        constructor
        · intro sample member
          cases member
        · rfl
    | true =>
        have read := sample_read_back call sub (koFilterEval call.maps (filterEvent call sub))
        constructor
        · intro sample member
          rw [List.mem_singleton.mp member]
          exact ⟨_, read, chosen⟩
        · have plain : forwardedSample set attrs
              (eventSample call sub (koFilterEval call.maps (filterEvent call sub))) =
              forwarded set attrs (connEvent call sub filterUndecided) := by
            rw [forwardedSample, read]
            exact forwarded_any_index set attrs call sub _ _
          change [eventSample call sub (koFilterEval call.maps (filterEvent call sub))].filterMap _ =
            [connEvent call sub filterUndecided].filterMap _
          rw [List.filterMap_cons, List.filterMap_cons, plain]
          rfl

/-- The events passed on, followed by what waits in the buffer, are the plain path
of everything that found room. -/
structure Faithful (t : Tracer) (s : AgentState) : Prop where
  samples : ∀ sample ∈ s.ring, ∃ raw, binaryRead sample = .ok raw ∧ Decided set attrs raw
  accounted : Accounted t.filterSet s.reader
  events : s.reader.handed ++ s.reader.abandoned ++ s.ring.filterMap (forwardedSample set attrs) =
    s.reached.filterMap (forwarded set attrs)
  reached : s.reached.length + (tally s.kernel).ringbufDrops = (tally s.kernel).submitted

theorem submit_reached (counts : Tally) (reached : Nat) (call : Call) (sub : Submission)
    (balanced : reached + counts.ringbufDrops = counts.submitted) :
    reached + (reachedRecords call sub).length + (counts.submit call sub).ringbufDrops =
      (counts.submit call sub).submitted := by
  rw [reachedRecords, Tally.submit]
  cases submitConnEvt call sub with
  | filtered =>
      dsimp only [List.length_singleton]
      omega
  | noRoom =>
      dsimp only [List.length_nil]
      omega
  | emitted record =>
      dsimp only [List.length_singleton]
      omega

theorem handler_step_faithful (cel : Cel) (lawful : cel.Lawful) (cfg : List Config)
    (accepted : compile cel cfg = .ok set) (language : ∀ e ∈ set.asts, Fragment e)
    (fits : set.flat.length ≤ maxPreds) (t : Tracer) (s : AgentState) (step : HandlerStep)
    (allowed : StepOk set attrs s (.handler step)) (faithful : Faithful set attrs t s) :
    Faithful set attrs t (agentStep t s (.handler step)) := by
  have counts := handler_step_tally s.kernel step
  rw [agentStep]
  cases made : stepSubmission s.kernel.sockCtx step with
  | none =>
      rw [made, Option.elim_none] at counts
      rw [Option.elim_none, Option.elim_none, List.append_nil, List.append_nil]
      refine { faithful with reached := ?_ }
      rw [counts]
      exact faithful.reached
  | some call =>
      rw [made, Option.elim_some] at counts
      rw [Option.elim_some, Option.elim_some]
      have known := step_submission_known s.kernel.sockCtx step call.1 call.2 made
      rcases allowed call.1 call.2 made with ⟨maps, cidrs⟩
      rcases submission_forwarded set attrs cel lawful cfg accepted language fits call.1 call.2 known
        maps cidrs with ⟨decoded, plain⟩
      constructor
      · intro sample member
        rcases List.mem_append.mp member with earlier | added
        · exact faithful.samples sample earlier
        · exact decoded sample added
      · exact faithful.accounted
      · change s.reader.handed ++ s.reader.abandoned ++
            (s.ring ++ emittedSamples call.1 call.2).filterMap (forwardedSample set attrs) =
          (s.reached ++ reachedRecords call.1 call.2).filterMap (forwarded set attrs)
        rw [List.filterMap_append, ← List.append_assoc, faithful.events, plain,
          List.filterMap_append]
      · rw [counts, List.length_append]
        exact submit_reached (tally s.kernel) s.reached.length call.1 call.2 faithful.reached

theorem read_step_faithful (cel : Cel) (cfg : List Config) (accepted : compile cel cfg = .ok set)
    (t : Tracer) (built : initFilters cel cfg = .ok t.filterSet) (configured : t.filterSet = some set)
    (s : AgentState) (source : CgroupAttrs × Bool) (done : Bool)
    (allowed : StepOk set attrs s (.read source done)) (faithful : Faithful set attrs t s) :
    Faithful set attrs t (agentStep t s (.read source done)) := by
  rw [agentStep]
  cases contents : s.ring with
  | nil => exact faithful
  | cons sample rest =>
      dsimp only
      by_cases running : s.reader.status = .running
      · have samples := faithful.samples
        have events := faithful.events
        rw [contents] at samples events
        rcases samples sample List.mem_cons_self with ⟨raw, decoded, decidedRaw⟩
        rcases read_record_decoded t s.reader { sample := sample, source := source, done := done }
          raw running (faithful.accounted.sending running) decoded with ⟨passed, -, -⟩
        have plain := decide_event_forwarded set attrs cel cfg accepted t configured raw source
          (allowed sample rest raw contents decoded) decidedRaw
        have first : forwardedSample set attrs sample = forwarded set attrs raw := by
          rw [forwardedSample, decoded]
          rfl
        rw [if_pos running]
        refine { faithful with samples := ?_, accounted := ?_, events := ?_ }
        · intro other member
          exact samples other (List.mem_cons_of_mem sample member)
        · exact read_record_accounted cel cfg t built _ _ faithful.accounted
        · change (readRecord t s.reader _).handed ++ (readRecord t s.reader _).abandoned ++
            rest.filterMap (forwardedSample set attrs) = _
          rw [passed, ← events, List.filterMap_cons, first, plain]
          cases forwarded set attrs raw with
          | none =>
              rw [Option.toList_none, List.append_nil]
          | some event =>
              rw [Option.toList_some, List.append_assoc]
              rfl
      · rw [if_neg running]
        exact faithful

theorem start_faithful (t : Tracer) (clock : U64) :
    Faithful set attrs t (AgentState.start clock) where
  samples := by
    intro sample member
    cases member
  accounted := reader_start_accounted t.filterSet
  events := rfl
  reached := rfl

end Decisions

theorem init_filters_built (cel : Cel) (cfg : List Config) (set : FilterSet)
    (accepted : compile cel cfg = .ok set) : initFilters cel cfg = .ok (some set) := by
  rcases compile_spec cel cfg set accepted with ⟨es, results, c, from_⟩
  have nonempty : ¬cfg.length = 0 := fun empty => from_.nonempty (List.length_eq_zero_iff.mp empty)
  rw [initFilters, if_neg nonempty, accepted]
  rfl

/-- For filters of the tested language whose program fits, under attributes that stay
as they are, and where the kernel decides CIDR tests as user space does: at any
moment of any interleaving, the events passed on, followed by the plain path of the
samples still waiting, are the plain path of every submission that found room. Once
the buffer is empty the agent has passed on exactly the events the filters match, in
order, each under its first match. -/
theorem agent_forwards_matches (cel : Cel) (lawful : cel.Lawful) (cfg : List Config)
    (set : FilterSet) (accepted : compile cel cfg = .ok set)
    (language : ∀ e ∈ set.asts, Fragment e) (fits : set.flat.length ≤ maxPreds) (t : Tracer)
    (configured : t.filterSet = some set) (attrs : U64 → CgroupAttrs) (clock : U64)
    (steps : List AgentStep)
    (along : Along (agentStep t) (StepOk set attrs) (AgentState.start clock) steps) :
    let s := run (agentStep t) (AgentState.start clock) steps
    s.reader.handed ++ s.reader.abandoned ++ s.ring.filterMap (forwardedSample set attrs) =
        s.reached.filterMap (forwarded set attrs) ∧
      s.reached.length + s.kernel.ringbufDrops = s.kernel.log.countP isSubmitted := by
  have built : initFilters cel cfg = .ok t.filterSet := by
    rw [configured]
    exact init_filters_built cel cfg set accepted
  have faithful := invariant_along (agentStep t) (StepOk set attrs) (Faithful set attrs t)
    (by
      intro s step allowed faithful
      cases step with
      | handler step =>
          exact handler_step_faithful set attrs cel lawful cfg accepted language fits t s step allowed
            faithful
      | read source done =>
          exact read_step_faithful set attrs cel cfg accepted t built configured s source done allowed
            faithful)
    (AgentState.start clock) (start_faithful set attrs t clock) steps along
  exact ⟨faithful.events, faithful.reached⟩

def prodAttrs : U64 → CgroupAttrs := fun _ => { namespaceName := "prod" }

def prodMaps : FilterMaps where
  cfg := some 1
  prog := some slowProdSet.bpfProg
  verdicts := fun _ => some (slowProdSet.verdictMask { namespaceName := "prod" })

/-- A call on a connection with a round trip of 250 microseconds. -/
def slowCall (now : U64) : Call :=
  { plainCall now with sk := { srttUS := 2000 }, maps := prodMaps }

def slowConnection : List AgentStep :=
  [.handler (.sockState (slowCall 5) .close .synSent), .handler (.probe (slowCall 200000000)),
    .read ({ namespaceName := "prod" }, true) false]

theorem prod_maps_ok : MapsOk slowProdSet prodAttrs prodMaps := by
  constructor
  · exact Or.inr ⟨rfl, rfl⟩
  · intro id mask found
    cases found
    rfl

theorem slow_prod_cidrs (call : Call) (sub : Submission) :
    CidrsAgree slowProdSet prodAttrs call sub := by
  have none : ∀ p ∈ slowProdSet.flat, p.kind ≠ predIPSet := by decide
  intro p member kind
  exact absurd kind (none p member)

theorem slow_connection_allowed (t : Tracer) :
    Along (agentStep t) (StepOk slowProdSet prodAttrs) (AgentState.start 0) slowConnection := by
  refine ⟨?_, ?_, ?_, trivial⟩
  · intro call sub made
    cases made
  · intro call sub made
    cases made
    exact ⟨prod_maps_ok, slow_prod_cidrs _ _⟩
  · intro sample rest raw front decoded
    rfl

theorem agent_forwards_matches_slow :
    compile slowProdCel slowProdFilters = .ok slowProdSet ∧
      (let s := run (agentStep { filterSet := some slowProdSet, verify := false, events := true })
        (AgentState.start 0) slowConnection
      s.reader.handed ++ s.reader.abandoned ++
          s.ring.filterMap (forwardedSample slowProdSet prodAttrs) =
        s.reached.filterMap (forwarded slowProdSet prodAttrs)) := by
  have forwards := agent_forwards_matches slowProdCel (reference_lawful _) slowProdFilters slowProdSet
    rfl (by simp [slowProdSet, slow_prod_fragment]) (by decide)
    { filterSet := some slowProdSet, verify := false, events := true } rfl prodAttrs 0 slowConnection
    (slow_connection_allowed _)
  exact ⟨rfl, forwards.1⟩

end KoAgent.AgentDecisions
