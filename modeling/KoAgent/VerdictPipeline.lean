import KoAgent.AttributeFilters
import KoAgent.FilterResolution

/-!
# Kernel decisions and their verification

The verdict map is written by `syncOnce` and by the reader loop, both from the
container cache, which `Sync` replaces as a whole at any moment. The kernel
decides events against the map and puts the records in the ring buffer; the
reader takes them out later, resolves the undecided ones and verifies the rest.
`read` is a record taken from the buffer together with the lookup that decides
its attributes; a `Sync` that the lookup itself triggers is a replacement before
it. The two counters are the mismatches `verifyBpfDecision` counts and the drops
of events that the filters match with the attributes of that moment.
-/

namespace KoAgent.VerdictPipeline

open KoAgent.FilterModel KoAgent.CelExpression KoAgent.FilterSets KoAgent.KernelFilter
open KoAgent.PushdownMeaning KoAgent.SocketHandlers KoAgent.ContainerCache
open KoAgent.FilterResolution KoAgent.AttributeFilters KoAgent.StepRuns

set_option autoImplicit false

abbrev Cache := U64 → Option ContainerInfo

/-- A `syncOnce` under way: its snapshot and the ids it has not updated yet. -/
structure Pass where
  snapshot : Cache
  todo : List U64

structure PipelineState where
  cache : Cache
  verdicts : U64 → Option U64
  pass : Option Pass
  ring : List ConnEvent
  reader : Option (ConnEvent × Option ContainerInfo)
  verifyMismatches : Nat
  lostMatches : Nat

def PipelineState.start (cache : Cache) : PipelineState where
  cache := cache
  verdicts := fun _ => none
  pass := none
  ring := []
  reader := none
  verifyMismatches := 0
  lostMatches := 0

inductive PipelineStep where
  | replace (cache : Cache)
  | syncBegin (order : List U64)
  | syncUpdate (updated : Bool)
  | syncDelete (key : U64)
  | syncEnd
  | evict (key : U64)
  | submit (call : Call) (sub : Submission)
  | read
  | finish (updated : Bool)

theorem known_type_small (type : EventType)
    (known : type ∈ [evtConnFailed, evtConnClosed, evtRetransmit, evtProbe]) : type.toNat < 64 := by
  simp only [List.mem_cons, List.not_mem_nil, or_false] at known
  rcases known with rfl | rfl | rfl | rfl <;> decide

section Steps

variable (set : FilterSet)

def kernelMaps (verdicts : U64 → Option U64) : FilterMaps where
  cfg := some 1
  prog := some set.bpfProg
  verdicts := verdicts

/-- The kernel has chosen one of the filters. -/
def decided (record : ConnEvent) : Bool := record.filterIdx.toNat < set.names.length

/-- `Evaluate` matches the event with the attributes the cache holds now. -/
def matchesNow (cache : Cache) (record : ConnEvent) : Bool :=
  (set.evaluate (resolvedEvent record (entryAttrs (cache record.cgroupID)))).isSome

/-- An event through the filter program; the handlers submit the four known types. -/
def submitStep (s : PipelineState) (call : Call) (sub : Submission) : PipelineState :=
  match submitConnEvt { call with maps := kernelMaps set s.verdicts } sub with
  | .filtered =>
      if matchesNow set s.cache (connEvent call sub filterDrop) then
        { s with lostMatches := s.lostMatches + 1 }
      else s
  | .noRoom => s
  | .emitted record => { s with ring := s.ring ++ [record] }

def finishStep (s : PipelineState) (updated : Bool) (record : ConnEvent)
    (info : Option ContainerInfo) : PipelineState :=
  let resolution := resolveFilter set record (sourceAttrs (lookupResult info))
  { s with
    reader := none
    verdicts :=
      match resolution.mask with
      | none => s.verdicts
      | some mask =>
          if updated then Function.update s.verdicts record.cgroupID (some mask) else s.verdicts
    verifyMismatches :=
      if decided set record && mismatches resolution record.filterIdx then s.verifyMismatches + 1
      else s.verifyMismatches }

def pipelineStep (verify : Bool) (s : PipelineState) : PipelineStep → PipelineState
  | .replace cache => { s with cache := cache }
  | .syncBegin order =>
      match s.pass with
      | some _ => s
      | none =>
          { s with
            pass := some { snapshot := s.cache, todo := order.filter fun id => (s.cache id).isSome } }
  | .syncUpdate updated =>
      match s.pass with
      | some { snapshot, todo := id :: todo } =>
          -- the first failed update returns from `syncOnce`
          if updated then
            { s with
              verdicts :=
                Function.update s.verdicts id (some (set.verdictMask (entryAttrs (snapshot id))))
              pass := some { snapshot := snapshot, todo := todo } }
          else { s with pass := none }
      | _ => s
  | .syncDelete key =>
      match s.pass with
      | some { snapshot, todo := [] } =>
          if (snapshot key).isNone then { s with verdicts := Function.update s.verdicts key none }
          else s
      | _ => s
  | .syncEnd =>
      match s.pass with
      | some { snapshot := _, todo := [] } => { s with pass := none }
      | _ => s
  | .evict key => { s with verdicts := Function.update s.verdicts key none }
  | .submit call sub =>
      if sub.type ∈ [evtConnFailed, evtConnClosed, evtRetransmit, evtProbe] then
        submitStep set s call sub
      else s
  | .read =>
      match s.reader, s.ring with
      | none, record :: rest =>
          if decided set record && !verify then { s with ring := rest }
          else { s with ring := rest, reader := some (record, s.cache record.cgroupID) }
      | _, _ => s
  | .finish updated =>
      match s.reader with
      | none => s
      | some (record, info) => finishStep set s updated record info

def cacheMask (cache : Cache) (id : U64) : U64 := set.verdictMask (entryAttrs (cache id))

/-- The cgroup has a verdict, or one is about to be written, or a record that was
decided with its verdict is not verified yet. -/
def InPlay (s : PipelineState) (id : U64) : Prop :=
  (s.verdicts id).isSome ∨ (∃ pass, s.pass = some pass ∧ id ∈ pass.todo) ∨
    (∃ record ∈ s.ring, decided set record ∧ record.cgroupID = id) ∨
    ∃ record info, s.reader = some (record, info) ∧ record.cgroupID = id

/-- A replacement of the cache keeps the mask of every cgroup in play. -/
def StableStep (s : PipelineState) : PipelineStep → Prop
  | .replace cache => ∀ id, InPlay set s id → cacheMask set cache id = cacheMask set s.cache id
  | _ => True

/-- The kernel's choice is what the walk answers with the cgroup's present mask. -/
def Explained (cache : Cache) (record : ConnEvent) : Prop :=
  ∀ attrs, set.verdictMask attrs = cacheMask set cache record.cgroupID →
    set.runPreds (resolvedEvent record attrs) (some (set.verdictMask attrs)) = record.filterIdx

structure Consistent (s : PipelineState) : Prop where
  verdicts : ∀ id mask, s.verdicts id = some mask → mask = cacheMask set s.cache id
  pending : ∀ pass, s.pass = some pass →
    ∀ id ∈ pass.todo, cacheMask set pass.snapshot id = cacheMask set s.cache id
  ring : ∀ record ∈ s.ring, decided set record → Explained set s.cache record
  reader : ∀ record info, s.reader = some (record, info) →
    set.verdictMask (entryAttrs info) = cacheMask set s.cache record.cgroupID ∧
      (decided set record → Explained set s.cache record)
  verified : s.verifyMismatches = 0
  kept : s.lostMatches = 0

theorem explained_congr (cache later : Cache) (record : ConnEvent)
    (same : cacheMask set later record.cgroupID = cacheMask set cache record.cgroupID)
    (explained : Explained set cache record) : Explained set later record := by
  intro attrs mask
  rw [same] at mask
  exact explained attrs mask

theorem updated_verdicts (s : PipelineState) (consistent : Consistent set s) (id : U64)
    (entry : Option U64) (own : ∀ mask, entry = some mask → mask = cacheMask set s.cache id)
    (other mask : U64) (found : Function.update s.verdicts id entry other = some mask) :
    mask = cacheMask set s.cache other := by
  by_cases same : other = id
  · rw [same, Function.update_self] at found
    rw [same]
    exact own mask found
  · rw [Function.update_of_ne same] at found
    exact consistent.verdicts other mask found

theorem deleted_verdict_consistent (s : PipelineState) (consistent : Consistent set s) (key : U64) :
    Consistent set { s with verdicts := Function.update s.verdicts key none } :=
  { consistent with
    verdicts := updated_verdicts set s consistent key none fun _ absent => by cases absent }

theorem replace_consistent (s : PipelineState) (consistent : Consistent set s) (cache : Cache)
    (stable : ∀ id, InPlay set s id → cacheMask set cache id = cacheMask set s.cache id) :
    Consistent set { s with cache := cache } where
  verdicts := by
    intro id mask found
    rw [stable id (Or.inl (by rw [found]; rfl))]
    exact consistent.verdicts id mask found
  pending := by
    intro pass running id member
    rw [stable id (Or.inr (Or.inl ⟨pass, running, member⟩))]
    exact consistent.pending pass running id member
  ring := by
    intro record member chosen
    have same := stable record.cgroupID (Or.inr (Or.inr (Or.inl ⟨record, member, chosen, rfl⟩)))
    exact explained_congr set s.cache cache record same (consistent.ring record member chosen)
  reader := by
    intro record info reading
    have same := stable record.cgroupID (Or.inr (Or.inr (Or.inr ⟨record, info, reading, rfl⟩)))
    obtain ⟨mask, explained⟩ := consistent.reader record info reading
    refine ⟨mask.trans same.symm, ?_⟩
    intro chosen
    exact explained_congr set s.cache cache record same (explained chosen)
  verified := consistent.verified
  kept := consistent.kept

theorem sync_begin_consistent (verify : Bool) (s : PipelineState) (consistent : Consistent set s)
    (order : List U64) : Consistent set (pipelineStep set verify s (.syncBegin order)) := by
  rw [pipelineStep]
  split
  · exact consistent
  · refine { consistent with pending := ?_ }
    intro pass running id _
    obtain rfl := Option.some.inj running
    rfl

theorem sync_update_consistent (verify : Bool) (s : PipelineState) (consistent : Consistent set s)
    (updated : Bool) : Consistent set (pipelineStep set verify s (.syncUpdate updated)) := by
  rw [pipelineStep]
  split
  · next snapshot id todo running =>
      split_ifs
      · refine { consistent with verdicts := ?_, pending := ?_ }
        · apply updated_verdicts set s consistent id
          intro mask same
          rw [← Option.some.inj same]
          exact consistent.pending _ running id List.mem_cons_self
        · intro pass still other member
          obtain rfl := Option.some.inj still
          exact consistent.pending _ running other (List.mem_cons_of_mem id member)
      · exact { consistent with pending := by simp }
  · exact consistent

theorem sync_delete_consistent (verify : Bool) (s : PipelineState) (consistent : Consistent set s)
    (key : U64) : Consistent set (pipelineStep set verify s (.syncDelete key)) := by
  rw [pipelineStep]
  split
  · split_ifs
    · exact deleted_verdict_consistent set s consistent key
    · exact consistent
  · exact consistent

theorem sync_end_consistent (verify : Bool) (s : PipelineState) (consistent : Consistent set s) :
    Consistent set (pipelineStep set verify s .syncEnd) := by
  rw [pipelineStep]
  split
  · exact { consistent with pending := by simp }
  · exact consistent

/-- The reader looks up the mask that explains the kernel's choice. -/
theorem read_consistent (verify : Bool) (s : PipelineState) (consistent : Consistent set s) :
    Consistent set (pipelineStep set verify s .read) := by
  rw [pipelineStep]
  split
  · next record rest _ waiting =>
      have later : ∀ other ∈ rest, decided set other → Explained set s.cache other := by
        intro other member
        exact consistent.ring other (by rw [waiting]; exact List.mem_cons_of_mem record member)
      split_ifs
      · exact { consistent with ring := later }
      · refine { consistent with ring := later, reader := ?_ }
        intro taken info reading
        obtain ⟨rfl, rfl⟩ := Prod.mk.inj (Option.some.inj reading)
        exact ⟨rfl, consistent.ring record (by rw [waiting]; exact List.mem_cons_self)⟩
  · exact consistent

section Decisions

variable (cel : Cel) (lawful : cel.Lawful) (cfg : List Config)
variable (accepted : compile cel cfg = .ok set) (language : ∀ e ∈ set.asts, EqualityTests e)

include lawful accepted language

theorem explained_verifies (s : PipelineState) (record : ConnEvent) (info : Option ContainerInfo)
    (mask : set.verdictMask (entryAttrs info) = cacheMask set s.cache record.cgroupID)
    (chosen : decided set record) (explained : Explained set s.cache record) :
    mismatches (resolveFilter set record (sourceAttrs (lookupResult info))) record.filterIdx =
      false := by
  have answer := explained (entryAttrs info) mask
  obtain ⟨index, found, same⟩ := decided_matches cel lawful cfg set accepted language
    (resolvedEvent record (entryAttrs info)) record.filterIdx answer (of_decide_eq_true chosen)
  rw [resolve_filter_lookup, mismatches, found]
  simp [same]

theorem finish_consistent (verify : Bool) (s : PipelineState) (consistent : Consistent set s)
    (updated : Bool) : Consistent set (pipelineStep set verify s (.finish updated)) := by
  rw [pipelineStep]
  split
  · exact consistent
  · next record info reading =>
      obtain ⟨mask, explained⟩ := consistent.reader record info reading
      refine { consistent with verdicts := ?_, reader := ?_, verified := ?_ }
      · intro id
        rw [finishStep, resolve_filter_lookup]
        dsimp only
        split_ifs
        · apply updated_verdicts set s consistent record.cgroupID
          intro stored same
          rw [← Option.some.inj same]
          exact mask
        · exact consistent.verdicts id
      · simp [finishStep]
      · rw [finishStep]
        dsimp only
        by_cases chosen : decided set record = true
        · rw [explained_verifies set cel lawful cfg accepted language s record info mask chosen
            (explained chosen)]
          simp [consistent.verified]
        · simp [chosen, consistent.verified]

variable (fits : set.flat.length ≤ maxPreds)

include fits

omit lawful in
/-- The kernel defers the event, or it answers what the walk answers with the mask
of the cgroup's present attributes. -/
theorem submit_answer (s : PipelineState) (consistent : Consistent set s) (call : Call)
    (sub : Submission) (small : sub.type.toNat < 64) (index : U16) (attrs : CgroupAttrs)
    (mask : set.verdictMask attrs =
      cacheMask set s.cache (connEvent call sub index).cgroupID) :
    koFilterEval (kernelMaps set s.verdicts) (filterEvent call sub) = filterUndecided ∨
      koFilterEval (kernelMaps set s.verdicts) (filterEvent call sub) =
        set.runPreds (resolvedEvent (connEvent call sub index) attrs)
          (some (set.verdictMask attrs)) := by
  have same : SameStats (filterEvent call sub) (resolvedEvent (connEvent call sub index) attrs) :=
    ⟨rfl, rfl, rfl, rfl, rfl, rfl⟩
  have noCidrs := equality_stream_no_cidrs cel cfg set accepted language
  rw [filter_eval_simulates_run_preds cel cfg set accepted fits (kernelMaps set s.verdicts) 1
    (by decide) rfl rfl (filterEvent call sub) small _ same
    fun p member kind => absurd kind (noCidrs p member)]
  cases entry : s.verdicts (filterEvent call sub).cgroupID with
  | none =>
      rw [show (kernelMaps set s.verdicts).verdicts (filterEvent call sub).cgroupID = none from entry]
      exact run_preds_unknown _ _ set.flat .triTrue .triTrue (Or.inr rfl)
  | some stored =>
      rw [show (kernelMaps set s.verdicts).verdicts (filterEvent call sub).cgroupID = some stored
        from entry, consistent.verdicts _ stored entry, mask]
      exact Or.inr rfl

omit lawful in
theorem emitted_explained (s : PipelineState) (consistent : Consistent set s) (call : Call)
    (sub : Submission) (small : sub.type.toNat < 64) (answer : U16)
    (evaluated : koFilterEval (kernelMaps set s.verdicts) (filterEvent call sub) = answer)
    (chosen : decided set (connEvent call sub answer)) :
    Explained set s.cache (connEvent call sub answer) := by
  intro attrs mask
  rcases submit_answer set cel cfg accepted language fits s consistent call sub small answer
    attrs mask with deferred | known
  · obtain ⟨_, bound⟩ := PushdownRefinement.compiled_filter_marks cel cfg set accepted
    have inside : answer.toNat < set.names.length := of_decide_eq_true chosen
    rw [← evaluated, deferred, show filterUndecided.toNat = 65534 from rfl] at inside
    omega
  · rw [← known]
    exact evaluated

theorem filtered_unmatched (s : PipelineState) (consistent : Consistent set s) (call : Call)
    (sub : Submission) (small : sub.type.toNat < 64)
    (evaluated : koFilterEval (kernelMaps set s.verdicts) (filterEvent call sub) = filterDrop) :
    matchesNow set s.cache (connEvent call sub filterDrop) = false := by
  rcases submit_answer set cel cfg accepted language fits s consistent call sub small
    filterDrop _ rfl with deferred | known
  · rw [evaluated] at deferred
    exact absurd deferred (by decide)
  · rw [matchesNow, dropped_matches_none cel lawful cfg set accepted language _
      (known.symm.trans evaluated)]
    rfl

theorem submit_consistent (s : PipelineState) (consistent : Consistent set s) (call : Call)
    (sub : Submission) (small : sub.type.toNat < 64) :
    Consistent set (submitStep set s call sub) := by
  rw [submitStep, submitConnEvt]
  dsimp only
  rw [show filterEvent { call with maps := kernelMaps set s.verdicts } sub = filterEvent call sub
    from rfl]
  generalize evaluated : koFilterEval (kernelMaps set s.verdicts) (filterEvent call sub) = answer
  by_cases dropped : answer = filterDrop
  · rw [if_pos dropped]
    dsimp only
    rw [filtered_unmatched set cel lawful cfg accepted language fits s consistent call sub small
      (evaluated.trans dropped)]
    exact consistent
  · rw [if_neg dropped]
    cases call.reserved with
    | false => exact consistent
    | true =>
        refine { consistent with ring := ?_ }
        intro record member chosen
        rcases List.mem_append.mp member with earlier | last
        · exact consistent.ring record earlier chosen
        · obtain rfl := List.mem_singleton.mp last
          exact emitted_explained set cel cfg accepted language fits s consistent call sub
            small answer evaluated chosen

theorem pipeline_step_consistent (verify : Bool) (s : PipelineState) (step : PipelineStep)
    (stable : StableStep set s step) (consistent : Consistent set s) :
    Consistent set (pipelineStep set verify s step) := by
  cases step with
  | replace cache => exact replace_consistent set s consistent cache stable
  | syncBegin order => exact sync_begin_consistent set verify s consistent order
  | syncUpdate updated => exact sync_update_consistent set verify s consistent updated
  | syncDelete key => exact sync_delete_consistent set verify s consistent key
  | syncEnd => exact sync_end_consistent set verify s consistent
  | evict key => exact deleted_verdict_consistent set s consistent key
  | submit call sub =>
      rw [pipelineStep]
      split_ifs with known
      · exact submit_consistent set cel lawful cfg accepted language fits s consistent call sub
          (known_type_small sub.type known)
      · exact consistent
  | read => exact read_consistent set verify s consistent
  | finish updated =>
      exact finish_consistent set cel lawful cfg accepted language verify s consistent updated

/-- In every run whose cache replacements keep the masks in play, no verification
fails and no event is dropped that the filters match. -/
theorem kernel_decisions_verified (verify : Bool) (cache : Cache) (steps : List PipelineStep)
    (stable : Along (pipelineStep set verify) (StableStep set) (PipelineState.start cache) steps) :
    (run (pipelineStep set verify) (PipelineState.start cache) steps).verifyMismatches = 0 ∧
      (run (pipelineStep set verify) (PipelineState.start cache) steps).lostMatches = 0 := by
  have initial : Consistent set (PipelineState.start cache) :=
    ⟨by simp [PipelineState.start], by simp [PipelineState.start], by simp [PipelineState.start],
      by simp [PipelineState.start], rfl, rfl⟩
  have final := invariant_along (pipelineStep set verify) (StableStep set) (Consistent set)
    (pipeline_step_consistent set cel lawful cfg accepted language fits verify)
    (PipelineState.start cache) initial steps stable
  exact ⟨final.verified, final.kept⟩

end Decisions

end Steps

def podB : ContainerInfo where
  cgroupID := 7
  containerID := List.replicate 64 'b'
  runtime := .containerd
  podName := "b"

/-- Cgroup 7 belongs to pod `b` and no other cgroup to a container. -/
def podCache : Cache := fun id => if id = 7 then some podB else none

/-- Besides, cgroup 9 belongs to another container of pod `b`. -/
def twoContainersCache : Cache :=
  fun id => if id = 9 then some { podB with cgroupID := 9 } else podCache id

def emptyCache : Cache := fun _ => none

/-- A closed connection of a socket in cgroup 7. -/
def closeInPod : PipelineStep :=
  .submit
    { skaddr := 1, sk := { cgroup := some 7 }, task := {}, now := 0, submitNow := 0,
      maps := { cfg := none, prog := none, verdicts := fun _ => none }, reserved := true }
    { skaddr := 1
      cctx := { cgroupID := 7, startTS := 0, pid := 0, comm := fun _ => 0, lastProbeNS := 0 }
      type := evtConnClosed
      endpoints :=
        { family := KernelCidr.afInet, sport := 0, dport := 0,
          addrs := { localIP := fun _ => 0, remoteIP := fun _ => 0 } }
      admitted := 0 }

def verifiedRun : List PipelineStep :=
  [closeInPod, .read, .finish true, closeInPod, .replace twoContainersCache, .read, .finish true]

theorem host_pod_equality_tests : EqualityTests hostPod :=
  .logicalAnd _ _
    (.test .equals "ko_namespace" attrNamespace "" (Or.inl rfl) (by decide))
    (.test .equals "ko_pod" attrPod "b" (Or.inl rfl) (by decide))

/-- Cgroup 9 is not in play when its container comes into the cache. -/
theorem second_container_stable :
    let s := run (pipelineStep hostPodSet true) (PipelineState.start podCache) (verifiedRun.take 4)
    StableStep hostPodSet s (.replace twoContainersCache) := by
  intro s id inPlay
  have kept : s.cache = podCache := rfl
  by_cases second : id = 9
  · exfalso
    rw [second] at inPlay
    rcases inPlay with stored | ⟨pass, running, _⟩ | ⟨record, member, _, cgroup⟩ | ⟨record, info, read, _⟩
    · revert stored
      decide +kernel
    · cases running
    · have all : ∀ record ∈ s.ring, record.cgroupID ≠ 9 := by decide +kernel
      exact all record member cgroup
    · cases read
  · rw [kept, cacheMask, cacheMask, twoContainersCache, if_neg second]

/-- The first event is resolved in user space, the second one decided by the kernel
and verified when another container has come into the cache. -/
theorem kernel_decisions_verified_host_pod :
    compile hostPodCel hostPodFilters = .ok hostPodSet ∧
      cacheMask hostPodSet twoContainersCache 9 ≠ cacheMask hostPodSet podCache 9 ∧
      (run (pipelineStep hostPodSet true) (PipelineState.start podCache)
        verifiedRun).verifyMismatches = 0 := by
  refine ⟨rfl, by decide +kernel, (kernel_decisions_verified hostPodSet hostPodCel
    (ReferenceCel.reference_lawful _) hostPodFilters rfl ?_ (by decide) true podCache verifiedRun
    ?_).1⟩
  · simp [hostPodSet, host_pod_equality_tests]
  · exact ⟨trivial, trivial, trivial, trivial, second_container_stable, trivial, trivial, trivial⟩

/-- A record decided for pod `b` is verified after the pod has left the cache. -/
def overtakenRecord : List PipelineStep :=
  [closeInPod, .read, .finish true, closeInPod, .replace emptyCache, .read, .finish true]

/-- The verdict of an unknown cgroup outlives the arrival of pod `b`. -/
def staleVerdict : List PipelineStep :=
  [closeInPod, .read, .finish true, .replace podCache, closeInPod]

theorem kernel_decisions_overtaken :
    compile hostPodCel hostPodFilters = .ok hostPodSet ∧
      (∀ e ∈ hostPodSet.asts, EqualityTests e) ∧
      (run (pipelineStep hostPodSet true) (PipelineState.start podCache)
        overtakenRecord).verifyMismatches = 1 ∧
      (run (pipelineStep hostPodSet true) (PipelineState.start emptyCache)
        staleVerdict).lostMatches = 1 := by
  refine ⟨rfl, ?_, by decide +kernel, by decide +kernel⟩
  simp [hostPodSet, host_pod_equality_tests]

end KoAgent.VerdictPipeline
