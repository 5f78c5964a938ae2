import KoAgent.CacheClient
import KoAgent.FilterResolution
import KoAgent.PushdownRefinement

/-!
# Verdicts of existing containers

The reader loop resolves one record at a time while directories and containers
appear and any goroutine synchronises the cache. A store is the mask that
`resolveFilter` writes, with the request it answers. The mask is the container's
own whenever the lookup that decides the request reads a map that knows the
container: one read after its directory and its CRI record existed, in
particular the one that the request's own `Sync` has published.
-/

namespace KoAgent.VerdictResolution

open KoAgent.FilterModel KoAgent.FilterSets KoAgent.SocketHandlers KoAgent.ContainerPaths
open KoAgent.ContainerCache KoAgent.CacheClient KoAgent.FilterResolution KoAgent.StepRuns
open KoAgent.PushdownRefinement

set_option autoImplicit false

structure Store where
  request : Request
  mask : U64

structure ResolverState where
  client : ClientState
  handling : Option ConnEvent
  verdicts : U64 → Option U64
  stores : List Store

def ResolverState.initial (now : Int) : ResolverState where
  client := ClientState.initial now
  handling := none
  verdicts := fun _ => none
  stores := []

inductive ResolverStep where
  | client (step : ClientStep)
  | handle (raw : ConnEvent)
  | finish (updated : Bool)

/-- `handle` begins `resolveFilter` for a record and `finish` ends it, once `Attrs`
has returned; the request's id is the record's `CgroupId`. -/
def resolverStep (set : FilterSet) (minSyncInterval : Int) (s : ResolverState) :
    ResolverStep → ResolverState
  | .client step => { s with client := clientStep minSyncInterval s.client step }
  | .handle raw =>
      match s.client.phase .resolver with
      | .idle =>
          { s with
            client := s.client.setPhase .resolver (getContainerInfo s.client.shared raw.cgroupID)
            handling := some raw }
      | _ => s
  | .finish updated =>
      match s.client.phase .resolver, s.handling with
      | .done q info, some raw =>
          let next := { s with client := s.client.setPhase .resolver .idle, handling := none }
          match (resolveFilter set raw (sourceAttrs (lookupResult info))).mask with
          | none => next
          | some mask =>
              -- a failed update is logged and stores nothing
              if updated then
                { next with
                  verdicts := Function.update s.verdicts q.cgroupID (some mask)
                  stores := { request := q, mask := mask } :: s.stores }
              else next
      | _, _ => s

/-- The map is good for the request: it uses the cgroup's id as that cgroup's own
key, and it was read by the request itself or saw the container. -/
def Timely (p : Published) (q : Request) : Prop :=
  ∀ container, InCgroup q.world.dirs q.world.containers q.cgroupID container →
    OwnKey p.walked.dirs q.cgroupID ∧
      (p.reader = some q ∨ InCgroup p.walked.dirs p.listed.containers q.cgroupID container)

/-- The lookup that decides a request, the first one when it finds an entry and the
second one otherwise, reads a good map. -/
def TimelyStep (s : ResolverState) : ResolverStep → Prop
  | .handle raw => s.client.phase .resolver = .idle →
      (lookup s.client.shared raw.cgroupID).isSome →
        Timely s.client.shared.published
          { cgroupID := raw.cgroupID, world := s.client.shared.world }
  | .client (.advance .resolver _) => ∀ q, s.client.phase .resolver = .again q →
      Timely s.client.shared.published q
  | _ => True

/-- Every mask stored for an existing container is the container's own. -/
def StoredOwn (set : FilterSet) (s : ResolverState) : Prop :=
  ∀ store ∈ s.stores, ∀ container,
    InCgroup store.request.world.dirs store.request.world.containers store.request.cgroupID
      container → store.mask = set.verdictMask container.attrs

/-- The answer of a finished request has the attributes of an existing container. -/
def Answered (phase : Phase) : Prop := ∀ q info, phase = .done q info →
  ∀ container, InCgroup q.world.dirs q.world.containers q.cgroupID container →
    entryAttrs info = container.attrs

structure ResolverOk (set : FilterSet) (s : ResolverState) : Prop where
  client : ClientOk s.client
  answered : Answered (s.client.phase .resolver)
  stored : StoredOwn set s

theorem timely_entry (p : Published) (complete : p.Complete) (q : Request) (timely : Timely p q)
    (container : CriContainer)
    (inside : InCgroup q.world.dirs q.world.containers q.cgroupID container) :
    entryAttrs (p.byCgroup q.cgroupID) = container.attrs := by
  obtain ⟨own, known⟩ := timely container inside
  have seen : InCgroup p.walked.dirs p.listed.containers q.cgroupID container := by
    rcases known with reader | seen
    · obtain ⟨dirs, containers⟩ := complete q reader
      obtain ⟨member, dir, walked, rest⟩ := inside
      exact ⟨containers member, dir, dirs walked, rest⟩
    · exact seen
  have entry := sync_entries_attrs p.walked p.listed q.cgroupID container seen own
  rw [← p.built] at entry
  rw [entryAttrs, entry, Option.getD_some]

theorem answered_other (phase : Phase) (undone : ∀ q info, phase ≠ .done q info) :
    Answered phase := by
  intro q info same
  exact absurd same (undone q info)

/-- A step of the resolver inside `GetContainerInfo`; only a second lookup answers. -/
theorem advance_answered (minSyncInterval : Int) (outcome : Bool) (s : Shared) (phase : Phase)
    (complete : s.published.Complete) (answered : Answered phase)
    (timely : ∀ q, phase = .again q → Timely s.published q) :
    Answered (advance minSyncInterval outcome s phase).2 := by
  cases phase with
  | done q info => exact answered
  | again q =>
      intro request info same container inside
      obtain ⟨rfl, rfl⟩ := Phase.done.inj same
      exact timely_entry s.published complete q (timely q rfl) container inside
  | idle | walk _ | list _ _ | publish _ _ =>
      apply answered_other
      simp [advance]
  | missed q | waiting q | locked q =>
      apply answered_other
      rw [advance]
      split_ifs <;> simp
  | stamp q =>
      apply answered_other
      cases q <;> simp [advance]

theorem client_step_answered (minSyncInterval : Int) (s : ClientState) (ok : ClientOk s)
    (step : ClientStep) (answered : Answered (s.phase .resolver))
    (timely : ∀ outcome, step = .advance .resolver outcome →
      ∀ q, s.phase .resolver = .again q → Timely s.shared.published q) :
    Answered ((clientStep minSyncInterval s step).phase .resolver) := by
  have others : ∀ g phase, g ≠ Goroutine.resolver →
      Answered ((s.setPhase g phase).phase .resolver) := by
    intro g phase other
    rw [set_phase_other s g .resolver phase other.symm]
    exact answered
  cases step with
  | mkdir _ _ | start _ _ | setClock _ => exact answered
  | tick =>
      rw [clientStep]
      split
      · exact others .run _ (by decide)
      · exact answered
  | call number cgroupID =>
      rw [clientStep]
      split
      · exact others _ _ (by simp)
      · exact answered
  | returned number =>
      rw [clientStep]
      split
      · exact others _ _ (by simp)
      · exact answered
  | advance g outcome =>
      dsimp only [clientStep]
      by_cases own : g = .resolver
      · subst own
        rw [Function.update_self]
        exact advance_answered minSyncInterval outcome s.shared _ ok.published answered
          (timely outcome rfl)
      · rw [Function.update_of_ne (Ne.symm own)]
        exact answered

theorem handle_answered (s : Shared) (cgroupID : U64) (complete : s.published.Complete)
    (timely : (lookup s cgroupID).isSome →
      Timely s.published { cgroupID := cgroupID, world := s.world }) :
    Answered (getContainerInfo s cgroupID) := by
  unfold getContainerInfo
  split
  · next info found =>
      intro q answer same container inside
      obtain ⟨rfl, rfl⟩ := Phase.done.inj same
      rw [← found]
      exact timely_entry s.published complete _ (timely (by rw [found]; rfl)) container inside
  · apply answered_other
    simp

theorem finish_ok (set : FilterSet) (minSyncInterval : Int) (s : ResolverState)
    (ok : ResolverOk set s) (updated : Bool) :
    ResolverOk set (resolverStep set minSyncInterval s (.finish updated)) := by
  rw [resolverStep]
  split
  · next q info raw phase handling =>
      have client := set_phase_ok s.client ok.client .resolver .idle trivial
      have idle : Answered ((s.client.setPhase .resolver .idle).phase .resolver) := by
        rw [set_phase_self]
        exact answered_other _ (by simp)
      rw [resolve_filter_lookup]
      dsimp only
      split_ifs
      · refine ⟨client, idle, ?_⟩
        intro store member container inside
        rcases List.mem_cons.mp member with rfl | earlier
        · dsimp only
          rw [ok.answered q info phase container inside]
        · exact ok.stored store earlier container inside
      · exact ⟨client, idle, ok.stored⟩
  · exact ok

theorem resolver_step_ok (set : FilterSet) (minSyncInterval : Int) (s : ResolverState)
    (step : ResolverStep) (timely : TimelyStep s step) (ok : ResolverOk set s) :
    ResolverOk set (resolverStep set minSyncInterval s step) := by
  cases step with
  | client step =>
      refine ⟨client_step_ok minSyncInterval s.client step ok.client, ?_, ok.stored⟩
      apply client_step_answered minSyncInterval s.client ok.client step ok.answered
      rintro outcome rfl
      exact timely
  | handle raw =>
      rw [resolverStep]
      split
      · next idle =>
          refine ⟨set_phase_ok _ ok.client _ _ (get_container_info_ok _ _), ?_, ok.stored⟩
          rw [set_phase_self]
          exact handle_answered s.client.shared raw.cgroupID ok.client.published (timely idle)
      · exact ok
  | finish updated => exact finish_ok set minSyncInterval s ok updated

/-- In every run whose deciding lookups read good maps, an existing container is
only ever given the verdict of its own namespace, container and pod. -/
theorem existing_container_keeps_verdict (set : FilterSet) (minSyncInterval now : Int)
    (steps : List ResolverStep)
    (timely : Along (resolverStep set minSyncInterval) TimelyStep (ResolverState.initial now) steps) :
    StoredOwn set (run (resolverStep set minSyncInterval) (ResolverState.initial now) steps) := by
  have initial : ResolverOk set (ResolverState.initial now) :=
    ⟨client_initial_ok now, answered_other _ (by simp [ResolverState.initial, ClientState.initial]),
      by simp [StoredOwn, ResolverState.initial]⟩
  exact (invariant_along (resolverStep set minSyncInterval) TimelyStep (ResolverOk set)
    (resolver_step_ok set minSyncInterval) (ResolverState.initial now) initial steps timely).stored

def minSyncIntervalNS : Int := 2000000000

def prodContainer : CriContainer where
  id := List.replicate 64 'a'
  labels := fun name =>
    if name = podNamespaceLabel then some "prod"
    else if name = podNameLabel then some "api-0"
    else if name = containerNameLabel then some "api"
    else none

def prodDirectory : Directory where
  ino := 7
  path := "/sys/fs/cgroup/kubepods/cri-containerd-".toList ++ List.replicate 64 'a' ++
    ".scope".toList

def prodRecord : ConnEvent :=
  connEvent
    { skaddr := 1, sk := { cgroup := some 7 }, task := {}, now := 0, submitNow := 0,
      maps := { cfg := none, prog := none, verdicts := fun _ => none }, reserved := true }
    { skaddr := 1
      cctx := { cgroupID := 7, startTS := 0, pid := 0, comm := fun _ => 0, lastProbeNS := 0 }
      type := evtConnClosed
      endpoints :=
        { family := KernelCidr.afInet, sport := 0, dport := 0,
          addrs := { localIP := fun _ => 0, remoteIP := fun _ => 0 } }
      admitted := 0 }
    filterUndecided

def appears : List ResolverStep :=
  [.client (.mkdir 0 prodDirectory), .client (.start 0 prodContainer)]

def runSync : List ResolverStep :=
  [.client .tick, .client (.advance .run true), .client (.advance .run true),
    .client (.advance .run true), .client (.advance .run true)]

theorem prod_container_in_cgroup :
    InCgroup [prodDirectory] [prodContainer] 7 prodContainer :=
  ⟨List.mem_cons_self, prodDirectory, List.mem_cons_self, rfl, .containerd, by decide⟩

theorem prod_directory_own_key : OwnKey [prodDirectory] 7 := by
  refine ⟨by decide, ?_⟩
  intro dir member _
  rw [List.mem_singleton.mp member]
  rfl

def ownSync : List ResolverStep :=
  appears ++ [.handle prodRecord] ++ List.replicate 8 (.client (.advance .resolver true)) ++
    [.finish true]

/-- A miss that is not rate limited reads the container itself. -/
theorem existing_container_keeps_verdict_own_sync :
    (run (resolverStep slowProdSet minSyncIntervalNS) (ResolverState.initial 5000000000)
        ownSync).stores.map Store.mask = [1] ∧
      StoredOwn slowProdSet (run (resolverStep slowProdSet minSyncIntervalNS)
        (ResolverState.initial 5000000000) ownSync) := by
  refine ⟨by decide +kernel, existing_container_keeps_verdict slowProdSet minSyncIntervalNS 5000000000
    ownSync ?_⟩
  refine ⟨trivial, trivial, ?_, ?_, ?_, ?_, ?_, ?_, ?_, ?_, ?_, trivial, trivial⟩
  · intro _ found
    cases found
  all_goals
    intro q same
    cases same
  intro container _
  exact ⟨prod_directory_own_key, Or.inl rfl⟩

/-- The container appears within two seconds after a `Sync`: its first event finds
neither an entry nor permission to synchronise, and it gets the mask of a process
outside every container. -/
theorem new_container_gets_empty_verdict :
    ¬StoredOwn slowProdSet (run (resolverStep slowProdSet minSyncIntervalNS)
      (ResolverState.initial 5000000000) (runSync ++ appears ++
        [.handle prodRecord, .client (.advance .resolver true), .client (.advance .resolver true),
          .finish true])) := by
  intro own
  have stored := own
    { request := { cgroupID := 7, world := (World.empty.mkdir 0 prodDirectory).start 0 prodContainer }
      mask := slowProdSet.verdictMask {} }
    List.mem_cons_self prodContainer prod_container_in_cgroup
  exact absurd stored (by decide)

end KoAgent.VerdictResolution
