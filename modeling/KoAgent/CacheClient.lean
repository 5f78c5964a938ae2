import KoAgent.ContainerCache

/-!
# `Sync` and `GetContainerInfo` under concurrency

The goroutines that use the container cache are `Run` with its periodic `Sync`,
the resolver of the tracer, and any number of further callers of
`GetContainerInfo`. A phase is a point between two accesses to what they share:
the published map, `lastSync`, the lock `syncMu`, the clock and the node itself.
Containers appear at arbitrary moments and stay. A request carries the world it
was made in, and a published map the request whose `Sync` read it, when that
read was complete; both are bookkeeping that no step depends on.
-/

namespace KoAgent.CacheClient

open KoAgent.FilterModel KoAgent.ContainerCache

set_option autoImplicit false

inductive Goroutine where
  | run
  | resolver
  | caller (number : Nat)
  deriving DecidableEq

structure Request where
  cgroupID : U64
  world : World

/-- The map `byCgroup`, with the worlds its directories and containers were read in. -/
structure Published where
  walked : World
  listed : World
  reader : Option Request
  byCgroup : U64 → Option ContainerInfo
  built : byCgroup = syncEntries (walkCgroups walked.dirs) (criByID listed.containers)

def Published.initial : Published where
  walked := World.empty
  listed := World.empty
  reader := none
  byCgroup := fun _ => none
  built := rfl

/-- The map built from a walk and a listing; a CRI error leaves the listing empty. -/
def syncResult (q : Option Request) (walked listed : World) (answered : Bool) : Published where
  walked := walked
  listed := if answered then listed else World.empty
  reader := if answered then q else none
  byCgroup := syncEntries (walkCgroups walked.dirs)
    (criByID (if answered then listed else World.empty).containers)
  built := rfl

inductive Phase where
  | idle
  | missed (q : Request)
  | waiting (q : Request)
  | locked (q : Request)
  | walk (q : Option Request)
  | list (q : Option Request) (walked : World)
  | publish (q : Option Request) (result : Published)
  | stamp (q : Option Request)
  | again (q : Request)
  | done (q : Request) (info : Option ContainerInfo)

structure Shared where
  world : World
  now : Int
  published : Published
  lastSync : Int
  syncMu : Bool

structure ClientState where
  shared : Shared
  phase : Goroutine → Phase

def ClientState.initial (now : Int) : ClientState where
  shared :=
    { world := World.empty, now := now, published := Published.initial, lastSync := 0,
      syncMu := false }
  phase := fun _ => .idle

def lookup (s : Shared) (cgroupID : U64) : Option ContainerInfo := s.published.byCgroup cgroupID

def rateLimited (minSyncInterval : Int) (s : Shared) : Bool := s.now - s.lastSync < minSyncInterval

/-- `GetContainerInfo` up to its first lookup. -/
def getContainerInfo (s : Shared) (cgroupID : U64) : Phase :=
  match lookup s cgroupID with
  | some info => .done { cgroupID := cgroupID, world := s.world } (some info)
  | none => .missed { cgroupID := cgroupID, world := s.world }

/-- One goroutine up to its next access; `answered` is the outcome of `ListContainers`. -/
def advance (minSyncInterval : Int) (answered : Bool) (s : Shared) : Phase → Shared × Phase
  | .idle => (s, .idle)
  | .missed q => if rateLimited minSyncInterval s then (s, .again q) else (s, .waiting q)
  | .waiting q =>
      if s.syncMu then (s, .waiting q) else ({ s with syncMu := true }, .locked q)
  | .locked q =>
      if rateLimited minSyncInterval s then ({ s with syncMu := false }, .again q)
      else (s, .walk (some q))
  | .walk q => (s, .list q s.world)
  | .list q walked => (s, .publish q (syncResult q walked s.world answered))
  | .publish q result => ({ s with published := result }, .stamp q)
  | .stamp none => ({ s with lastSync := s.now }, .idle)
  | .stamp (some q) => ({ s with lastSync := s.now, syncMu := false }, .again q)
  | .again q => (s, .done q (lookup s q.cgroupID))
  | .done q info => (s, .done q info)

inductive ClientStep where
  | mkdir (index : Nat) (dir : Directory)
  | start (index : Nat) (container : CriContainer)
  | setClock (now : Int)
  | tick
  | call (number : Nat) (cgroupID : U64)
  | returned (number : Nat)
  | advance (g : Goroutine) (answered : Bool)

def ClientState.setPhase (s : ClientState) (g : Goroutine) (phase : Phase) : ClientState :=
  { s with phase := Function.update s.phase g phase }

@[simp] theorem set_phase_self (s : ClientState) (g : Goroutine) (phase : Phase) :
    (s.setPhase g phase).phase g = phase := Function.update_self ..

@[simp] theorem set_phase_other (s : ClientState) (g other : Goroutine) (phase : Phase)
    (different : other ≠ g) : (s.setPhase g phase).phase other = s.phase other :=
  Function.update_of_ne different ..

def clientStep (minSyncInterval : Int) (s : ClientState) : ClientStep → ClientState
  | .mkdir index dir => { s with shared := { s.shared with world := s.shared.world.mkdir index dir } }
  | .start index container =>
      { s with shared := { s.shared with world := s.shared.world.start index container } }
  | .setClock now => { s with shared := { s.shared with now := now } }
  | .tick =>
      match s.phase .run with
      | .idle => s.setPhase .run (.walk none)
      | _ => s
  | .call number cgroupID =>
      match s.phase (.caller number) with
      | .idle => s.setPhase (.caller number) (getContainerInfo s.shared cgroupID)
      | _ => s
  | .returned number =>
      match s.phase (.caller number) with
      | .done _ _ => s.setPhase (.caller number) .idle
      | _ => s
  | .advance g answered =>
      let next := advance minSyncInterval answered s.shared (s.phase g)
      { shared := next.1, phase := Function.update s.phase g next.2 }

/-- The read of the map saw everything that existed when its request was made. -/
def Published.Complete (p : Published) : Prop := ∀ q, p.reader = some q →
  q.world.dirs ⊆ p.walked.dirs ∧ q.world.containers ⊆ p.listed.containers

def PhaseOk (world : World) : Phase → Prop
  | .missed q | .waiting q | .locked q | .walk (some q) => q.world.Within world
  | .list (some q) walked => q.world.Within walked ∧ q.world.Within world
  | .publish _ result => result.Complete
  | _ => True

structure ClientOk (s : ClientState) : Prop where
  published : s.shared.published.Complete
  phases : ∀ g, PhaseOk s.shared.world (s.phase g)

theorem phase_ok_later (world later : World) (grown : world.Within later) (phase : Phase)
    (ok : PhaseOk world phase) : PhaseOk later phase := by
  cases phase with
  | missed q | waiting q | locked q => exact World.Within.trans ok grown
  | walk q =>
      cases q with
      | none => trivial
      | some q => exact World.Within.trans ok grown
  | list q walked =>
      cases q with
      | none => trivial
      | some q => exact ⟨ok.1, ok.2.trans grown⟩
  | publish q result => exact ok
  | idle | stamp _ | again _ | done _ _ => trivial

theorem sync_result_complete (world walked : World) (q : Option Request) (answered : Bool)
    (ok : PhaseOk world (.list q walked)) : (syncResult q walked world answered).Complete := by
  intro request reader
  cases answered with
  | false => cases reader
  | true =>
      obtain rfl : q = some request := reader
      exact ⟨ok.1.dirs, ok.2.containers⟩

theorem get_container_info_ok (s : Shared) (cgroupID : U64) :
    PhaseOk s.world (getContainerInfo s cgroupID) := by
  unfold getContainerInfo
  split
  · trivial
  · exact World.Within.refl s.world

/-- One goroutine leaves the world alone, publishes complete maps only, and keeps
its own phase in order. -/
theorem advance_ok (minSyncInterval : Int) (answered : Bool) (s : Shared) (phase : Phase)
    (published : s.published.Complete) (ok : PhaseOk s.world phase) :
    (advance minSyncInterval answered s phase).1.world = s.world ∧
      (advance minSyncInterval answered s phase).1.published.Complete ∧
      PhaseOk s.world (advance minSyncInterval answered s phase).2 := by
  cases phase with
  | idle | done _ _ | again _ => exact ⟨rfl, published, trivial⟩
  | missed q =>
      rw [advance]
      split_ifs
      · exact ⟨rfl, published, trivial⟩
      · exact ⟨rfl, published, ok⟩
  | waiting q =>
      rw [advance]
      split_ifs
      · exact ⟨rfl, published, ok⟩
      · exact ⟨rfl, published, ok⟩
  | locked q =>
      rw [advance]
      split_ifs
      · exact ⟨rfl, published, trivial⟩
      · exact ⟨rfl, published, ok⟩
  | walk q =>
      cases q with
      | none => exact ⟨rfl, published, trivial⟩
      | some q => exact ⟨rfl, published, ok, ok⟩
  | list q walked => exact ⟨rfl, published, sync_result_complete s.world walked q answered ok⟩
  | publish q result => exact ⟨rfl, ok, trivial⟩
  | stamp q => cases q <;> exact ⟨rfl, published, trivial⟩

theorem set_phase_ok (s : ClientState) (ok : ClientOk s) (g : Goroutine) (phase : Phase)
    (own : PhaseOk s.shared.world phase) : ClientOk (s.setPhase g phase) := by
  refine ⟨ok.published, ?_⟩
  intro other
  by_cases same : other = g
  · rw [same, set_phase_self]
    exact own
  · rw [set_phase_other s g other phase same]
    exact ok.phases other

theorem grown_world_ok (s : ClientState) (ok : ClientOk s) (world : World)
    (grown : s.shared.world.Within world) :
    ClientOk { s with shared := { s.shared with world := world } } :=
  ⟨ok.published, fun g => phase_ok_later _ _ grown _ (ok.phases g)⟩

theorem client_step_ok (minSyncInterval : Int) (s : ClientState) (step : ClientStep)
    (ok : ClientOk s) : ClientOk (clientStep minSyncInterval s step) := by
  cases step with
  | mkdir index dir => exact grown_world_ok s ok _ (within_mkdir _ _ _)
  | start index container => exact grown_world_ok s ok _ (within_start _ _ _)
  | setClock now => exact ⟨ok.published, ok.phases⟩
  | tick =>
      rw [clientStep]
      split
      · exact set_phase_ok s ok .run (.walk none) trivial
      · exact ok
  | call number cgroupID =>
      rw [clientStep]
      split
      · exact set_phase_ok s ok _ _ (get_container_info_ok s.shared cgroupID)
      · exact ok
  | returned number =>
      rw [clientStep]
      split
      · exact set_phase_ok s ok _ .idle trivial
      · exact ok
  | advance g answered =>
      obtain ⟨world, published, own⟩ :=
        advance_ok minSyncInterval answered s.shared (s.phase g) ok.published (ok.phases g)
      refine ⟨published, ?_⟩
      intro other
      dsimp only [clientStep]
      rw [world]
      by_cases same : other = g
      · rw [same, Function.update_self]
        exact own
      · rw [Function.update_of_ne same]
        exact ok.phases other

theorem client_initial_ok (now : Int) : ClientOk (ClientState.initial now) := by
  refine ⟨?_, fun _ => trivial⟩
  intro q reader
  cases reader

end KoAgent.CacheClient
