import KoAgent.CacheClient
import KoAgent.CgroupTree
import KoAgent.StepRuns

/-!
# The order in which `Sync` reads and publishes

The goroutines of the container cache over a node whose directories and
containers change in any way. A `Sync` reads in one step and publishes in a later
one. Every step is a moment; the state records the world at each moment, the
moment of each goroutine's last read, and what has been published, newest first.
The steps of the goroutines do not depend on these records.

`ensureSynced` holds `syncMu` around its `Sync`, `Run` does not, so of two maps
that wait to be published one is always that of `Run`.
-/

namespace KoAgent.SyncOrder

open KoAgent.NumeralText KoAgent.FilterModel KoAgent.ContainerPaths KoAgent.ContainerCache
open KoAgent.CacheClient KoAgent.CgroupTree KoAgent.StepRuns

set_option autoImplicit false

/-! ## The lock -/

def holdsLock : Phase → Bool
  | .locked _ | .walk (some _) | .list (some _) _ | .publish (some _) _ | .stamp (some _) => true
  | _ => false

/-- `Run` syncs for no request, a caller of `GetContainerInfo` for its own. -/
def InRole (g : Goroutine) : Phase → Prop
  | .idle => True
  | .walk q | .list q _ | .publish q _ | .stamp q => q = none ↔ g = .run
  | .missed _ | .waiting _ | .locked _ | .again _ | .done _ _ => g ≠ .run

structure LockOk (s : ClientState) : Prop where
  roles : ∀ g, InRole g (s.phase g)
  held : ∀ g, holdsLock (s.phase g) = true → s.shared.syncMu = true
  alone : ∀ g h, holdsLock (s.phase g) = true → holdsLock (s.phase h) = true → g = h

theorem advance_role (minSyncInterval : Int) (answered : Bool) (s : Shared) (g : Goroutine)
    (phase : Phase) (role : InRole g phase) :
    InRole g (advance minSyncInterval answered s phase).2 := by
  cases phase with
  | idle | walk _ | list _ _ | publish _ _ | again _ | done _ _ => exact role
  | missed q | waiting q =>
      rw [advance]
      split_ifs <;> exact role
  | locked q =>
      have other : g ≠ .run := role
      rw [advance]
      split_ifs
      · exact other
      · simp [InRole, other]
  | stamp q =>
      cases q with
      | none => trivial
      | some q =>
          intro same
          cases role.mpr same

/-- A step takes the free lock, releases the lock it has, or leaves it as it is. -/
def LockMoves (shared later : Shared) (phase next : Phase) : Prop :=
  (shared.syncMu = false ∧ later.syncMu = true) ∨
    (holdsLock phase = true ∧ holdsLock next = false) ∨
    (later.syncMu = shared.syncMu ∧ holdsLock next = holdsLock phase)

theorem advance_lock (minSyncInterval : Int) (answered : Bool) (s : Shared) (phase : Phase) :
    LockMoves s (advance minSyncInterval answered s phase).1 phase
      (advance minSyncInterval answered s phase).2 := by
  have unmoved : ∀ next, holdsLock next = holdsLock phase → LockMoves s s phase next :=
    fun next same => Or.inr (Or.inr ⟨rfl, same⟩)
  cases phase with
  | idle | again _ | done _ _ => exact unmoved _ rfl
  | walk q | list q _ => cases q <;> exact unmoved _ rfl
  | publish q result => cases q <;> exact Or.inr (Or.inr ⟨rfl, rfl⟩)
  | missed q =>
      rw [advance]
      split_ifs <;> exact unmoved _ rfl
  | waiting q =>
      rw [advance]
      split_ifs with taken
      · exact unmoved _ rfl
      · exact Or.inl ⟨by simpa using taken, rfl⟩
  | locked q =>
      rw [advance]
      split_ifs
      · exact Or.inr (Or.inl ⟨rfl, rfl⟩)
      · exact unmoved _ rfl
  | stamp q =>
      cases q with
      | none => exact Or.inr (Or.inr ⟨rfl, rfl⟩)
      | some q => exact Or.inr (Or.inl ⟨rfl, rfl⟩)

/-- One goroutine goes on to `next` and moves the lock; the others stay. -/
theorem moved_lock (s : ClientState) (ok : LockOk s) (g : Goroutine) (shared : Shared)
    (next : Phase) (role : InRole g next) (lock : LockMoves s.shared shared (s.phase g) next) :
    LockOk { shared := shared, phase := Function.update s.phase g next } := by
  -- A second holder contradicts each of the three ways the lock can go.
  have clash : ∀ h, h ≠ g → holdsLock (s.phase h) = true → holdsLock next = false := by
    intro h other holds
    rw [← Bool.not_eq_true]
    intro own
    rcases lock with ⟨free, _⟩ | ⟨_, released⟩ | ⟨_, same⟩
    · rw [ok.held h holds] at free
      cases free
    · rw [released] at own
      cases own
    · rw [same] at own
      exact other (ok.alone h g holds own)
  constructor
  · intro h
    dsimp only
    by_cases same : h = g
    · rw [same, Function.update_self]
      exact role
    · rw [Function.update_of_ne same]
      exact ok.roles h
  · intro h holds
    dsimp only at holds ⊢
    by_cases same : h = g
    · rw [same, Function.update_self] at holds
      rcases lock with ⟨_, taken⟩ | ⟨_, released⟩ | ⟨kept, own⟩
      · exact taken
      · rw [released] at holds
        cases holds
      · rw [own] at holds
        rw [kept]
        exact ok.held g holds
    · rw [Function.update_of_ne same] at holds
      rcases lock with ⟨_, taken⟩ | ⟨own, _⟩ | ⟨kept, _⟩
      · exact taken
      · exact absurd (ok.alone h g holds own) same
      · rw [kept]
        exact ok.held h holds
  · intro h other holds otherHolds
    dsimp only at holds otherHolds
    by_cases same : h = g
    · by_cases otherSame : other = g
      · rw [same, otherSame]
      · rw [same, Function.update_self] at holds
        rw [Function.update_of_ne otherSame] at otherHolds
        rw [clash other otherSame otherHolds] at holds
        cases holds
    · rw [Function.update_of_ne same] at holds
      by_cases otherSame : other = g
      · rw [otherSame, Function.update_self, clash h same holds] at otherHolds
        cases otherHolds
      · rw [Function.update_of_ne otherSame] at otherHolds
        exact ok.alone h other holds otherHolds

theorem set_phase_lock (s : ClientState) (ok : LockOk s) (g : Goroutine) (phase : Phase)
    (role : InRole g phase) (same : holdsLock phase = holdsLock (s.phase g)) :
    LockOk (s.setPhase g phase) :=
  moved_lock s ok g s.shared phase role (Or.inr (Or.inr ⟨rfl, same⟩))

theorem get_container_info_role (s : Shared) (number : Nat) (cgroupID : U64) :
    InRole (.caller number) (getContainerInfo s cgroupID) ∧
      holdsLock (getContainerInfo s cgroupID) = false := by
  rw [getContainerInfo]
  split
  · exact ⟨by simp [InRole], rfl⟩
  · exact ⟨by simp [InRole], rfl⟩

theorem client_step_lock (minSyncInterval : Int) (s : ClientState) (step : ClientStep)
    (ok : LockOk s) : LockOk (clientStep minSyncInterval s step) := by
  cases step with
  | mkdir _ _ | start _ _ | setClock _ => exact ⟨ok.roles, ok.held, ok.alone⟩
  | tick =>
      rw [clientStep]
      split
      · rename_i idle
        exact set_phase_lock s ok .run (.walk none) (by simp [InRole]) (by rw [idle]; rfl)
      · exact ok
  | call number cgroupID =>
      rw [clientStep]
      split
      · rename_i idle
        have asked := get_container_info_role s.shared number cgroupID
        exact set_phase_lock s ok _ _ asked.1 (by rw [idle, asked.2]; rfl)
      · exact ok
  | returned number =>
      rw [clientStep]
      split
      · rename_i finished
        exact set_phase_lock s ok _ .idle trivial (by rw [finished]; rfl)
      · exact ok
  | advance g answered =>
      exact moved_lock s ok g _ _
        (advance_role minSyncInterval answered s.shared g (s.phase g) (ok.roles g))
        (advance_lock minSyncInterval answered s.shared (s.phase g))

/-! ## Reads and publications -/

/-- A published map and the moment its `Sync` read the node. -/
structure Publication where
  readAt : Nat
  map : Published

structure OrderState where
  client : ClientState
  moment : Nat
  worldAt : Nat → World
  readAt : Goroutine → Nat
  publications : List Publication

def OrderState.initial (now : Int) : OrderState where
  client := ClientState.initial now
  moment := 0
  worldAt := fun _ => World.empty
  readAt := fun _ => 0
  publications := []

inductive OrderStep where
  | change (world : World)
  | setClock (now : Int)
  | tick
  | call (number : Nat) (cgroupID : U64)
  | returned (number : Nat)
  | advance (g : Goroutine) (answered : Bool)

/-- The next moment. -/
def OrderState.after (s : OrderState) (client : ClientState) : OrderState :=
  { s with
    client := client
    moment := s.moment + 1
    worldAt := Function.update s.worldAt (s.moment + 1) client.shared.world }

/-- The walk over the cgroups and the listing of the containers are one step. -/
def orderStep (minSyncInterval : Int) (s : OrderState) : OrderStep → OrderState
  | .change world => s.after { s.client with shared := { s.client.shared with world := world } }
  | .setClock now => s.after (clientStep minSyncInterval s.client (.setClock now))
  | .tick => s.after (clientStep minSyncInterval s.client .tick)
  | .call number cgroupID =>
      s.after (clientStep minSyncInterval s.client (.call number cgroupID))
  | .returned number => s.after (clientStep minSyncInterval s.client (.returned number))
  | .advance g answered =>
      let next := clientStep minSyncInterval s.client (.advance g answered)
      match s.client.phase g with
      | .walk _ =>
          { s.after (clientStep minSyncInterval next (.advance g answered)) with
            readAt := Function.update s.readAt g s.moment }
      | .publish _ result =>
          { s.after next with
            publications := { readAt := s.readAt g, map := result } :: s.publications }
      | _ => s.after next

/-- The goroutine has read the node and not yet published. -/
def pending : Phase → Bool
  | .publish _ _ => true
  | _ => false

/-- No map is published while another one that was read before it waits; only the
maps of `Run` and of a caller can wait together. -/
def InOrder (s : OrderState) : OrderStep → Prop
  | .advance g _ => pending (s.client.phase g) = true →
      ∀ h, h ≠ g → (g = .run ∨ h = .run) → pending (s.client.phase h) = true →
        s.readAt g ≤ s.readAt h
  | _ => True

/-- The container the map has under an id. -/
def shown (p : Published) (cgroupID : U64) : Option Text :=
  (p.byCgroup cgroupID).map ContainerInfo.containerID

/-- The container a walk over the directories finds under an id. -/
def containerIn (world : World) (cgroupID : U64) : Option Text :=
  (walkCgroups world.dirs cgroupID).bind fun path => (containerIDFromCgroupPath path).map Prod.fst

def InReadOrder (s : OrderState) : Prop :=
  s.publications.Pairwise fun later earlier => earlier.readAt ≤ later.readAt

/-- A container that some published map had, and that has existed ever since that
map was read, is in the map published last. -/
structure Forward (s : OrderState) : Prop where
  inReadOrder : InReadOrder s
  kept : ∀ p ∈ s.publications, ∀ cgroupID containerID,
    shown p.map cgroupID = some containerID →
    (∀ moment, p.readAt ≤ moment → moment ≤ s.moment →
      containerIn (s.worldAt moment) cgroupID = some containerID) →
    shown s.client.shared.published cgroupID = some containerID

/-- A map shows the containers of the world its directories were read in. -/
theorem shown_walked (p : Published) (cgroupID : U64) :
    shown p cgroupID = containerIn p.walked cgroupID := by
  rw [shown, p.built, syncEntries, containerIn]
  cases walkCgroups p.walked.dirs cgroupID with
  | none => rfl
  | some path =>
      rw [Option.bind_some, Option.bind_some, containerInfo]
      cases containerIDFromCgroupPath path with
      | none => rfl
      | some decoded =>
          dsimp only
          cases criByID p.listed.containers decoded.1 <;> rfl

/-! ## What one step does -/

def Settled : Phase → Prop
  | .publish _ _ | .list _ _ => False
  | _ => True

theorem pending_iff (phase : Phase) :
    pending phase = true ↔ ∃ q result, phase = .publish q result := by
  cases phase with
  | publish q result => exact ⟨fun _ => ⟨q, result, rfl⟩, fun _ => rfl⟩
  | idle | missed _ | waiting _ | locked _ | walk _ | list _ _ | stamp _ | again _ | done _ _ =>
      simp [pending]

theorem settled_not_pending (phase : Phase) (settled : Settled phase) : pending phase = false := by
  rw [← Bool.not_eq_true, pending_iff]
  intro waits
  rcases waits with ⟨q, result, rfl⟩
  exact settled

/-- A step publishes and reads nothing, or one goroutine reads, or one publishes. -/
inductive Effect (s : OrderState) : OrderStep → OrderState → Prop
  | quiet (step : OrderStep) (client : ClientState)
      (published : client.shared.published = s.client.shared.published)
      (phases : ∀ g, client.phase g = s.client.phase g ∨
        (pending (s.client.phase g) = false ∧ Settled (client.phase g))) :
      Effect s step (s.after client)
  | read (g : Goroutine) (answered : Bool) (q : Option Request) (client : ClientState)
      (result : Published) (reads : s.client.phase g = .walk q)
      (walked : result.walked = s.client.shared.world)
      (published : client.shared.published = s.client.shared.published)
      (phases : client.phase = Function.update s.client.phase g (.publish q result)) :
      Effect s (.advance g answered)
        { s.after client with readAt := Function.update s.readAt g s.moment }
  | publish (g : Goroutine) (answered : Bool) (q : Option Request) (client : ClientState)
      (result : Published) (waits : s.client.phase g = .publish q result)
      (published : client.shared.published = result)
      (phases : client.phase = Function.update s.client.phase g (.stamp q)) :
      Effect s (.advance g answered)
        { s.after client with
          publications := { readAt := s.readAt g, map := result } :: s.publications }

theorem advance_quiet (minSyncInterval : Int) (answered : Bool) (s : Shared) (phase : Phase)
    (notWalk : ∀ q, phase ≠ .walk q) (notList : ∀ q walked, phase ≠ .list q walked)
    (notPublish : ∀ q result, phase ≠ .publish q result) :
    (advance minSyncInterval answered s phase).1.published = s.published ∧
      Settled (advance minSyncInterval answered s phase).2 := by
  cases phase with
  | walk q => exact absurd rfl (notWalk q)
  | list q walked => exact absurd rfl (notList q walked)
  | publish q result => exact absurd rfl (notPublish q result)
  | idle | again _ | done _ _ => exact ⟨rfl, trivial⟩
  | missed _ | waiting _ | locked _ =>
      rw [advance]
      split_ifs <;> exact ⟨rfl, trivial⟩
  | stamp q => cases q <;> exact ⟨rfl, trivial⟩

theorem set_phase_quiet (s : OrderState) (step : OrderStep) (g : Goroutine) (phase : Phase)
    (nothing : pending (s.client.phase g) = false) (settled : Settled phase) :
    Effect s step (s.after (s.client.setPhase g phase)) := by
  apply Effect.quiet step (s.client.setPhase g phase) rfl
  intro h
  by_cases same : h = g
  · right
    rw [same, set_phase_self]
    exact ⟨nothing, settled⟩
  · left
    exact set_phase_other s.client g h phase same

/-- The two accesses of a read, taken together. -/
theorem read_client (minSyncInterval : Int) (s : ClientState) (g : Goroutine) (answered : Bool)
    (q : Option Request) (current : s.phase g = .walk q) :
    clientStep minSyncInterval (clientStep minSyncInterval s (.advance g answered))
        (.advance g answered) =
      { shared := s.shared
        phase := Function.update s.phase g
          (.publish q (syncResult q s.shared.world s.shared.world answered)) } := by
  have walked : clientStep minSyncInterval s (.advance g answered) =
      { shared := s.shared, phase := Function.update s.phase g (.list q s.shared.world) } := by
    rw [clientStep, current]
    rfl
  rw [walked, clientStep]
  dsimp only
  rw [Function.update_self, Function.update_idem]
  rfl

theorem publish_client (minSyncInterval : Int) (s : ClientState) (g : Goroutine) (answered : Bool)
    (q : Option Request) (result : Published) (current : s.phase g = .publish q result) :
    clientStep minSyncInterval s (.advance g answered) =
      { shared := { s.shared with published := result }
        phase := Function.update s.phase g (.stamp q) } := by
  rw [clientStep, current]
  rfl

theorem order_step_effect (minSyncInterval : Int) (s : OrderState) (step : OrderStep)
    (whole : ∀ g q walked, s.client.phase g ≠ .list q walked) :
    Effect s step (orderStep minSyncInterval s step) := by
  have unmoved : Effect s step (s.after s.client) := Effect.quiet step _ rfl fun _ => Or.inl rfl
  cases step with
  | change world => exact Effect.quiet _ _ rfl fun _ => Or.inl rfl
  | setClock now => exact Effect.quiet _ _ rfl fun _ => Or.inl rfl
  | tick =>
      rw [orderStep, clientStep]
      split
      · rename_i idle
        exact set_phase_quiet s _ .run _ (by rw [idle]; rfl) trivial
      · exact unmoved
  | call number cgroupID =>
      rw [orderStep, clientStep]
      split
      · rename_i idle
        apply set_phase_quiet s _ _ _ (by rw [idle]; rfl)
        rw [getContainerInfo]
        split <;> trivial
      · exact unmoved
  | returned number =>
      rw [orderStep, clientStep]
      split
      · rename_i finished
        exact set_phase_quiet s _ _ _ (by rw [finished]; rfl) trivial
      · exact unmoved
  | advance g answered =>
      rw [orderStep]
      dsimp only
      split
      · rename_i q current
        rw [read_client minSyncInterval s.client g answered q current]
        exact Effect.read g answered q _ _ current rfl rfl rfl
      · rename_i q result current
        rw [publish_client minSyncInterval s.client g answered q result current]
        exact Effect.publish g answered q _ result current rfl rfl
      · rename_i notWalk notPublish
        have moves := advance_quiet minSyncInterval answered s.client.shared (s.client.phase g)
          notWalk (whole g) notPublish
        have nothing : pending (s.client.phase g) = false := by
          rw [← Bool.not_eq_true, pending_iff]
          intro waits
          rcases waits with ⟨q, result, current⟩
          exact notPublish q result current
        apply Effect.quiet _ _ moves.1
        intro h
        rw [clientStep]
        dsimp only
        by_cases same : h = g
        · right
          rw [same, Function.update_self]
          exact ⟨nothing, moves.2⟩
        · left
          exact Function.update_of_ne same _ _

/-! ## The records of a run -/

/-- What is recorded is what happened: every map, published or waiting, was read in
the world of the moment recorded for it, and the last one published is in use. -/
structure Recorded (s : OrderState) : Prop where
  lock : LockOk s.client
  whole : ∀ g q walked, s.client.phase g ≠ .list q walked
  current : s.worldAt s.moment = s.client.shared.world
  waiting : ∀ g q result, s.client.phase g = .publish q result →
    s.readAt g ≤ s.moment ∧ result.walked = s.worldAt (s.readAt g)
  published : ∀ p ∈ s.publications, p.readAt ≤ s.moment ∧ p.map.walked = s.worldAt p.readAt
  newest : ∀ p ∈ s.publications.head?, s.client.shared.published = p.map

theorem after_past (s : OrderState) (client : ClientState) (moment : Nat)
    (past : moment ≤ s.moment) : (s.after client).worldAt moment = s.worldAt moment := by
  apply Function.update_of_ne
  omega

theorem after_now (s : OrderState) (client : ClientState) :
    (s.after client).worldAt (s.moment + 1) = client.shared.world := Function.update_self ..

theorem order_step_lock (minSyncInterval : Int) (s : OrderState) (step : OrderStep)
    (ok : LockOk s.client) : LockOk (orderStep minSyncInterval s step).client := by
  cases step with
  | change world => exact ⟨ok.roles, ok.held, ok.alone⟩
  | setClock now => exact client_step_lock minSyncInterval s.client (.setClock now) ok
  | tick => exact client_step_lock minSyncInterval s.client .tick ok
  | call number cgroupID => exact client_step_lock minSyncInterval s.client (.call number cgroupID) ok
  | returned number => exact client_step_lock minSyncInterval s.client (.returned number) ok
  | advance g answered =>
      have once := client_step_lock minSyncInterval s.client (.advance g answered) ok
      rw [orderStep]
      dsimp only
      split
      · exact client_step_lock minSyncInterval _ (.advance g answered) once
      · exact once
      · exact once

/-- What was recorded stays true at the next moment. -/
theorem recorded_past (s : OrderState) (client : ClientState) (moment : Nat) (walked : World)
    (record : moment ≤ s.moment ∧ walked = s.worldAt moment) :
    moment ≤ s.moment + 1 ∧ walked = (s.after client).worldAt moment := by
  rw [after_past s client moment record.1]
  exact ⟨Nat.le_succ_of_le record.1, record.2⟩

theorem phase_after (before later : Goroutine → Phase) (g h : Goroutine) (next : Phase)
    (phases : later = Function.update before g next) :
    (h = g ∧ later h = next) ∨ (h ≠ g ∧ later h = before h) := by
  rw [phases]
  by_cases same : h = g
  · left
    rw [same]
    exact ⟨rfl, Function.update_self ..⟩
  · right
    exact ⟨same, Function.update_of_ne same _ _⟩

theorem effect_recorded (s next : OrderState) (step : OrderStep) (effect : Effect s step next)
    (ok : Recorded s) (lock : LockOk next.client) : Recorded next := by
  cases effect with
  | quiet step client published phases =>
      constructor
      · exact lock
      · intro g q walked now
        rcases phases g with same | ⟨_, settled⟩
        · exact ok.whole g q walked (same.symm.trans now)
        · rw [show client.phase g = .list q walked from now] at settled
          exact settled
      · exact after_now s client
      · intro g q result now
        rcases phases g with same | ⟨_, settled⟩
        · exact recorded_past s client _ _ (ok.waiting g q result (same.symm.trans now))
        · rw [show client.phase g = .publish q result from now] at settled
          exact settled.elim
      · intro p member
        exact recorded_past s client _ _ (ok.published p member)
      · intro p member
        exact published.trans (ok.newest p member)
  | read g answered q client result reads walked published phases =>
      constructor
      · exact lock
      · intro h other listed now
        rcases phase_after _ _ g h _ phases with ⟨_, own⟩ | ⟨_, same⟩
        · cases own.symm.trans now
        · exact ok.whole h other listed (same.symm.trans now)
      · exact after_now s client
      · intro h other map now
        rcases phase_after _ _ g h _ phases with ⟨rfl, own⟩ | ⟨different, same⟩
        · cases own.symm.trans now
          dsimp only
          rw [Function.update_self]
          exact recorded_past s client _ _ ⟨Nat.le_refl _, walked.trans ok.current.symm⟩
        · dsimp only
          rw [Function.update_of_ne different]
          exact recorded_past s client _ _ (ok.waiting h other map (same.symm.trans now))
      · intro p member
        exact recorded_past s client _ _ (ok.published p member)
      · intro p member
        exact published.trans (ok.newest p member)
  | publish g answered q client result waits published phases =>
      constructor
      · exact lock
      · intro h other listed now
        rcases phase_after _ _ g h _ phases with ⟨_, own⟩ | ⟨_, same⟩
        · cases own.symm.trans now
        · exact ok.whole h other listed (same.symm.trans now)
      · exact after_now s client
      · intro h other map now
        rcases phase_after _ _ g h _ phases with ⟨_, own⟩ | ⟨_, same⟩
        · cases own.symm.trans now
        · exact recorded_past s client _ _ (ok.waiting h other map (same.symm.trans now))
      · intro p member
        rcases List.mem_cons.mp member with rfl | earlier
        · exact recorded_past s client _ _ (ok.waiting g q result waits)
        · exact recorded_past s client _ _ (ok.published p earlier)
      · intro p member
        cases member
        exact published

theorem order_step_recorded (minSyncInterval : Int) (s : OrderState) (step : OrderStep)
    (ok : Recorded s) : Recorded (orderStep minSyncInterval s step) :=
  effect_recorded s _ step (order_step_effect minSyncInterval s step ok.whole) ok
    (order_step_lock minSyncInterval s step ok.lock)

theorem initial_lock (now : Int) : LockOk (ClientState.initial now) := by
  constructor
  · intro g
    trivial
  · intro g holds
    cases holds
  · intro g h holds
    cases holds

theorem initial_recorded (now : Int) : Recorded (OrderState.initial now) := by
  constructor
  · exact initial_lock now
  · intro g q walked listed
    cases listed
  · rfl
  · intro g q result waits
    cases waits
  · intro p member
    cases member
  · intro p member
    cases member

/-- `syncMu` lets only one caller wait with a map, so one of two is that of `Run`. -/
theorem waiting_with_run (s : ClientState) (ok : LockOk s) (g h : Goroutine) (different : h ≠ g)
    (waits : pending (s.phase g) = true) (other : pending (s.phase h) = true) :
    g = .run ∨ h = .run := by
  have holds : ∀ k, pending (s.phase k) = true → k = .run ∨ holdsLock (s.phase k) = true := by
    intro k now
    have role := ok.roles k
    rcases (pending_iff _).mp now with ⟨q, result, current⟩
    rw [current] at role ⊢
    cases q with
    | none => exact Or.inl (role.mp rfl)
    | some q => exact Or.inr rfl
  rcases holds g waits with isRun | first
  · exact Or.inl isRun
  · rcases holds h other with isRun | second
    · exact Or.inr isRun
    · exact absurd (ok.alone h g second first) different

/-- So far every map was published after those read before it, and none that waits
was read before one already published. -/
structure Sequenced (s : OrderState) : Prop where
  recorded : Recorded s
  inReadOrder : InReadOrder s
  ahead : ∀ g, pending (s.client.phase g) = true → ∀ p ∈ s.publications, p.readAt ≤ s.readAt g

/-- Whatever is published next was read last. -/
theorem effect_in_read_order (s next : OrderState) (step : OrderStep) (effect : Effect s step next)
    (ok : Sequenced s) : InReadOrder next := by
  cases effect with
  | quiet | read => exact ok.inReadOrder
  | publish g answered q client result waits published phases =>
      have own : pending (s.client.phase g) = true := by rw [waits]; rfl
      exact List.pairwise_cons.mpr ⟨ok.ahead g own, ok.inReadOrder⟩

theorem order_step_sequenced (minSyncInterval : Int) (s : OrderState) (step : OrderStep)
    (allowed : InOrder s step) (ok : Sequenced s) :
    Sequenced (orderStep minSyncInterval s step) := by
  have recorded := order_step_recorded minSyncInterval s step ok.recorded
  have effect := order_step_effect minSyncInterval s step ok.recorded.whole
  have sorted := effect_in_read_order s _ step effect ok
  generalize orderStep minSyncInterval s step = next at recorded effect sorted
  refine ⟨recorded, sorted, ?_⟩
  cases effect with
  | quiet step client published phases =>
      intro g waits
      rcases phases g with same | ⟨_, settled⟩
      · apply ok.ahead g
        rw [← same]
        exact waits
      · change pending (client.phase g) = true at waits
        rw [settled_not_pending _ settled] at waits
        cases waits
  | read g answered q client result reads walked published phases =>
      intro h waits p member
      dsimp only
      rcases phase_after _ _ g h _ phases with ⟨rfl, _⟩ | ⟨different, same⟩
      · rw [Function.update_self]
        exact (ok.recorded.published p member).1
      · rw [Function.update_of_ne different]
        exact ok.ahead h (same ▸ waits) p member
  | publish g answered q client result waits published phases =>
      intro h waitsToo p member
      rcases phase_after _ _ g h _ phases with ⟨_, stamped⟩ | ⟨different, same⟩
      · change pending (client.phase h) = true at waitsToo
        rw [stamped] at waitsToo
        cases waitsToo
      · have own : pending (s.client.phase g) = true := by rw [waits]; rfl
        have other : pending (s.client.phase h) = true := same ▸ waitsToo
        rcases List.mem_cons.mp member with rfl | earlier
        · exact allowed own h different
            (waiting_with_run s.client ok.recorded.lock g h different own other) other
        · exact ok.ahead h other p earlier

theorem sequenced_forward (s : OrderState) (ok : Sequenced s) : Forward s := by
  constructor
  · exact ok.inReadOrder
  · intro p member cgroupID containerID _ exists_
    have sorted := ok.inReadOrder
    rw [InReadOrder] at sorted
    have records := ok.recorded.published
    have newest := ok.recorded.newest
    cases list : s.publications with
    | nil =>
        rw [list] at member
        cases member
    | cons last rest =>
        rw [list] at member sorted records newest
        have later : p.readAt ≤ last.readAt := by
          rcases List.mem_cons.mp member with rfl | earlier
          · exact Nat.le_refl _
          · exact (List.pairwise_cons.mp sorted).1 p earlier
        have record := records last List.mem_cons_self
        rw [newest last rfl, shown_walked, record.2]
        exact exists_ last.readAt later record.1

theorem cache_never_goes_back (minSyncInterval now : Int) (steps : List OrderStep)
    (along : Along (orderStep minSyncInterval) InOrder (OrderState.initial now) steps) :
    Forward (run (orderStep minSyncInterval) (OrderState.initial now) steps) := by
  have start : Sequenced (OrderState.initial now) :=
    ⟨initial_recorded now, List.Pairwise.nil, fun _ waits => by cases waits⟩
  exact sequenced_forward _ (invariant_along (orderStep minSyncInterval) InOrder Sequenced
    (order_step_sequenced minSyncInterval) _ start steps along)

/-- A node with one pod container, in the cgroup with the number 7. -/
def podWorld : World where
  dirs := [podDirectory 7]
  containers := []
  inosDistinct := List.nodup_singleton _
  idsDistinct := List.nodup_nil

/-- `Run` reads an empty node and a caller the node with the container; both maps
wait together, and that of `Run` is published first. -/
def overlappingSyncs : List OrderStep :=
  [.tick, .advance .run true, .change podWorld, .call 0 7, .advance (.caller 0) true,
    .advance (.caller 0) true, .advance (.caller 0) true, .advance (.caller 0) true,
    .advance .run true, .advance (.caller 0) true]

theorem overlapping_syncs_forward :
    (run (orderStep 1) (OrderState.initial 10) overlappingSyncs).publications.map
        Publication.readAt = [7, 1] ∧
      Along (orderStep 1) InOrder (OrderState.initial 10) overlappingSyncs ∧
      Forward (run (orderStep 1) (OrderState.initial 10) overlappingSyncs) := by
  have along : Along (orderStep 1) InOrder (OrderState.initial 10) overlappingSyncs := by
    refine ⟨trivial, ?_, trivial, trivial, ?_, ?_, ?_, ?_, ?_, ?_, trivial⟩
    any_goals
      intro waits
      cases waits
      done
    · -- `Run` publishes beside the map of the caller, which was read later.
      intro waits h different _ other
      cases h with
      | run => exact absurd rfl different
      | resolver => cases other
      | caller number =>
          cases number with
          | zero => decide +kernel
          | succ number => cases other
    · intro waits h different own other
      rcases own with own | own
      · cases own
      · rw [own] at other
        cases other
  exact ⟨by decide +kernel, along, cache_never_goes_back 1 10 overlappingSyncs along⟩

/-- `Run` reads an empty node; a container appears, a caller misses it, syncs and
publishes it; then `Run` publishes what it read. -/
def overtakenSync : List OrderStep :=
  [.tick, .advance .run true, .change podWorld, .call 0 7, .advance (.caller 0) true,
    .advance (.caller 0) true, .advance (.caller 0) true, .advance (.caller 0) true,
    .advance (.caller 0) true, .advance .run true]

theorem overtaken_sync_loses_container :
    shown (run (orderStep 1) (OrderState.initial 10)
        (overtakenSync.take 9)).client.shared.published 7 = some (List.replicate 64 'a') ∧
      containerIn (run (orderStep 1) (OrderState.initial 10)
        overtakenSync).client.shared.world 7 = some (List.replicate 64 'a') ∧
      shown (run (orderStep 1) (OrderState.initial 10)
        overtakenSync).client.shared.published 7 = none ∧
      (run (orderStep 1) (OrderState.initial 10) overtakenSync).publications.map
        Publication.readAt = [1, 7] ∧
      ¬ Forward (run (orderStep 1) (OrderState.initial 10) overtakenSync) := by
  have reads : (run (orderStep 1) (OrderState.initial 10) overtakenSync).publications.map
      Publication.readAt = [1, 7] := by decide +kernel
  refine ⟨by decide +kernel, by decide +kernel, by decide +kernel, reads, ?_⟩
  intro forward
  have sorted := forward.inReadOrder
  rw [InReadOrder, ← List.pairwise_map (f := Publication.readAt)
    (R := fun later earlier => earlier ≤ later), reads] at sorted
  exact absurd sorted (by decide)

/-! ## Why the order of the steps matters -/

/-- The order is broken, or a map that waits was read before one already published. -/
def Overtaken (s : OrderState) : Prop :=
  ¬ InReadOrder s ∨ ∃ g, pending (s.client.phase g) = true ∧ ∃ p ∈ s.publications, s.readAt g < p.readAt

theorem order_step_publish (minSyncInterval : Int) (s : OrderState) (g : Goroutine)
    (answered : Bool) (waits : pending (s.client.phase g) = true) :
    ∃ p, (orderStep minSyncInterval s (.advance g answered)).publications = p :: s.publications ∧
      p.readAt = s.readAt g ∧
      (orderStep minSyncInterval s (.advance g answered)).readAt = s.readAt ∧
      ∀ h, h ≠ g → (orderStep minSyncInterval s (.advance g answered)).client.phase h =
        s.client.phase h := by
  rcases (pending_iff _).mp waits with ⟨q, result, current⟩
  have step : orderStep minSyncInterval s (.advance g answered) =
      { s.after (clientStep minSyncInterval s.client (.advance g answered)) with
        publications := { readAt := s.readAt g, map := result } :: s.publications } := by
    rw [orderStep]
    simp only [current]
  rw [step]
  refine ⟨_, rfl, rfl, rfl, ?_⟩
  intro h different
  exact Function.update_of_ne different _ _

theorem out_of_order_overtaken (minSyncInterval : Int) (s : OrderState) (step : OrderStep)
    (disorder : ¬ InOrder s step) : Overtaken (orderStep minSyncInterval s step) := by
  cases step with
  | change _ | setClock _ | tick | call _ _ | returned _ => exact absurd trivial disorder
  | advance g answered =>
      simp only [InOrder, not_forall, Nat.not_le] at disorder
      rcases disorder with ⟨waits, h, different, _, other, older⟩
      rcases order_step_publish minSyncInterval s g answered waits with
        ⟨p, published, read, reads, phases⟩
      right
      refine ⟨h, ?_, p, ?_, ?_⟩
      · rw [phases h different]
        exact other
      · rw [published]
        exact List.mem_cons_self
      · rw [reads, read]
        exact older

theorem disorder_stays (minSyncInterval : Int) (s : OrderState) (step : OrderStep)
    (whole : ∀ g q walked, s.client.phase g ≠ .list q walked) (broken : ¬ InReadOrder s) :
    ¬ InReadOrder (orderStep minSyncInterval s step) := by
  have effect := order_step_effect minSyncInterval s step whole
  generalize orderStep minSyncInterval s step = next at effect
  intro sorted
  cases effect with
  | quiet | read => exact broken sorted
  | publish => exact broken (List.pairwise_cons.mp sorted).2

/-- A map that was overtaken waits until it is published. -/
theorem overtaken_step (minSyncInterval : Int) (s : OrderState) (step : OrderStep)
    (whole : ∀ g q walked, s.client.phase g ≠ .list q walked) (lost : Overtaken s) :
    Overtaken (orderStep minSyncInterval s step) := by
  have effect := order_step_effect minSyncInterval s step whole
  rcases lost with broken | ⟨h, waits, p, member, older⟩
  · exact Or.inl (disorder_stays minSyncInterval s step whole broken)
  · generalize orderStep minSyncInterval s step = next at effect
    cases effect with
    | quiet step client published phases =>
        rcases phases h with same | ⟨nothing, _⟩
        · exact Or.inr ⟨h, same.symm ▸ waits, p, member, older⟩
        · rw [nothing] at waits
          cases waits
    | read g answered q client result reads walked published phases =>
        rcases phase_after _ _ g h _ phases with ⟨rfl, _⟩ | ⟨different, same⟩
        · rw [reads] at waits
          cases waits
        · right
          refine ⟨h, same.symm ▸ waits, p, member, ?_⟩
          dsimp only
          rwa [Function.update_of_ne different]
    | publish g answered q client result current published phases =>
        rcases phase_after _ _ g h _ phases with ⟨rfl, _⟩ | ⟨different, same⟩
        · left
          intro sorted
          have least := (List.pairwise_cons.mp sorted).1 p member
          dsimp only at least
          omega
        · exact Or.inr ⟨h, same.symm ▸ waits, p, List.mem_cons_of_mem _ member, older⟩

theorem overtaken_breaks (minSyncInterval : Int) (s : OrderState)
    (whole : ∀ g q walked, s.client.phase g ≠ .list q walked) (lost : Overtaken s) :
    ∃ g, ¬ InReadOrder (orderStep minSyncInterval s (.advance g true)) := by
  rcases lost with broken | ⟨g, waits, p, member, older⟩
  · exact ⟨.run, disorder_stays minSyncInterval s _ whole broken⟩
  · rcases order_step_publish minSyncInterval s g true waits with ⟨last, published, read, _, _⟩
    refine ⟨g, ?_⟩
    intro sorted
    rw [InReadOrder, published] at sorted
    have least := (List.pairwise_cons.mp sorted).1 p member
    omega

/-- A run keeps to the order exactly when it and whatever is published next do: a
map that was overtaken can only be published out of order. -/
theorem in_order_iff_read_order (minSyncInterval : Int) (s : OrderState) (ok : Sequenced s)
    (steps : List OrderStep) :
    Along (orderStep minSyncInterval) InOrder s steps ↔
      ∀ g answered, InReadOrder (orderStep minSyncInterval
        (run (orderStep minSyncInterval) s steps) (.advance g answered)) := by
  constructor
  · intro along g answered
    have reached := invariant_along (orderStep minSyncInterval) InOrder Sequenced
      (order_step_sequenced minSyncInterval) s ok steps along
    exact effect_in_read_order _ _ _
      (order_step_effect minSyncInterval _ _ reached.recorded.whole) reached
  · intro sorted
    induction steps generalizing s with
    | nil => trivial
    | cons step rest induction =>
        have allowed : InOrder s step := by
          by_contra disorder
          have reached := invariant_run (orderStep minSyncInterval)
            (fun state => Recorded state ∧ Overtaken state)
            (fun state later ok => ⟨order_step_recorded minSyncInterval state later ok.1,
              overtaken_step minSyncInterval state later ok.1.whole ok.2⟩)
            (orderStep minSyncInterval s step)
            ⟨order_step_recorded minSyncInterval s step ok.recorded,
              out_of_order_overtaken minSyncInterval s step disorder⟩ rest
          rcases overtaken_breaks minSyncInterval _ reached.1.whole reached.2 with ⟨g, broken⟩
          exact broken (sorted g true)
        constructor
        · exact allowed
        · exact induction (orderStep minSyncInterval s step)
            (order_step_sequenced minSyncInterval s step allowed ok) sorted

end KoAgent.SyncOrder
