import KoAgent.VerdictPipeline
import KoAgent.VerdictReconciliation

/-!
# The verdict map as a hash table in use

`syncOnce` on the hash table that the map is, one iteration of its two loops at a
time: between two of them the reader stores verdicts, the table evicts keys, the
cache is replaced and the kernel decides events. The walk asks the table of that
moment for its next key. `view` forgets the order of the keys and how far the walk
has come; what is left takes steps of the pipeline.
-/

namespace KoAgent.VerdictTable

open KoAgent.FilterModel KoAgent.CelExpression KoAgent.FilterSets KoAgent.KernelFilter
open KoAgent.PushdownMeaning KoAgent.PushdownRefinement KoAgent.SocketHandlers
open KoAgent.ContainerCache KoAgent.FilterResolution KoAgent.AttributeFilters
open KoAgent.VerdictPipeline KoAgent.TableWalks KoAgent.VerdictReconciliation KoAgent.StepRuns

set_option autoImplicit false

/-- What `AttrsSnapshot` returns for a cache, in some order. -/
structure Snapshot where
  cache : Cache
  attrs : AttrsSnapshot
  taken : ∀ id, attrs.find id = (cache id).map containerAttrs

/-- Where a `syncOnce` is: at an entry of the snapshot, or at a key of the map with
so many steps of the iterator left. -/
inductive TablePass where
  | updating (snapshot : Snapshot) (position : Nat)
  | walking (snapshot : Snapshot) (cursor : Option U64) (steps : Nat)

structure TableState (slot : U64 ↪ Nat) where
  cache : Cache
  table : Table U64 slot
  pass : Option TablePass
  ring : List ConnEvent
  reader : Option (ConnEvent × Option ContainerInfo)
  verifyMismatches : Nat
  lostMatches : Nat

def TableState.start (slot : U64 ↪ Nat) (cache : Cache) : TableState slot where
  cache := cache
  table := Table.empty
  pass := none
  ring := []
  reader := none
  verifyMismatches := 0
  lostMatches := 0

def TablePass.view : TablePass → Pass
  | .updating snapshot position =>
      { snapshot := snapshot.cache
        todo := (snapshot.attrs.entries.drop position).map Prod.fst }
  | .walking snapshot _ _ => { snapshot := snapshot.cache, todo := [] }

inductive TableStep where
  | replace (cache : Cache)
  | syncBegin (snapshot : Snapshot)
  | syncNext (updated : Bool)
  | evict (key : U64)
  | submit (call : Call) (sub : Submission)
  | read
  | finish (updated : Bool)

section Steps

variable {slot : U64 ↪ Nat} (set : FilterSet)

def TableState.view (s : TableState slot) : PipelineState where
  cache := s.cache
  verdicts := s.table.lookup
  pass := s.pass.map TablePass.view
  ring := s.ring
  reader := s.reader
  verifyMismatches := s.verifyMismatches
  lostMatches := s.lostMatches

/-- One iteration of the loop that `syncOnce` is in. -/
def syncNext (updated : Bool) (s : TableState slot) : TablePass → TableState slot
  | .updating snapshot position =>
      match snapshot.attrs.entries[position]? with
      | none => { s with pass := some (.walking snapshot none (maxEntries + 1)) }
      | some entry =>
          if updated then
            { s with
              table := s.table.insert entry.1 (set.verdictMask entry.2)
              pass := some (.updating snapshot (position + 1)) }
          else { s with pass := none }
  | .walking _ _ 0 => { s with pass := none }
  | .walking snapshot cursor (steps + 1) =>
      match s.table.next cursor with
      | none => { s with pass := none }
      | some key =>
          { s with
            table := if snapshot.attrs.stale key then s.table.erase key else s.table
            pass := some (.walking snapshot (some key) steps) }

/-- The verdict that `resolveFilter` stores, and the count of `verifyBpfDecision`. -/
def tableFinish (updated : Bool) (s : TableState slot) (record : ConnEvent)
    (info : Option ContainerInfo) : TableState slot :=
  let resolution := resolveFilter set record (sourceAttrs (lookupResult info))
  { s with
    reader := none
    table :=
      match resolution.mask with
      | none => s.table
      | some mask => if updated then s.table.insert record.cgroupID mask else s.table
    verifyMismatches :=
      if decided set record && mismatches resolution record.filterIdx then s.verifyMismatches + 1
      else s.verifyMismatches }

/-- The kernel and the reader take from the table only what a lookup gives. -/
def tableStep (verify : Bool) (s : TableState slot) : TableStep → TableState slot
  | .replace cache => { s with cache := cache }
  | .syncBegin snapshot =>
      match s.pass with
      | some _ => s
      | none => { s with pass := some (.updating snapshot 0) }
  | .syncNext updated =>
      match s.pass with
      | none => s
      | some pass => syncNext set updated s pass
  | .evict key => { s with table := s.table.erase key }
  | .submit call sub =>
      let next := pipelineStep set verify s.view (.submit call sub)
      { s with ring := next.ring, lostMatches := next.lostMatches }
  | .read =>
      let next := pipelineStep set verify s.view .read
      { s with ring := next.ring, reader := next.reader }
  | .finish updated =>
      match s.reader with
      | none => s
      | some (record, info) => tableFinish set updated s record info

/-- A `syncOnce` takes its snapshot of the cache of that moment; a replacement of the
cache is one that is allowed to the pipeline. -/
def TableAllowed (allowed : PipelineState → PipelineStep → Prop) (s : TableState slot) :
    TableStep → Prop
  | .syncBegin snapshot => snapshot.cache = s.cache
  | .replace cache => allowed s.view (.replace cache)
  | _ => True

end Steps

/-! ## Lookups after an update -/

section Lookups

variable {slot : U64 ↪ Nat}

theorem insert_lookup (table : Table U64 slot) (key value : U64) :
    (table.insert key value).lookup = Function.update table.lookup key (some value) := by
  funext other
  apply Option.ext
  intro found
  rw [Table.lookup_iff, Table.mem_insert, Prod.mk.injEq]
  by_cases same : other = key
  · subst same
    rw [Function.update_self]
    simp [eq_comm]
  · rw [Function.update_of_ne same, Table.lookup_iff]
    simp [same]

theorem erase_lookup (table : Table U64 slot) (key : U64) :
    (table.erase key).lookup = Function.update table.lookup key none := by
  funext other
  apply Option.ext
  intro found
  rw [Table.lookup_iff, Table.mem_erase]
  by_cases same : other = key
  · subst same
    rw [Function.update_self]
    simp
  · rw [Function.update_of_ne same, Table.lookup_iff]
    simp [same]

end Lookups

namespace Snapshot

theorem stale_cache (snapshot : Snapshot) (key : U64) :
    snapshot.attrs.stale key = (snapshot.cache key).isNone := by
  rw [AttrsSnapshot.stale, snapshot.taken, Option.isNone_map]

theorem ids_cached (snapshot : Snapshot) :
    (snapshot.attrs.ids.filter fun id => (snapshot.cache id).isSome) = snapshot.attrs.ids := by
  apply List.filter_eq_self.mpr
  intro id member
  have fresh := (snapshot.attrs.stale_false_iff id).mpr member
  rw [snapshot.stale_cache] at fresh
  exact Option.isNone_eq_false_iff.mp fresh

theorem entry_cached (snapshot : Snapshot) (entry : U64 × CgroupAttrs)
    (member : entry ∈ snapshot.attrs.entries) : entryAttrs (snapshot.cache entry.1) = entry.2 := by
  have found := (snapshot.attrs.find_iff entry.1 entry.2).mpr member
  rw [snapshot.taken] at found
  rw [entryAttrs, found]
  rfl

end Snapshot

/-- The snapshot of the cache that has pod `b` only. -/
def podSnapshot : Snapshot where
  cache := podCache
  attrs := { entries := [(7, containerAttrs podB)], distinct := List.nodup_singleton _ }
  taken := by
    intro id
    rw [AttrsSnapshot.find, List.lookup_cons, List.lookup_nil, podCache]
    by_cases pod : id = 7
    · rw [pod]
      rfl
    · rw [if_neg pod, beq_eq_false_iff_ne.mpr pod]
      rfl

/-! ## One step of the table, as steps of the pipeline -/

section Refinement

variable {slot : U64 ↪ Nat} (set : FilterSet) (verify : Bool)
variable (allowed : PipelineState → PipelineStep → Prop)

/-- The pipeline can take steps from the view of one state to that of the other. -/
def Simulated (s later : TableState slot) : Prop :=
  ∃ steps, Along (pipelineStep set verify) allowed s.view steps ∧
    run (pipelineStep set verify) s.view steps = later.view

theorem simulated_still (s later : TableState slot) (same : s.view = later.view) :
    Simulated set verify allowed s later := ⟨[], trivial, same⟩

theorem simulated_one (s later : TableState slot) (step : PipelineStep)
    (permitted : allowed s.view step)
    (reached : pipelineStep set verify s.view step = later.view) :
    Simulated set verify allowed s later := ⟨[step], ⟨permitted, trivial⟩, reached⟩

theorem view_pass (s : TableState slot) (pass : TablePass) (current : s.pass = some pass) :
    s.view.pass = some pass.view := by
  rw [TableState.view, current]
  rfl

variable (free : ∀ s step, (∀ cache, step ≠ .replace cache) → allowed s step)

include free

theorem sync_begin_simulated (s : TableState slot) (snapshot : Snapshot)
    (taken : snapshot.cache = s.cache) :
    Simulated set verify allowed s (tableStep set verify s (.syncBegin snapshot)) := by
  apply simulated_one set verify allowed s _ (.syncBegin snapshot.attrs.ids) (free _ _ fun _ other => by cases other)
  rw [tableStep]
  cases current : s.pass with
  | some pass =>
      rw [pipelineStep, view_pass s pass current]
  | none =>
      have idle : s.view.pass = none := by
        rw [TableState.view, current]
        rfl
      have todo : (snapshot.attrs.ids.filter fun id => (s.view.cache id).isSome) =
          (snapshot.attrs.entries.drop 0).map Prod.fst := by
        have cached := snapshot.ids_cached
        rw [taken] at cached
        exact cached
      rw [pipelineStep, idle]
      dsimp only
      rw [todo]
      simp only [TableState.view, Option.map_some, TablePass.view, taken]

theorem update_simulated (s : TableState slot) (snapshot : Snapshot) (position : Nat)
    (updated : Bool) (current : s.pass = some (.updating snapshot position)) :
    Simulated set verify allowed s (syncNext set updated s (.updating snapshot position)) := by
  have pass := view_pass s _ current
  rw [TablePass.view] at pass
  rw [syncNext]
  cases found : snapshot.attrs.entries[position]? with
  | none =>
      -- the first loop has come to its end, which the pipeline does not note
      apply simulated_still
      have past : snapshot.attrs.entries.drop position = [] := by
        apply List.drop_eq_nil_of_le
        exact List.getElem?_eq_none_iff.mp found
      simp only [TableState.view, current, Option.map_some, TablePass.view, past, List.map_nil]
  | some entry =>
      rcases List.getElem?_eq_some_iff.mp found with ⟨inside, here⟩
      have member : entry ∈ snapshot.attrs.entries := List.mem_of_getElem? found
      rw [List.drop_eq_getElem_cons inside, here, List.map_cons] at pass
      apply simulated_one set verify allowed s _ (.syncUpdate updated) (free _ _ fun _ other => by cases other)
      rw [pipelineStep, pass]
      dsimp only
      cases updated with
      | false => rfl
      | true =>
          rw [snapshot.entry_cached entry member]
          simp only [TableState.view, insert_lookup, Option.map_some, TablePass.view, if_true]

theorem walk_simulated (s : TableState slot) (snapshot : Snapshot) (cursor : Option U64)
    (steps : Nat) (updated : Bool) (current : s.pass = some (.walking snapshot cursor steps)) :
    Simulated set verify allowed s (syncNext set updated s (.walking snapshot cursor steps)) := by
  have pass := view_pass s _ current
  rw [TablePass.view] at pass
  have ends : Simulated set verify allowed s { s with pass := none } := by
    apply simulated_one set verify allowed s _ .syncEnd (free _ _ fun _ other => by cases other)
    rw [pipelineStep, pass]
    rfl
  cases steps with
  | zero => exact ends
  | succ steps =>
      rw [syncNext]
      cases met : s.table.next cursor with
      | none => exact ends
      | some key =>
          apply simulated_one set verify allowed s _ (.syncDelete key) (free _ _ fun _ other => by cases other)
          rw [pipelineStep, pass]
          dsimp only
          rw [← snapshot.stale_cache]
          by_cases stale : snapshot.attrs.stale key = true
          · rw [if_pos stale, if_pos stale]
            simp only [TableState.view, erase_lookup, Option.map_some, TablePass.view, current]
          · rw [if_neg stale, if_neg stale]
            simp only [TableState.view, Option.map_some, TablePass.view, current]

theorem submit_simulated (s : TableState slot) (call : Call) (sub : Submission) :
    Simulated set verify allowed s (tableStep set verify s (.submit call sub)) := by
  apply simulated_one set verify allowed s _ (.submit call sub) (free _ _ fun _ other => by cases other)
  rw [tableStep, pipelineStep]
  split_ifs
  · rw [submitStep]
    cases submitConnEvt { call with maps := kernelMaps set s.view.verdicts } sub with
    | filtered =>
        dsimp only
        split_ifs
        · rfl
        · rfl
    | noRoom => rfl
    | emitted record => rfl
  · rfl

theorem read_simulated (s : TableState slot) :
    Simulated set verify allowed s (tableStep set verify s .read) := by
  apply simulated_one set verify allowed s _ .read (free _ _ fun _ other => by cases other)
  rw [tableStep, pipelineStep]
  split
  · split_ifs
    · rfl
    · rfl
  · rfl

theorem finish_simulated (s : TableState slot) (updated : Bool) :
    Simulated set verify allowed s (tableStep set verify s (.finish updated)) := by
  apply simulated_one set verify allowed s _ (.finish updated) (free _ _ fun _ other => by cases other)
  have reader : s.view.reader = s.reader := rfl
  rw [tableStep, pipelineStep, reader]
  cases s.reader with
  | none => rfl
  | some taken =>
      rcases taken with ⟨record, info⟩
      change finishStep set s.view updated record info = (tableFinish set updated s record info).view
      rw [finishStep, tableFinish]
      cases (resolveFilter set record (sourceAttrs (lookupResult info))).mask with
      | none => rfl
      | some mask =>
          cases updated with
          | false => rfl
          | true =>
              dsimp only [TableState.view]
              rw [if_pos rfl, if_pos rfl, insert_lookup]

theorem table_step_simulated (s : TableState slot) (step : TableStep)
    (permitted : TableAllowed allowed s step) : Simulated set verify allowed s (tableStep set verify s step) := by
  cases step with
  | replace cache => exact simulated_one set verify allowed s _ (.replace cache) permitted rfl
  | syncBegin snapshot => exact sync_begin_simulated set verify allowed free s snapshot permitted
  | syncNext updated =>
      rw [tableStep]
      cases current : s.pass with
      | none => exact simulated_still set verify allowed s s rfl
      | some pass =>
          cases pass with
          | updating snapshot position =>
              exact update_simulated set verify allowed free s snapshot position updated current
          | walking snapshot cursor steps =>
              exact walk_simulated set verify allowed free s snapshot cursor steps updated current
  | evict key =>
      apply simulated_one set verify allowed s _ (.evict key) (free _ _ fun _ other => by cases other)
      simp only [pipelineStep, tableStep, TableState.view, erase_lookup]
  | submit call sub => exact submit_simulated set verify allowed free s call sub
  | read => exact read_simulated set verify allowed free s
  | finish updated => exact finish_simulated set verify allowed free s updated

end Refinement

/-! ## Whole runs -/

section Runs

variable (slot : U64 ↪ Nat) (set : FilterSet) (verify : Bool)

theorem start_view (cache : Cache) : (TableState.start slot cache).view = PipelineState.start cache :=
  rfl

/-- Whatever the hash order, however the loops of `syncOnce` mix with the reader, with
evictions and with the kernel, and even when a walk gives up: what the kernel and
the reader see is a run of the pipeline. -/
theorem table_runs_refine (cache : Cache) (steps : List TableStep)
    (taken : Along (tableStep set verify) (TableAllowed fun _ _ => True)
      (TableState.start slot cache) steps) :
    ∃ coarse, run (pipelineStep set verify) (PipelineState.start cache) coarse =
      (run (tableStep set verify) (TableState.start slot cache) steps).view := by
  rcases simulated_run (tableStep set verify) (pipelineStep set verify) TableState.view
      (TableAllowed fun _ _ => True) (fun _ _ => True)
      (table_step_simulated set verify (fun _ _ => True) fun _ _ _ => trivial)
      (TableState.start slot cache) steps taken with ⟨coarse, _, reached⟩
  exact ⟨coarse, reached⟩

/-- A socket of cgroup 7. -/
def podCall : Call where
  skaddr := 1
  sk := { cgroup := some 7 }
  task := {}
  now := 0
  submitNow := 0
  maps := { cfg := none, prog := none, verdicts := fun _ => none }
  reserved := true

def podClose : Submission where
  skaddr := 1
  cctx := { cgroupID := 7, startTS := 0, pid := 0, comm := fun _ => 0, lastProbeNS := 0 }
  type := evtConnClosed
  endpoints :=
    { family := KernelCidr.afInet, sport := 0, dport := 0,
      addrs := { localIP := fun _ => 0, remoteIP := fun _ => 0 } }
  admitted := 0

/-- The verdict of pod `b` is stored, then an event of it comes between the two loops,
then the walk passes the key. -/
def decidedDuringSync : List TableStep :=
  [.syncBegin podSnapshot, .syncNext true, .submit podCall podClose, .syncNext true, .syncNext true,
    .read, .finish true, .syncNext true]

theorem decided_during_sync_refines :
    ∃ coarse, run (pipelineStep hostPodSet true) (PipelineState.start podCache) coarse =
      (run (tableStep hostPodSet true) (TableState.start numberSlot podCache)
        decidedDuringSync).view :=
  table_runs_refine numberSlot hostPodSet true podCache decidedDuringSync
    ⟨rfl, trivial, trivial, trivial, trivial, trivial, trivial, trivial, trivial⟩

theorem stable_unless_replaced (s : PipelineState) (step : PipelineStep)
    (other : ∀ cache, step ≠ .replace cache) : StableStep set s step := by
  cases step with
  | replace cache => exact absurd rfl (other cache)
  | syncBegin _ | syncUpdate _ | syncDelete _ | syncEnd | evict _ | submit _ _ | read | finish _ =>
      trivial

variable (cel : Cel) (lawful : cel.Lawful) (cfg : List Config)
variable (accepted : compile cel cfg = .ok set) (language : ∀ e ∈ set.asts, EqualityTests e)
variable (fits : set.flat.length ≤ maxPreds)

include lawful accepted language fits

/-- Stale keys that a walk leaves behind do no harm while the masks stay: no
verification fails and no event is dropped that the filters match. -/
theorem table_decisions_verified (cache : Cache) (steps : List TableStep)
    (stable : Along (tableStep set verify) (TableAllowed (StableStep set))
      (TableState.start slot cache) steps) :
    (run (tableStep set verify) (TableState.start slot cache) steps).verifyMismatches = 0 ∧
      (run (tableStep set verify) (TableState.start slot cache) steps).lostMatches = 0 := by
  rcases simulated_run (tableStep set verify) (pipelineStep set verify) TableState.view
      (TableAllowed (StableStep set)) (StableStep set)
      (table_step_simulated set verify (StableStep set) (stable_unless_replaced set))
      (TableState.start slot cache) steps stable with ⟨coarse, along, reached⟩
  have initial : Consistent set (PipelineState.start cache) :=
    ⟨by simp [PipelineState.start], by simp [PipelineState.start], by simp [PipelineState.start],
      by simp [PipelineState.start], rfl, rfl⟩
  rw [start_view] at along reached
  have final := invariant_along (pipelineStep set verify) (StableStep set) (Consistent set)
    (pipeline_step_consistent set cel lawful cfg accepted language fits verify)
    (PipelineState.start cache) initial coarse along
  rw [reached] at final
  exact ⟨final.verified, final.kept⟩

omit lawful accepted language fits

/-- The kernel decides the event while the loops run, and the reader verifies it. -/
theorem decided_during_sync_verified :
    (run (tableStep hostPodSet true) (TableState.start numberSlot podCache)
        (decidedDuringSync.take 3)).ring.map ConnEvent.filterIdx = [0] ∧
      (run (tableStep hostPodSet true) (TableState.start numberSlot podCache)
        decidedDuringSync).verifyMismatches = 0 := by
  refine ⟨by decide +kernel, (table_decisions_verified numberSlot hostPodSet true hostPodCel
    (ReferenceCel.reference_lawful _) hostPodFilters rfl ?_ (by decide) podCache decidedDuringSync
    ?_).1⟩
  · simp [hostPodSet, host_pod_equality_tests]
  · exact ⟨rfl, trivial, trivial, trivial, trivial, trivial, trivial, trivial, trivial⟩

end Runs

/-! ## A `syncOnce` that nothing interrupts -/

section Uninterrupted

variable {slot : U64 ↪ Nat} (set : FilterSet) (verify : Bool)

theorem no_pass_still (s : TableState slot) (idle : s.pass = none) (answers : List Bool) :
    run (tableStep set verify) s (answers.map .syncNext) = s := by
  induction answers with
  | nil => rfl
  | cons answer rest induction =>
      have still : tableStep set verify s (.syncNext answer) = s := by
        rw [tableStep, idle]
      rw [List.map_cons, run_cons, still]
      exact induction

theorem updates_uninterrupted (accepts : U64 → Bool) (snapshot : Snapshot)
    (rest before : List (U64 × CgroupAttrs)) (split : snapshot.attrs.entries = before ++ rest)
    (s : TableState slot) (current : s.pass = some (.updating snapshot before.length)) :
    run (tableStep set verify) s ((rest.map fun entry => accepts entry.1).map .syncNext) =
      { s with
        table := (updateVerdicts set accepts rest s.table).1
        pass :=
          if (updateVerdicts set accepts rest s.table).2 then
            some (.updating snapshot snapshot.attrs.entries.length)
          else none } := by
  induction rest generalizing before s with
  | nil =>
      rw [List.append_nil] at split
      rw [List.map_nil, List.map_nil, run_nil, updateVerdicts, split, if_pos rfl, ← current]
  | cons entry rest induction =>
      have here : snapshot.attrs.entries[before.length]? = some entry := by
        rw [split, List.getElem?_append_right (Nat.le_refl _), Nat.sub_self]
        rfl
      rw [List.map_cons, List.map_cons, run_cons, tableStep, current]
      dsimp only
      rw [syncNext, here, updateVerdicts]
      dsimp only
      by_cases succeeds : accepts entry.1 = true
      · rw [if_pos succeeds, if_pos succeeds]
        apply induction (before ++ [entry])
        · rw [split, List.append_assoc]
          rfl
        · rw [List.length_append, List.length_singleton]
      · rw [if_neg succeeds, if_neg succeeds, no_pass_still set verify _ rfl]
        rfl

theorem walk_uninterrupted (snapshot : Snapshot) (steps : Nat) (cursor : Option U64)
    (s : TableState slot) (current : s.pass = some (.walking snapshot cursor steps)) :
    run (tableStep set verify) s ((List.replicate (steps + 1) true).map .syncNext) =
      { s with table := s.table.walk snapshot.attrs.stale steps cursor, pass := none } := by
  induction steps generalizing cursor s with
  | zero =>
      rw [List.replicate_succ, List.map_cons, run_cons, tableStep, current]
      rfl
  | succ steps induction =>
      rw [List.replicate_succ, List.map_cons, run_cons, tableStep, current]
      dsimp only
      rw [syncNext, Table.walk]
      cases s.table.next cursor with
      | none =>
          dsimp only
          rw [no_pass_still set verify _ rfl]
      | some key =>
          dsimp only
          rw [induction (some key) _ rfl]

/-- The iterations of one `syncOnce`, with what the updates answer. -/
def uninterrupted (accepts : U64 → Bool) (snapshot : Snapshot) : List TableStep :=
  .syncBegin snapshot ::
    ((snapshot.attrs.entries.map fun entry => accepts entry.1) ++
      List.replicate (maxEntries + 3) true).map .syncNext

/-- Taken one after the other, the iterations do to the table what `syncOnce` does,
and to nothing else anything. -/
theorem sync_once_uninterrupted (accepts : U64 → Bool) (snapshot : Snapshot)
    (s : TableState slot) (idle : s.pass = none) :
    syncOnce set accepts (some snapshot.attrs) (some s.table) =
        some (run (tableStep set verify) s (uninterrupted accepts snapshot)).table ∧
      run (tableStep set verify) s (uninterrupted accepts snapshot) =
        { s with table := (run (tableStep set verify) s (uninterrupted accepts snapshot)).table } := by
  have begun : tableStep set verify s (.syncBegin snapshot) =
      { s with pass := some (.updating snapshot 0) } := by
    rw [tableStep, idle]
  have updates := updates_uninterrupted set verify accepts snapshot snapshot.attrs.entries [] rfl
    { s with pass := some (.updating snapshot 0) } rfl
  rw [uninterrupted, run_cons, begun, List.map_append, run_append, updates, syncOnce]
  dsimp only
  cases outcome : updateVerdicts set accepts snapshot.attrs.entries s.table with
  | mk table finished =>
      cases finished with
      | false =>
          dsimp only
          rw [if_neg (by decide), no_pass_still set verify _ rfl]
          constructor
          · rfl
          · rw [← idle]
      | true =>
          dsimp only
          rw [if_pos rfl, List.replicate_succ, List.map_cons, run_cons]
          have turned : tableStep set verify
              { s with
                table := table
                pass := some (.updating snapshot snapshot.attrs.entries.length) } (.syncNext true) =
              { s with
                table := table
                pass := some (.walking snapshot none (maxEntries + 1)) } := by
            rw [tableStep]
            dsimp only
            rw [syncNext, List.getElem?_eq_none (Nat.le_refl _)]
          rw [turned, walk_uninterrupted set verify snapshot (maxEntries + 1) none _ rfl]
          constructor
          · rfl
          · rw [← idle]

theorem pod_snapshot_synced :
    syncOnce hostPodSet (fun _ => true) (some podSnapshot.attrs) (some Table.empty) =
      some (run (tableStep hostPodSet true) (TableState.start numberSlot podCache)
        (uninterrupted (fun _ => true) podSnapshot)).table :=
  (sync_once_uninterrupted hostPodSet true (fun _ => true) podSnapshot
    (TableState.start numberSlot podCache) rfl).1

end Uninterrupted

end KoAgent.VerdictTable
