import KoAgent.EventDiscipline

/-!
# Lifecycle events of connect attempts

An attempt begins with a transition into SYN_SENT and ends when it leaves
ESTABLISHED, when it leaves the handshake without reaching ESTABLISHED, or when
the socket connects again. `Attempt` is that history as a state machine, with
the lifecycle event each transition owes. The handler only knows whether the
socket has a map entry; `trackStep` is what it does with that, and the two
machines are compared along the client's state graph.
-/

namespace KoAgent.ConnectAttempts

open KoAgent.FilterModel KoAgent.KernelCidr KoAgent.KernelFilter KoAgent.SocketHandlers
open KoAgent.EventDiscipline KoAgent.StepRuns

set_option autoImplicit false

/-- The state transitions of a TCP client, without self-transitions: into SYN_SENT
from everywhere, through the handshake, out of ESTABLISHED, and among the states
behind it. -/
inductive ClientEdge : TcpState → TcpState → Prop
  | connect (old : TcpState) (other : old ≠ .synSent) : ClientEdge old .synSent
  | opened : ClientEdge .synSent .established
  | crossed : ClientEdge .synSent .synRecv
  | refused : ClientEdge .synSent .close
  | acknowledged : ClientEdge .synRecv .established
  | closedEarly : ClientEdge .synRecv .finWait1
  | abortedEarly : ClientEdge .synRecv .close
  | closeLocal : ClientEdge .established .finWait1
  | closeRemote : ClientEdge .established .closeWait
  | aborted : ClientEdge .established .close
  | closing (old new : TcpState) (different : old ≠ new)
      (behind : old ≠ .synSent ∧ old ≠ .synRecv ∧ old ≠ .established)
      (stays : new ≠ .synSent ∧ new ≠ .synRecv ∧ new ≠ .established) : ClientEdge old new

structure Transition where
  call : Call
  oldstate : TcpState
  newstate : TcpState

def Transition.step (t : Transition) : HandlerStep := .sockState t.call t.oldstate t.newstate

/-- Each transition starts in the state the one before it reached. -/
def Chained : TcpState → List Transition → Prop
  | _, [] => True
  | state, t :: rest =>
      t.oldstate = state ∧ ClientEdge t.oldstate t.newstate ∧ Chained t.newstate rest

/-- A call for the socket with filtering off, readable endpoints and room in the ring buffer. -/
structure Clean (skaddr : U64) (call : Call) : Prop where
  socket : call.skaddr = skaddr
  protocol : call.sk.protocol = ipprotoTCP
  readable : (sockReadEndpoints call.sk).isSome
  unfiltered : call.maps.cfg = none ∨ call.maps.cfg = some 0
  room : call.reserved = true

inductive Attempt where
  | idle
  | connecting
  | connected
  deriving DecidableEq

/-- The lifecycle events owed when the socket connects again. -/
def Attempt.abandoned : Attempt → List EventType
  | .idle => []
  | .connecting => [evtConnFailed]
  | .connected => [evtConnClosed]

/-- The history of attempts and the lifecycle events a transition owes. -/
def attemptStep (attempt : Attempt) (oldstate newstate : TcpState) : Attempt × List EventType :=
  if newstate = .synSent ∧ oldstate ≠ .synSent then (.connecting, attempt.abandoned)
  else
    match attempt with
    | .idle => (.idle, [])
    | .connecting =>
        if newstate = .established then (.connected, [])
        else if newstate = .synSent ∨ newstate = .synRecv then (.connecting, [])
        else (.idle, [evtConnFailed])
    | .connected => if oldstate = .established then (.idle, [evtConnClosed]) else (.connected, [])

def expected : Attempt → List Transition → List EventType
  | _, [] => []
  | attempt, t :: rest =>
      (attemptStep attempt t.oldstate t.newstate).2 ++
        expected (attemptStep attempt t.oldstate t.newstate).1 rest

/-- What `ko_sock_state` does with the presence of the map entry. -/
def trackStep (tracked : Bool) (oldstate newstate : TcpState) : Bool × List EventType :=
  if newstate = .synSent ∧ oldstate ≠ .synSent then (true, [])
  else if !tracked then (false, [])
  else if oldstate = .established then (false, [evtConnClosed])
  else if oldstate ≠ .synSent then (true, [])
  else if newstate = .established then (true, [])
  else (false, [evtConnFailed])

def ringTypes (s : KoState) : List EventType := s.ring.map ConnEvent.type

theorem clean_submission (skaddr : U64) (call : Call) (clean : Clean skaddr call) (s : KoState)
    (m : SockMap) (sub : Submission) :
    ringTypes (finishCall s call (m, some sub)) = ringTypes s ++ [sub.type] ∧
      (finishCall s call (m, some sub)).sockCtx = m := by
  have open_ : koFilterEval call.maps (filterEvent call sub) = filterUnfiltered := by
    rcases clean.unfiltered with off | off
    · rw [koFilterEval, off]
    · rw [koFilterEval, off]
      rfl
  have emitted : submitConnEvt call sub = .emitted (connEvent call sub filterUnfiltered) := by
    simp only [submitConnEvt, open_, clean.room, if_true]
    rfl
  simp only [finishCall, emitted]
  exact ⟨by simp [ringTypes, connEvent], trivial⟩

/-- The handler refines `trackStep`: it depends on the entry's presence only. -/
theorem clean_step (skaddr : U64) (call : Call) (clean : Clean skaddr call) (s : KoState)
    (oldstate newstate : TcpState) :
    ((handlerStep s (.sockState call oldstate newstate)).sockCtx skaddr).isSome =
        (trackStep (s.sockCtx skaddr).isSome oldstate newstate).1 ∧
      ringTypes (handlerStep s (.sockState call oldstate newstate)) =
        ringTypes s ++ (trackStep (s.sockCtx skaddr).isSome oldstate newstate).2 := by
  obtain ⟨endpoints, found⟩ := Option.isSome_iff_exists.mp clean.readable
  have noted : ∀ state : KoState,
      (noteCapture state call oldstate newstate).sockCtx = state.sockCtx ∧
        ringTypes (noteCapture state call oldstate newstate) = ringTypes state := by
    intro state
    unfold noteCapture
    split_ifs <;> exact ⟨rfl, rfl⟩
  obtain ⟨keepsMap, keepsRing⟩ :=
    noted (finishCall s call (koSockState call oldstate newstate s.sockCtx))
  rw [handlerStep, keepsMap, keepsRing]
  have socket := clean.socket
  subst socket
  unfold koSockState trackStep
  rw [if_neg (not_not.mpr clean.protocol), found]
  dsimp only
  by_cases capture : newstate = .synSent ∧ oldstate ≠ .synSent
  · rw [if_pos capture, if_pos capture]
    simp [finishCall, map_set_same, ringTypes]
  · rw [if_neg capture, if_neg capture]
    cases entry : s.sockCtx call.skaddr with
    | none => simp [finishCall, entry, ringTypes]
    | some cctx =>
        have ended : ∀ type, ((finishCall s call (s.sockCtx.set call.skaddr none,
            some (submission call cctx type endpoints))).sockCtx call.skaddr).isSome = false ∧
            ringTypes (finishCall s call (s.sockCtx.set call.skaddr none,
              some (submission call cctx type endpoints))) = ringTypes s ++ [type] := by
          intro type
          obtain ⟨ring, map⟩ := clean_submission call.skaddr call clean s
            (s.sockCtx.set call.skaddr none) (submission call cctx type endpoints)
          exact ⟨by rw [map, map_set_same]; rfl, ring⟩
        dsimp only
        by_cases left : oldstate = .established
        · rw [if_pos left, if_pos left]
          simpa using ended evtConnClosed
        · rw [if_neg left, if_neg left]
          by_cases connecting : oldstate = .synSent
          · rw [if_neg (not_not.mpr connecting), if_neg (not_not.mpr connecting)]
            by_cases arrived : newstate = .established
            · rw [if_pos arrived, if_pos arrived]
              simp [finishCall, entry, ringTypes]
            · rw [if_neg arrived, if_neg arrived]
              simpa using ended evtConnFailed
          · rw [if_pos connecting, if_pos connecting]
            simp [finishCall, entry, ringTypes]

/-- The transitions the handler misreads: a simultaneous open, and a connect
straight out of ESTABLISHED. -/
def Misread (oldstate newstate : TcpState) : Prop :=
  (oldstate = .synSent ∧ newstate = .synRecv) ∨ (oldstate = .established ∧ newstate = .synSent)

/-- The map entry and the history fit the state of the socket. -/
def Synced (state : TcpState) (tracked : Bool) (attempt : Attempt) : Prop :=
  match state with
  | .synSent => tracked = true ∧ attempt = .connecting
  | .established => tracked = true ∧ attempt = .connected
  | .synRecv => False
  | _ => tracked = false ∧ attempt = .idle

theorem synced_behind (state : TcpState)
    (behind : state ≠ .synSent ∧ state ≠ .synRecv ∧ state ≠ .established) (tracked : Bool)
    (attempt : Attempt) : Synced state tracked attempt ↔ tracked = false ∧ attempt = .idle := by
  obtain ⟨notSent, notRecv, notEstablished⟩ := behind
  cases state with
  | synSent => exact absurd rfl notSent
  | synRecv => exact absurd rfl notRecv
  | established => exact absurd rfl notEstablished
  | _ => rfl

theorem synced_step (oldstate newstate : TcpState) (tracked : Bool) (attempt : Attempt)
    (synced : Synced oldstate tracked attempt) (edge : ClientEdge oldstate newstate)
    (readable : ¬Misread oldstate newstate) :
    Synced newstate (trackStep tracked oldstate newstate).1
        (attemptStep attempt oldstate newstate).1 ∧
      (trackStep tracked oldstate newstate).2 = (attemptStep attempt oldstate newstate).2 := by
  cases edge with
  | connect old other =>
      have capture : TcpState.synSent = .synSent ∧ oldstate ≠ .synSent := ⟨rfl, other⟩
      unfold trackStep attemptStep
      rw [if_pos capture, if_pos capture]
      refine ⟨⟨rfl, rfl⟩, ?_⟩
      have idle : attempt = .idle := by
        cases oldstate with
        | synSent => exact absurd rfl other
        | synRecv => exact absurd synced id
        | established => exact absurd (Or.inr ⟨rfl, rfl⟩) readable
        | _ => exact synced.2
      rw [idle]
      rfl
  | opened =>
      obtain ⟨rfl, rfl⟩ := synced
      exact ⟨⟨rfl, rfl⟩, rfl⟩
  | crossed => exact absurd (Or.inl ⟨rfl, rfl⟩) readable
  | refused =>
      obtain ⟨rfl, rfl⟩ := synced
      exact ⟨⟨rfl, rfl⟩, rfl⟩
  | acknowledged | closedEarly | abortedEarly => exact absurd synced id
  | closeLocal | closeRemote | aborted =>
      obtain ⟨rfl, rfl⟩ := synced
      exact ⟨⟨rfl, rfl⟩, rfl⟩
  | closing old new different behind stays =>
      obtain ⟨rfl, rfl⟩ := (synced_behind oldstate behind tracked attempt).mp synced
      have quiet : ¬(newstate = .synSent ∧ oldstate ≠ .synSent) := fun capture => stays.1 capture.1
      unfold trackStep attemptStep
      rw [if_neg quiet, if_neg quiet]
      exact ⟨(synced_behind newstate stays _ _).mpr ⟨rfl, rfl⟩, rfl⟩

theorem misread_step (oldstate newstate : TcpState) (tracked : Bool) (attempt : Attempt)
    (synced : Synced oldstate tracked attempt) (misread : Misread oldstate newstate) :
    (trackStep tracked oldstate newstate).2 ≠ (attemptStep attempt oldstate newstate).2 := by
  rcases misread with ⟨rfl, rfl⟩ | ⟨rfl, rfl⟩
  · obtain ⟨rfl, rfl⟩ := synced
    decide
  · obtain ⟨rfl, rfl⟩ := synced
    decide

def transitionSteps (transitions : List Transition) : List HandlerStep :=
  transitions.map Transition.step

/-- After every number of transitions the ring buffer holds what the history owes. -/
def Classified (s : KoState) (attempt : Attempt) (transitions : List Transition) : Prop :=
  ∀ count, ringTypes (run handlerStep s (transitionSteps (transitions.take count))) =
    ringTypes s ++ expected attempt (transitions.take count)

theorem classified_cons (s : KoState) (attempt : Attempt) (t : Transition) (rest : List Transition)
    (same : ringTypes (handlerStep s t.step) =
      ringTypes s ++ (attemptStep attempt t.oldstate t.newstate).2) :
    Classified s attempt (t :: rest) ↔
      Classified (handlerStep s t.step) (attemptStep attempt t.oldstate t.newstate).1 rest := by
  constructor
  · intro classified count
    have later := classified (count + 1)
    rw [List.take_succ_cons, transitionSteps, List.map_cons, run_cons, expected,
      ← List.append_assoc, ← same] at later
    exact later
  · intro classified count
    cases count with
    | zero => simp [transitionSteps, expected]
    | succ count =>
        rw [List.take_succ_cons, transitionSteps, List.map_cons, run_cons, expected,
          ← List.append_assoc, ← same]
        exact classified count

theorem not_classified_misread (s : KoState) (attempt : Attempt) (t : Transition)
    (rest : List Transition) (events : List EventType)
    (emitted : ringTypes (handlerStep s t.step) = ringTypes s ++ events)
    (differ : events ≠ (attemptStep attempt t.oldstate t.newstate).2) :
    ¬Classified s attempt (t :: rest) := by
  intro classified
  have first := classified 1
  rw [List.take_succ_cons, List.take_zero, transitionSteps, List.map_cons, run_cons, List.map_nil,
    run_nil, emitted, expected, expected, List.append_nil] at first
  exact differ (List.append_cancel_left first)

/-- By induction over the transitions: up to the first misread one the handler
keeps in step with the history, and there it goes wrong. -/
theorem classified_iff (skaddr : U64) (transitions : List Transition) (state : TcpState)
    (chained : Chained state transitions) (clean : ∀ t ∈ transitions, Clean skaddr t.call)
    (s : KoState) (attempt : Attempt)
    (synced : Synced state (s.sockCtx skaddr).isSome attempt) :
    Classified s attempt transitions ↔
      ∀ t ∈ transitions, ¬Misread t.oldstate t.newstate := by
  induction transitions generalizing state s attempt with
  | nil => simp [Classified, transitionSteps, expected]
  | cons t rest induction =>
      obtain ⟨start, edge, chain⟩ := chained
      subst start
      obtain ⟨entry, emitted⟩ := clean_step skaddr t.call (clean t List.mem_cons_self) s
        t.oldstate t.newstate
      by_cases misread : Misread t.oldstate t.newstate
      · have wrong := not_classified_misread s attempt t rest _ emitted
          (misread_step _ _ _ _ synced misread)
        simp [wrong, misread]
      · obtain ⟨next, same⟩ := synced_step _ _ _ _ synced edge misread
        rw [same] at emitted
        rw [← entry] at next
        rw [classified_cons s attempt t rest emitted, List.forall_mem_cons]
        have later : Classified (handlerStep s t.step)
            (attemptStep attempt t.oldstate t.newstate).1 rest ↔
              ∀ other ∈ rest, ¬Misread other.oldstate other.newstate :=
          induction t.newstate chain
            (fun other member => clean other (List.mem_cons_of_mem t member)) _ _ next
        rw [later]
        simp [misread]

/-- A client socket's lifecycle events classify its attempts exactly when, after
the first connect, no transition is misread. -/
theorem lifecycle_events_classify_iff (skaddr : U64) (s : KoState) (first : Transition)
    (rest : List Transition) (connects : first.newstate = .synSent)
    (other : first.oldstate ≠ .synSent) (chained : Chained .synSent rest)
    (clean : ∀ t ∈ first :: rest, Clean skaddr t.call) :
    Classified s .idle (first :: rest) ↔ ∀ t ∈ rest, ¬Misread t.oldstate t.newstate := by
  have capture : first.newstate = .synSent ∧ first.oldstate ≠ .synSent := ⟨connects, other⟩
  obtain ⟨entry, emitted⟩ := clean_step skaddr first.call (clean first List.mem_cons_self) s
    first.oldstate first.newstate
  rw [trackStep, if_pos capture] at entry emitted
  have begun : attemptStep .idle first.oldstate first.newstate = (.connecting, []) := by
    rw [attemptStep, if_pos capture]
    rfl
  rw [classified_cons s .idle first rest (by rw [begun]; exact emitted), begun]
  apply classified_iff skaddr rest .synSent chained
  · intro t member
    exact clean t (List.mem_cons_of_mem first member)
  · exact ⟨entry, rfl⟩

def transition (oldstate newstate : TcpState) : Transition where
  call := plainCall 0
  oldstate := oldstate
  newstate := newstate

theorem plain_call_clean (now : U64) : Clean 1 (plainCall now) :=
  ⟨rfl, rfl, rfl, Or.inl rfl, rfl⟩

theorem lifecycle_events_classify_refused :
    Classified (KoState.start 0) .idle
      [transition .close .synSent, transition .synSent .close] := by
  refine (lifecycle_events_classify_iff 1 (KoState.start 0) (transition .close .synSent)
    [transition .synSent .close] rfl (by decide) ⟨rfl, .refused, trivial⟩ ?_).mpr ?_
  · intro t member
    rcases List.mem_cons.mp member with rfl | later
    · exact plain_call_clean 0
    · rw [List.mem_singleton.mp later]
      exact plain_call_clean 0
  · intro t member
    rw [List.mem_singleton.mp member]
    simp [Misread, transition]

/-- A simultaneous open that reaches ESTABLISHED is reported as a failed attempt. -/
theorem simultaneous_open_reported_failed :
    Chained .synSent [transition .synSent .synRecv, transition .synRecv .established] ∧
      ringTypes (run handlerStep (KoState.start 0) (transitionSteps
        [transition .close .synSent, transition .synSent .synRecv,
          transition .synRecv .established])) = [evtConnFailed] ∧
      ¬Classified (KoState.start 0) .idle
        [transition .close .synSent, transition .synSent .synRecv,
          transition .synRecv .established] := by
  refine ⟨⟨rfl, .crossed, rfl, .acknowledged, trivial⟩, by decide, ?_⟩
  intro classified
  exact absurd (classified 3) (by decide)

end KoAgent.ConnectAttempts
