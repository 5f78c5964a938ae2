import KoAgent.ConnectAttempts

/-!
# SYN retries

A SYN retry re-enters SYN_SENT from SYN_SENT. The guard of the capture keeps the
retry from replacing the captured task, but nothing ends the handler there: the
pair of states then falls through to the branch of a failed attempt. A retry is
harmless exactly when that branch is not reached.
-/

namespace KoAgent.SynRetries

open KoAgent.FilterModel KoAgent.KernelCidr KoAgent.KernelFilter KoAgent.SocketHandlers
open KoAgent.EventDiscipline KoAgent.ConnectAttempts KoAgent.StepRuns

set_option autoImplicit false

def transitionStep (s : KoState) (t : Transition) : KoState := handlerStep s t.step

def synRetry (t : Transition) : Bool := t.oldstate = .synSent && t.newstate = .synSent

/-- All of the state but the clock: the map, the ring, the counters and the log. -/
def timeless (s : KoState) : KoState := { s with clock := 0 }

/-- Every retry of the run keeps the map and emits nothing, and what the run
emits is what it emits without them. -/
structure RetriesHarmless (s : KoState) (ts : List Transition) : Prop where
  each : Along transitionStep
    (fun s t => synRetry t = true → timeless (transitionStep s t) = timeless s) s ts
  events : timeless (run transitionStep s ts) =
    timeless (run transitionStep s (ts.filter fun t => !synRetry t))

/-- The socket is one the handler follows: TCP, readable and with a captured entry. -/
structure Followed (s : KoState) (call : Call) : Prop where
  protocol : call.sk.protocol = ipprotoTCP
  readable : (sockReadEndpoints call.sk).isSome
  entry : (s.sockCtx call.skaddr).isSome

theorem finish_call_timeless (s : KoState) (call : Call) (result : SockMap × Option Submission) :
    timeless (finishCall s call result) = timeless (finishCall (timeless s) call result) := by
  rcases result with ⟨m, _ | sub⟩
  · rfl
  · unfold finishCall
    dsimp only
    cases submitConnEvt call sub <;> rfl

theorem note_capture_timeless (s : KoState) (call : Call) (oldstate newstate : TcpState) :
    timeless (noteCapture s call oldstate newstate) =
      noteCapture (timeless s) call oldstate newstate := by
  unfold noteCapture
  split_ifs <;> rfl

/-- The handler does not read the clock of the state. -/
theorem transition_step_timeless (s : KoState) (t : Transition) :
    timeless (transitionStep s t) = timeless (transitionStep (timeless s) t) := by
  simp only [transitionStep, Transition.step, handlerStep, note_capture_timeless]
  rw [finish_call_timeless]
  rfl

theorem transition_step_determined (left right : KoState) (t : Transition)
    (same : timeless left = timeless right) :
    timeless (transitionStep left t) = timeless (transitionStep right t) := by
  rw [transition_step_timeless left, same, ← transition_step_timeless right]

theorem retry_not_captured (s : KoState) (call : Call) :
    noteCapture s call .synSent .synSent = s := by
  have never : captures call .synSent .synSent = false := by simp [captures]
  rw [noteCapture, never, if_neg Bool.false_ne_true]

/-- A retry on a socket that is not followed returns before the failed branch. -/
theorem retry_unfollowed (s : KoState) (t : Transition) (retry : synRetry t = true)
    (unfollowed : ¬Followed s t.call) : timeless (transitionStep s t) = timeless s := by
  obtain ⟨call, oldstate, newstate⟩ := t
  simp only [synRetry, Bool.and_eq_true, decide_eq_true_eq] at retry
  obtain ⟨rfl, rfl⟩ := retry
  have result : koSockState call .synSent .synSent s.sockCtx = (s.sockCtx, none) := by
    unfold koSockState
    by_cases protocol : call.sk.protocol = ipprotoTCP
    · rw [if_neg (not_not.mpr protocol)]
      cases readable : sockReadEndpoints call.sk with
      | none => rfl
      | some endpoints =>
          cases entry : s.sockCtx call.skaddr with
          | none => simp
          | some cctx =>
              refine absurd ⟨protocol, ?_, ?_⟩ unfollowed
              · rw [readable]
                rfl
              · rw [entry]
                rfl
    · rw [if_pos protocol]
  simp only [transitionStep, Transition.step, handlerStep, result, retry_not_captured]
  rfl

/-- A retry on a followed socket deletes its entry. -/
theorem retry_followed (s : KoState) (t : Transition) (retry : synRetry t = true)
    (followed : Followed s t.call) : (transitionStep s t).sockCtx t.call.skaddr = none := by
  obtain ⟨call, oldstate, newstate⟩ := t
  simp only [synRetry, Bool.and_eq_true, decide_eq_true_eq] at retry
  obtain ⟨rfl, rfl⟩ := retry
  obtain ⟨endpoints, readable⟩ := Option.isSome_iff_exists.mp followed.readable
  obtain ⟨cctx, entry⟩ := Option.isSome_iff_exists.mp followed.entry
  have result : koSockState call .synSent .synSent s.sockCtx =
      (s.sockCtx.set call.skaddr none, some (submission call cctx evtConnFailed endpoints)) := by
    unfold koSockState
    rw [if_neg (not_not.mpr followed.protocol), readable]
    simp [entry]
  simp only [transitionStep, Transition.step, handlerStep, result, retry_not_captured]
  rw [(finish_call_fields s call _).1]
  exact map_set_same _ _ _

theorem retry_harmless_iff (s : KoState) (t : Transition) (retry : synRetry t = true) :
    timeless (transitionStep s t) = timeless s ↔ ¬Followed s t.call := by
  constructor
  · intro same followed
    have kept : (timeless (transitionStep s t)).sockCtx = s.sockCtx := by rw [same]; rfl
    have entry := followed.entry
    rw [← kept] at entry
    have deleted : (timeless (transitionStep s t)).sockCtx t.call.skaddr = none :=
      retry_followed s t retry followed
    rw [deleted] at entry
    cases entry
  · exact retry_unfollowed s t retry

/-- A run is the same with its retries and without them exactly when no retry
meets a followed socket. -/
theorem syn_retries_harmless_iff (s : KoState) (ts : List Transition) :
    RetriesHarmless s ts ↔
      Along transitionStep (fun s t => synRetry t = true → ¬Followed s t.call) s ts := by
  have steps := along_congr transitionStep
    (fun s t => synRetry t = true → timeless (transitionStep s t) = timeless s)
    (fun s t => synRetry t = true → ¬Followed s t.call)
    (fun s t => forall_congr' (retry_harmless_iff s t)) s ts
  constructor
  · intro harmless
    exact steps.mp harmless.each
  · intro unfollowed
    have each := steps.mpr unfollowed
    exact ⟨each, run_without_quiet transitionStep timeless synRetry transition_step_determined s s
      rfl ts each⟩

/-- One retry turns an attempt that succeeds into a failed one, and its close goes
unreported. -/
theorem syn_retry_reported_failed :
    ringTypes (run transitionStep (KoState.start 0)
        [transition .close .synSent, transition .synSent .synSent,
          transition .synSent .established, transition .established .close]) = [evtConnFailed] ∧
      ringTypes (run transitionStep (KoState.start 0)
        [transition .close .synSent, transition .synSent .established,
          transition .established .close]) = [evtConnClosed] ∧
      ¬RetriesHarmless (KoState.start 0)
        [transition .close .synSent, transition .synSent .synSent,
          transition .synSent .established, transition .established .close] := by
  refine ⟨by decide, by decide, ?_⟩
  intro harmless
  have rings := congrArg (fun s => s.ring.map ConnEvent.type) harmless.events
  exact absurd rings (by decide)

/-- A followed socket connects and closes while another one, whose attempt began before
the handlers were attached, retries. -/
def retryBesides : List Transition :=
  [transition .close .synSent,
    { transition .synSent .synSent with call := { plainCall 0 with skaddr := 2 } },
    transition .synSent .established, transition .established .close]

theorem syn_retries_harmless_besides :
    ringTypes (run transitionStep (KoState.start 0) retryBesides) = [evtConnClosed] ∧
      RetriesHarmless (KoState.start 0) retryBesides := by
  refine ⟨by decide, (syn_retries_harmless_iff _ _).mpr ?_⟩
  refine ⟨?_, ?_, ?_, ?_, trivial⟩
  · intro retry
    exact absurd retry (by decide)
  · intro _ followed
    exact absurd followed.entry (by decide)
  · intro retry
    exact absurd retry (by decide)
  · intro retry
    exact absurd retry (by decide)

end KoAgent.SynRetries
