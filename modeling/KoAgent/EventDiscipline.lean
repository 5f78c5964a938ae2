import KoAgent.SocketHandlers

/-!
# Which events a socket may produce

`epochOf` reads off the log the latest capture of a socket's current incarnation
and what was submitted since. The log is disciplined when every submission
carries that capture, comes before any lifecycle event of it, and, for a probe,
keeps its distance to the probes before it. The invariant ties each map entry to
the epoch of its address; all handlers and evictions preserve it.
-/

namespace KoAgent.EventDiscipline

open KoAgent.FilterModel KoAgent.KernelCidr KoAgent.KernelFilter KoAgent.SocketHandlers
open KoAgent.StepRuns

set_option autoImplicit false

/-- The latest capture since the address was last destroyed, with the submissions
made for the address after it. -/
def epochOf (skaddr : U64) : List LogEntry → Option (Capture × List Submission)
  | [] => none
  | .captured owner capture :: earlier =>
      if owner = skaddr then some (capture, []) else epochOf skaddr earlier
  | .submitted sub :: earlier =>
      if sub.skaddr = skaddr then
        (epochOf skaddr earlier).map fun epoch => (epoch.1, sub :: epoch.2)
      else epochOf skaddr earlier
  | .destroyed owner :: earlier => if owner = skaddr then none else epochOf skaddr earlier

def Lifecycle (type : EventType) : Prop := type = evtConnFailed ∨ type = evtConnClosed

structure SubmissionOk (sub : Submission) (earlier : List LogEntry)
    (events : List Submission) : Prop where
  epoch : epochOf sub.skaddr earlier = some (sub.cctx.capture, events)
  alive : ∀ other ∈ events, ¬Lifecycle other.type
  spaced : sub.type = evtProbe → ∀ other ∈ events, other.type = evtProbe →
    other.admitted.toNat + 100000000 ≤ sub.admitted.toNat

def Disciplined : List LogEntry → Prop
  | [] => True
  | .submitted sub :: earlier => (∃ events, SubmissionOk sub earlier events) ∧ Disciplined earlier
  | .captured _ _ :: earlier => Disciplined earlier
  | .destroyed _ :: earlier => Disciplined earlier

/-- The clock never goes back, between calls and within one. -/
def ClockOk (s : KoState) : HandlerStep → Prop
  | .sockState call _ _ => s.clock ≤ call.now ∧ call.now ≤ call.submitNow
  | .retransmit call => s.clock ≤ call.now ∧ call.now ≤ call.submitNow
  | .probe call => s.clock ≤ call.now ∧ call.now ≤ call.submitNow
  | .destroySock _ => True
  | .evict _ => True

/-- What a call can do to the map and submit. -/
inductive Effect (call : Call) (m : SockMap) : SockMap × Option Submission → Bool → Prop
  | unchanged : Effect call m (m, none) false
  | captured : Effect call m (m.set call.skaddr (some (captureCtx call)), none) true
  | ended (cctx : ConnCtx) (type : EventType) (endpoints : Endpoints)
      (entry : m call.skaddr = some cctx) (lifecycle : Lifecycle type) :
      Effect call m (m.set call.skaddr none, some (submission call cctx type endpoints)) false
  | reported (cctx : ConnCtx) (endpoints : Endpoints) (entry : m call.skaddr = some cctx) :
      Effect call m (m, some (submission call cctx evtRetransmit endpoints)) false
  | sampled (cctx : ConnCtx) (entry : m call.skaddr = some cctx) :
      Effect call m
        (m.set call.skaddr (some { cctx with lastProbeNS := call.now }), none) false
  | probed (cctx : ConnCtx) (endpoints : Endpoints) (entry : m call.skaddr = some cctx)
      (apart : ¬call.now - cctx.lastProbeNS < probeMinIntervalNS) :
      Effect call m
        (m.set call.skaddr (some { cctx with lastProbeNS := call.now }),
          some (submission call { cctx with lastProbeNS := call.now } evtProbe endpoints)) false

theorem captures_iff (call : Call) (oldstate newstate : TcpState) :
    captures call oldstate newstate = true ↔
      call.sk.protocol = ipprotoTCP ∧ (sockReadEndpoints call.sk).isSome ∧
        newstate = .synSent ∧ oldstate ≠ .synSent := by
  simp only [captures, Bool.and_eq_true, decide_eq_true_eq, and_assoc]

theorem sock_state_effect (call : Call) (oldstate newstate : TcpState) (m : SockMap) :
    Effect call m (koSockState call oldstate newstate m) (captures call oldstate newstate) := by
  have condition := captures_iff call oldstate newstate
  unfold koSockState
  by_cases protocol : call.sk.protocol = ipprotoTCP
  · rw [if_neg (not_not.mpr protocol)]
    cases endpoints : sockReadEndpoints call.sk with
    | none =>
        have uncaptured : captures call oldstate newstate = false := by
          simpa [endpoints] using condition
        rw [uncaptured]
        exact .unchanged
    | some found =>
        dsimp only
        by_cases capture : newstate = .synSent ∧ oldstate ≠ .synSent
        · rw [if_pos capture, condition.mpr ⟨protocol, by simp [endpoints], capture⟩]
          exact .captured
        · have uncaptured : captures call oldstate newstate = false := by
            rw [← Bool.not_eq_true, condition]
            exact fun all => capture all.2.2
          rw [if_neg capture, uncaptured]
          cases entry : m call.skaddr with
          | none => exact .unchanged
          | some cctx =>
              dsimp only
              by_cases left : oldstate = .established
              · rw [if_pos left]
                exact .ended cctx evtConnClosed found entry (Or.inr rfl)
              · rw [if_neg left]
                by_cases connecting : oldstate = .synSent
                · rw [if_neg (not_not.mpr connecting)]
                  by_cases arrived : newstate = .established
                  · rw [if_pos arrived]
                    exact .unchanged
                  · rw [if_neg arrived]
                    exact .ended cctx evtConnFailed found entry (Or.inl rfl)
                · rw [if_pos connecting]
                  exact .unchanged
  · have uncaptured : captures call oldstate newstate = false := by
      rw [← Bool.not_eq_true, condition]
      exact fun all => protocol all.1
    rw [if_pos protocol, uncaptured]
    exact .unchanged

theorem retransmit_effect (call : Call) (m : SockMap) :
    Effect call m (koRetransmit call m) false := by
  unfold koRetransmit
  cases entry : m call.skaddr with
  | none => exact .unchanged
  | some cctx =>
      cases sockReadEndpoints call.sk with
      | none => exact .unchanged
      | some endpoints => exact .reported cctx endpoints entry

theorem probe_effect (call : Call) (m : SockMap) : Effect call m (koProbe call m) false := by
  unfold koProbe
  cases entry : m call.skaddr with
  | none => exact .unchanged
  | some cctx =>
      dsimp only
      by_cases early : call.now - cctx.lastProbeNS < probeMinIntervalNS
      · rw [if_pos early]
        exact .unchanged
      · rw [if_neg early]
        cases sockReadEndpoints call.sk with
        | none => exact .sampled cctx entry
        | some endpoints => exact .probed cctx endpoints entry early

/-- A map entry and the epoch of its address. -/
structure EntryTied (log : List LogEntry) (clock : U64) (skaddr : U64) (cctx : ConnCtx)
    (events : List Submission) : Prop where
  epoch : epochOf skaddr log = some (cctx.capture, events)
  alive : ∀ sub ∈ events, ¬Lifecycle sub.type
  probes : ∀ sub ∈ events, sub.type = evtProbe → sub.admitted ≤ cctx.lastProbeNS
  bounded : cctx.lastProbeNS ≤ clock

structure Tied (m : SockMap) (clock : U64) (log : List LogEntry) : Prop where
  entries : ∀ skaddr cctx, m skaddr = some cctx → ∃ events, EntryTied log clock skaddr cctx events
  disciplined : Disciplined log

/-- The state after a call, as far as the discipline is concerned. -/
theorem finish_call_fields (s : KoState) (call : Call) (result : SockMap × Option Submission) :
    (finishCall s call result).sockCtx = result.1 ∧
      (finishCall s call result).clock = call.submitNow ∧
      (finishCall s call result).log = result.2.elim s.log fun sub => .submitted sub :: s.log := by
  obtain ⟨m, sub⟩ := result
  cases sub with
  | none => exact ⟨rfl, rfl, rfl⟩
  | some sub =>
      simp only [finishCall]
      cases submitConnEvt call sub <;> exact ⟨rfl, rfl, rfl⟩

theorem map_set_same (m : SockMap) (skaddr : U64) (entry : Option ConnCtx) :
    m.set skaddr entry skaddr = entry := by
  simp [SockMap.set]

theorem map_set_other (m : SockMap) (skaddr other : U64) (entry : Option ConnCtx)
    (different : other ≠ skaddr) : m.set skaddr entry other = m other := by
  simp [SockMap.set, different]

/-- Writing back the entry that is there changes nothing. -/
theorem map_set_present (m : SockMap) (skaddr : U64) (cctx : ConnCtx)
    (stored : m skaddr = some cctx) : m.set skaddr (some cctx) = m := by
  funext other
  by_cases here : other = skaddr
  · rw [here, map_set_same, stored]
  · rw [map_set_other _ _ _ _ here]

/-- A log entry of another address leaves the epoch of an address alone. -/
def Concerns (skaddr : U64) : LogEntry → Prop
  | .captured owner _ => owner = skaddr
  | .submitted sub => sub.skaddr = skaddr
  | .destroyed owner => owner = skaddr

theorem epoch_of_other (skaddr : U64) (entry : LogEntry) (log : List LogEntry)
    (foreign : ¬Concerns skaddr entry) : epochOf skaddr (entry :: log) = epochOf skaddr log := by
  cases entry with
  | captured owner capture => exact if_neg foreign
  | submitted sub => exact if_neg foreign
  | destroyed owner => exact if_neg foreign

theorem entry_tied_other (log : List LogEntry) (clock later : U64) (skaddr : U64) (cctx : ConnCtx)
    (events : List Submission) (tied : EntryTied log clock skaddr cctx events)
    (order : clock ≤ later) (entry : LogEntry) (foreign : ¬Concerns skaddr entry) :
    EntryTied (entry :: log) later skaddr cctx events where
  epoch := by
    rw [epoch_of_other skaddr entry log foreign]
    exact tied.epoch
  alive := tied.alive
  probes := tied.probes
  bounded := BitVec.le_trans tied.bounded order

theorem entry_tied_later (log : List LogEntry) (clock later : U64) (skaddr : U64) (cctx : ConnCtx)
    (events : List Submission) (tied : EntryTied log clock skaddr cctx events)
    (order : clock ≤ later) : EntryTied log later skaddr cctx events :=
  ⟨tied.epoch, tied.alive, tied.probes, BitVec.le_trans tied.bounded order⟩

theorem probe_distance (now last admitted : U64) (apart : ¬now - last < probeMinIntervalNS)
    (order : last ≤ now) (earlier : admitted ≤ last) : admitted.toNat + 100000000 ≤ now.toNat := by
  have difference : (now - last).toNat = now.toNat - last.toNat :=
    BitVec.toNat_sub_of_le order
  have interval : probeMinIntervalNS.toNat = 100000000 := by decide
  rw [BitVec.lt_def, difference, interval] at apart
  rw [BitVec.le_def] at order earlier
  omega

section Calls

variable (call : Call) (m : SockMap) (clock : U64) (log : List LogEntry)

/-- A submission for a tied entry, with the events since its capture. -/
theorem submission_ok (cctx stored : ConnCtx) (events : List Submission) (type : EventType)
    (endpoints : Endpoints) (tied : EntryTied log clock call.skaddr stored events)
    (same : cctx.capture = stored.capture)
    (apart : type = evtProbe → ¬call.now - stored.lastProbeNS < probeMinIntervalNS)
    (order : clock ≤ call.now) :
    SubmissionOk (submission call cctx type endpoints) log events where
  epoch := by
    rw [show (submission call cctx type endpoints).cctx.capture = stored.capture from same]
    exact tied.epoch
  alive := tied.alive
  spaced := by
    intro probe other member sampled
    exact probe_distance call.now stored.lastProbeNS other.admitted (apart probe)
      (BitVec.le_trans tied.bounded order) (tied.probes other member sampled)

/-- The epoch after a submission that does not end the connection. -/
theorem entry_tied_submitted (cctx stored : ConnCtx) (events : List Submission) (type : EventType)
    (endpoints : Endpoints) (tied : EntryTied log clock call.skaddr stored events)
    (same : cctx.capture = stored.capture) (alive : ¬Lifecycle type)
    (probe : type = evtProbe → call.now ≤ cctx.lastProbeNS)
    (grown : stored.lastProbeNS ≤ cctx.lastProbeNS) (bounded : cctx.lastProbeNS ≤ call.submitNow) :
    EntryTied (.submitted (submission call cctx type endpoints) :: log) call.submitNow call.skaddr
      cctx (submission call cctx type endpoints :: events) where
  epoch := by
    rw [same]
    simp [epochOf, submission, tied.epoch]
  alive := by
    intro sub member
    rcases List.mem_cons.mp member with rfl | earlier
    · exact alive
    · exact tied.alive sub earlier
  probes := by
    intro sub member sampled
    rcases List.mem_cons.mp member with rfl | earlier
    · exact probe sampled
    · exact BitVec.le_trans (tied.probes sub earlier sampled) grown
  bounded := bounded

end Calls

/-- The log after a call. -/
def logAfter (call : Call) (result : SockMap × Option Submission) (captured : Bool)
    (log : List LogEntry) : List LogEntry :=
  let submitted := result.2.elim log fun sub => .submitted sub :: log
  if captured then .captured call.skaddr (captureCtx call).capture :: submitted else submitted

/-- Replacing one entry: the new entry needs its own tie, the others keep theirs. -/
theorem set_tied (m : SockMap) (clock later : U64) (log longer : List LogEntry)
    (tied : Tied m clock log) (skaddr : U64) (entry : Option ConnCtx)
    (own : ∀ cctx, entry = some cctx → ∃ events, EntryTied longer later skaddr cctx events)
    (others : ∀ other cctx events, other ≠ skaddr → EntryTied log clock other cctx events →
      EntryTied longer later other cctx events)
    (disciplined : Disciplined longer) : Tied (m.set skaddr entry) later longer := by
  refine ⟨?_, disciplined⟩
  intro other cctx found
  by_cases here : other = skaddr
  · rw [here, map_set_same] at found
    rw [here]
    exact own cctx found
  · rw [map_set_other _ _ _ _ here] at found
    obtain ⟨events, kept⟩ := tied.entries other cctx found
    exact ⟨events, others other cctx events here kept⟩

/-- One call preserves the tie between entries and epochs, whatever it does. -/
theorem effect_tied (call : Call) (m : SockMap) (clock : U64) (log : List LogEntry)
    (tied : Tied m clock log) (order : clock ≤ call.now) (within : call.now ≤ call.submitNow)
    (result : SockMap × Option Submission) (captured : Bool)
    (effect : Effect call m result captured) :
    Tied result.1 call.submitNow (logAfter call result captured log) := by
  have later : clock ≤ call.submitNow := BitVec.le_trans order within
  have foreign : ∀ (entry : LogEntry), Concerns call.skaddr entry →
      ∀ other cctx events, other ≠ call.skaddr → EntryTied log clock other cctx events →
        EntryTied (entry :: log) call.submitNow other cctx events := by
    intro entry concerns other cctx events different kept
    apply entry_tied_other _ _ _ _ _ _ kept later
    intro also
    cases entry <;> exact different (also.symm.trans concerns)
  cases effect with
  | unchanged =>
      refine ⟨?_, tied.disciplined⟩
      intro skaddr cctx found
      obtain ⟨events, entry⟩ := tied.entries skaddr cctx found
      exact ⟨events, entry_tied_later _ _ _ _ _ _ entry later⟩
  | captured =>
      refine set_tied m clock _ log _ tied call.skaddr _ ?_ (foreign _ rfl) tied.disciplined
      intro cctx stored
      obtain rfl := Option.some.inj stored
      refine ⟨[], if_pos rfl, by simp, by simp, ?_⟩
      rw [BitVec.le_def]
      exact Nat.zero_le _
  | ended cctx type endpoints stored lifecycle =>
      obtain ⟨events, entry⟩ := tied.entries call.skaddr cctx stored
      refine set_tied m clock _ log _ tied call.skaddr _ (by simp) (foreign _ rfl)
        ⟨⟨events, ?_⟩, tied.disciplined⟩
      apply submission_ok call clock log cctx cctx events type endpoints entry rfl ?_ order
      rintro rfl
      exact absurd lifecycle (by unfold Lifecycle; decide)
  | reported cctx endpoints stored =>
      obtain ⟨events, entry⟩ := tied.entries call.skaddr cctx stored
      have after := set_tied m clock call.submitNow log
        (.submitted (submission call cctx evtRetransmit endpoints) :: log) tied call.skaddr (some cctx)
        (by
          intro other same
          obtain rfl := Option.some.inj same
          exact ⟨_, entry_tied_submitted call clock log cctx cctx events evtRetransmit endpoints entry
            rfl (by unfold Lifecycle; decide) (fun probe => absurd probe (by decide))
            (BitVec.le_refl _) (BitVec.le_trans entry.bounded later)⟩)
        (foreign _ rfl)
        ⟨⟨events, submission_ok call clock log cctx cctx events evtRetransmit endpoints entry rfl
          (fun probe => absurd probe (by decide)) order⟩, tied.disciplined⟩
      rw [map_set_present m call.skaddr cctx stored] at after
      exact after
  | sampled cctx stored =>
      obtain ⟨events, entry⟩ := tied.entries call.skaddr cctx stored
      refine set_tied m clock _ log _ tied call.skaddr _ ?_ ?_ tied.disciplined
      · intro other same
        obtain rfl := Option.some.inj same
        refine ⟨events, entry.epoch, entry.alive, ?_, within⟩
        intro sub member sampled
        exact BitVec.le_trans (entry.probes sub member sampled)
          (BitVec.le_trans entry.bounded order)
      · intro other kept others _ held
        exact entry_tied_later _ _ _ _ _ _ held later
  | probed cctx endpoints stored apart =>
      obtain ⟨events, entry⟩ := tied.entries call.skaddr cctx stored
      refine set_tied m clock _ log _ tied call.skaddr _ ?_ (foreign _ rfl)
        ⟨⟨events, ?_⟩, tied.disciplined⟩
      · intro other same
        obtain rfl := Option.some.inj same
        exact ⟨_, entry_tied_submitted call clock log _ cctx events evtProbe endpoints entry rfl
          (by unfold Lifecycle; decide) (fun _ => BitVec.le_refl _)
          (BitVec.le_trans entry.bounded order) within⟩
      · exact submission_ok call clock log _ cctx events evtProbe endpoints entry rfl
          (fun _ => apart) order

theorem handler_step_tied (s : KoState) (step : HandlerStep) (allowed : ClockOk s step)
    (tied : Tied s.sockCtx s.clock s.log) :
    Tied (handlerStep s step).sockCtx (handlerStep s step).clock (handlerStep s step).log := by
  cases step with
  | sockState call oldstate newstate =>
      have after := effect_tied call s.sockCtx s.clock s.log tied allowed.1 allowed.2 _ _
        (sock_state_effect call oldstate newstate s.sockCtx)
      obtain ⟨entries, clock, log⟩ :=
        finish_call_fields s call (koSockState call oldstate newstate s.sockCtx)
      simp only [handlerStep, noteCapture]
      unfold logAfter at after
      cases flag : captures call oldstate newstate with
      | true =>
          rw [flag] at after
          simp only [if_true] at after ⊢
          rw [entries, clock, log]
          exact after
      | false =>
          rw [flag] at after
          simp only [Bool.false_eq_true, if_false] at after ⊢
          rw [entries, clock, log]
          exact after
  | retransmit call =>
      have after := effect_tied call s.sockCtx s.clock s.log tied allowed.1 allowed.2 _ _
        (retransmit_effect call s.sockCtx)
      obtain ⟨entries, clock, log⟩ := finish_call_fields s call (koRetransmit call s.sockCtx)
      rw [handlerStep, entries, clock, log]
      exact after
  | probe call =>
      have after := effect_tied call s.sockCtx s.clock s.log tied allowed.1 allowed.2 _ _
        (probe_effect call s.sockCtx)
      obtain ⟨entries, clock, log⟩ := finish_call_fields s call (koProbe call s.sockCtx)
      rw [handlerStep, entries, clock, log]
      exact after
  | destroySock skaddr =>
      refine set_tied s.sockCtx s.clock _ s.log _ tied skaddr none (by simp) ?_ tied.disciplined
      intro other cctx events different kept
      exact entry_tied_other _ _ _ _ _ _ kept (BitVec.le_refl _) _ (Ne.symm different)
  | evict skaddr =>
      refine set_tied s.sockCtx s.clock _ s.log _ tied skaddr none (by simp) ?_ tied.disciplined
      intro other cctx events _ kept
      exact kept

/-- Every run of the handlers, with evictions at any moment, is disciplined. -/
theorem handler_runs_disciplined (clock : U64) (steps : List HandlerStep)
    (monotone : Along handlerStep ClockOk (KoState.start clock) steps) :
    Disciplined (run handlerStep (KoState.start clock) steps).log := by
  have initial : Tied (KoState.start clock).sockCtx (KoState.start clock).clock
      (KoState.start clock).log := by
    refine ⟨?_, trivial⟩
    intro skaddr cctx found
    cases found
  exact (invariant_along handlerStep ClockOk
    (fun s => Tied s.sockCtx s.clock s.log) handler_step_tied _ initial steps monotone).disciplined

/-- A call on socket 1 by task 7, with filtering off and room in the ring buffer. -/
def plainCall (now : U64) : Call where
  skaddr := 1
  sk := {}
  task := { pidTgid := 7 <<< 32 }
  now := now
  submitNow := now
  maps := { cfg := none, prog := none, verdicts := fun _ => none }
  reserved := true

theorem handler_runs_disciplined_connect :
    Along handlerStep ClockOk (KoState.start 0)
        [.sockState (plainCall 5) .close .synSent, .probe (plainCall 200000000),
          .sockState (plainCall 300000000) .established .finWait1] ∧
      Disciplined (run handlerStep (KoState.start 0)
        [.sockState (plainCall 5) .close .synSent, .probe (plainCall 200000000),
          .sockState (plainCall 300000000) .established .finWait1]).log := by
  have monotone : Along handlerStep ClockOk (KoState.start 0)
      [.sockState (plainCall 5) .close .synSent, .probe (plainCall 200000000),
        .sockState (plainCall 300000000) .established .finWait1] :=
    ⟨⟨by decide, by decide⟩, ⟨by decide, by decide⟩, ⟨by decide, by decide⟩, trivial⟩
  exact ⟨monotone, handler_runs_disciplined 0 _ monotone⟩

end KoAgent.EventDiscipline
