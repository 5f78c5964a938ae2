import KoAgent.KernelFilter
import KoAgent.StepRuns

/-!
# The socket handlers of `tracer.bpf.c`

Each handler is a function of the map `ko_sock_ctx` and of what it reads from
the kernel: the socket, the current task and the clock. It returns the new map
and at most one submission, the arguments it passes to `submit_conn_evt`; the
submission then goes through the filter program and the ring buffer. `KoState`
collects the map, the records put in the ring buffer and the two drop counters;
its ghost log keeps captures, submissions and socket destructions, newest first.
-/

namespace KoAgent.SocketHandlers

open KoAgent.FilterModel KoAgent.KernelCidr KoAgent.KernelFilter KoAgent.StepRuns

set_option autoImplicit false

/-- The states of `sk_state`, in the kernel's order from 1 to 12. -/
inductive TcpState where
  | established
  | synSent
  | synRecv
  | finWait1
  | finWait2
  | timeWait
  | close
  | closeWait
  | lastAck
  | listen
  | closing
  | newSynRecv
  deriving DecidableEq

def ipprotoTCP : U16 := 6

def probeMinIntervalNS : U64 := 100000000

/-- What the handlers read of a socket; `cgroup` is the id of its cgroup, if any. -/
structure Sock where
  protocol : U16 := ipprotoTCP
  family : U16 := afInet
  state : TcpState := .close
  sportBE : U16 := 0
  dportBE : U16 := 0
  rcvSaddr : Fin 4 → U8 := fun _ => 0
  daddr : Fin 4 → U8 := fun _ => 0
  v6RcvSaddr : Fin 16 → U8 := fun _ => 0
  v6Daddr : Fin 16 → U8 := fun _ => 0
  cgroup : Option U64 := none
  skErr : U32 := 0
  srttUS : U32 := 0
  totalRetrans : U32 := 0
  segsOut : U32 := 0
  sndCwnd : U32 := 0
  sndSsthresh : U32 := 0
  sndWnd : U32 := 0
  rcvWnd : U32 := 0

/-- The current task, as the BPF helpers report it. -/
structure Task where
  pidTgid : U64 := 0
  cgroupID : U64 := 0
  comm : Fin 16 → U8 := fun _ => 0

structure ConnCtx where
  cgroupID : U64
  startTS : U64
  pid : U32
  comm : Fin 16 → U8
  lastProbeNS : U64
  deriving DecidableEq

structure ConnEvent where
  ts : U64
  pid : U32
  error : U32
  comm : Fin 16 → U8
  family : U16
  localPort : U16
  remotePort : U16
  type : EventType
  localIP : Fin 16 → U8
  remoteIP : Fin 16 → U8
  cgroupID : U64
  lifeUS : U64
  rttUS : U32
  retransmits : U32
  segsOut : U32
  sndCwnd : U32
  sndSsthresh : U32
  sndWnd : U32
  rcvWnd : U32
  filterIdx : U16

structure Endpoints where
  family : U16
  sport : U16
  dport : U16
  addrs : SockAddrs

def ntohs (value : U16) : U16 := (value <<< 8) ||| (value >>> 8)

def copyFour (bytes : Fin 4 → U8) : Fin 16 → U8 := fun index =>
  if inside : index.val < 4 then bytes ⟨index.val, inside⟩ else 0

/-- `none` is the source's `false`: an unknown family, or a mini-socket that only
carries the common fields. -/
def sockReadEndpoints (sk : Sock) : Option Endpoints :=
  if sk.family ≠ afInet ∧ sk.family ≠ afInet6 then none
  else if sk.state = .timeWait ∨ sk.state = .newSynRecv then none
  else
    some
      { family := sk.family
        sport := ntohs sk.sportBE
        dport := ntohs sk.dportBE
        addrs :=
          if sk.family = afInet then
            { localIP := copyFour sk.rcvSaddr, remoteIP := copyFour sk.daddr }
          else { localIP := sk.v6RcvSaddr, remoteIP := sk.v6Daddr } }

def sockCgroupID (sk : Sock) : U64 := sk.cgroup.getD 0

structure Attribution where
  cgroupID : U64
  pid : U32
  comm : Fin 16 → U8

def attrResolve (sk : Sock) (cctx : ConnCtx) : Attribution where
  cgroupID := if sockCgroupID sk = 0 then cctx.cgroupID else sockCgroupID sk
  pid := cctx.pid
  comm := cctx.comm

/-- One call of `submit_conn_evt`; `admitted` is the clock reading of the handler. -/
structure Submission where
  skaddr : U64
  cctx : ConnCtx
  type : EventType
  endpoints : Endpoints
  admitted : U64

abbrev SockMap := U64 → Option ConnCtx

def SockMap.set (m : SockMap) (skaddr : U64) (entry : Option ConnCtx) : SockMap := fun other =>
  if other = skaddr then entry else m other

/-- Everything a handler call reads: the socket argument and its fields, the task,
the clock at its first and second reading, the filter maps, and whether the ring
buffer has room. -/
structure Call where
  skaddr : U64
  sk : Sock
  task : Task
  now : U64
  submitNow : U64
  maps : FilterMaps
  reserved : Bool

def captureCtx (call : Call) : ConnCtx where
  cgroupID := call.task.cgroupID
  startTS := call.now
  pid := (call.task.pidTgid >>> 32).setWidth 32
  comm := call.task.comm
  lastProbeNS := 0

def submission (call : Call) (cctx : ConnCtx) (type : EventType) (endpoints : Endpoints) :
    Submission where
  skaddr := call.skaddr
  cctx := cctx
  type := type
  endpoints := endpoints
  admitted := call.now

/-- A transition into SYN_SENT from another state of a readable TCP socket. -/
def captures (call : Call) (oldstate newstate : TcpState) : Bool :=
  call.sk.protocol = ipprotoTCP && (sockReadEndpoints call.sk).isSome &&
    (newstate = .synSent && oldstate ≠ .synSent)

def koSockState (call : Call) (oldstate newstate : TcpState) (m : SockMap) :
    SockMap × Option Submission :=
  if call.sk.protocol ≠ ipprotoTCP then (m, none)
  else
    match sockReadEndpoints call.sk with
    | none => (m, none)
    | some endpoints =>
        if newstate = .synSent ∧ oldstate ≠ .synSent then
          (m.set call.skaddr (some (captureCtx call)), none)
        else
          match m call.skaddr with
          | none => (m, none)
          | some cctx =>
              if oldstate = .established then
                (m.set call.skaddr none, some (submission call cctx evtConnClosed endpoints))
              else if oldstate ≠ .synSent then (m, none)
              else if newstate = .established then (m, none)
              else (m.set call.skaddr none, some (submission call cctx evtConnFailed endpoints))

def koRetransmit (call : Call) (m : SockMap) : SockMap × Option Submission :=
  match m call.skaddr with
  | none => (m, none)
  | some cctx =>
      match sockReadEndpoints call.sk with
      | none => (m, none)
      | some endpoints => (m, some (submission call cctx evtRetransmit endpoints))

def koProbe (call : Call) (m : SockMap) : SockMap × Option Submission :=
  match m call.skaddr with
  | none => (m, none)
  | some entry =>
      if call.now - entry.lastProbeNS < probeMinIntervalNS then (m, none)
      else
        let cctx := { entry with lastProbeNS := call.now }
        match sockReadEndpoints call.sk with
        | none => (m.set call.skaddr (some cctx), none)
        | some endpoints =>
            (m.set call.skaddr (some cctx), some (submission call cctx evtProbe endpoints))

def koDestroySock (skaddr : U64) (m : SockMap) : SockMap := m.set skaddr none

def lifeUS (call : Call) (cctx : ConnCtx) : U64 := (call.submitNow - cctx.startTS) / 1000

/-- The arguments `submit_conn_evt` passes to the filter program. -/
def filterEvent (call : Call) (sub : Submission) : KernelEvent where
  cgroupID := (attrResolve call.sk sub.cctx).cgroupID
  rttUS := call.sk.srttUS >>> 3
  lifeUS := lifeUS call sub.cctx
  retransmits := call.sk.totalRetrans
  segsOut := call.sk.segsOut
  skErr := call.sk.skErr
  type := sub.type
  family := sub.endpoints.family
  addrs := sub.endpoints.addrs

def fillAddr (family : U16) (address : Fin 16 → U8) : Fin 16 → U8 :=
  if family = afInet then fun index => if index.val < 4 then address index else 0
  else if family = afInet6 then address
  else fun _ => 0

def connEvent (call : Call) (sub : Submission) (filterIdx : U16) : ConnEvent where
  ts := call.submitNow
  pid := (attrResolve call.sk sub.cctx).pid
  error := call.sk.skErr
  comm := (attrResolve call.sk sub.cctx).comm
  family := sub.endpoints.family
  localPort := sub.endpoints.sport
  remotePort := sub.endpoints.dport
  type := sub.type
  localIP := fillAddr sub.endpoints.family sub.endpoints.addrs.localIP
  remoteIP := fillAddr sub.endpoints.family sub.endpoints.addrs.remoteIP
  cgroupID := (attrResolve call.sk sub.cctx).cgroupID
  lifeUS := lifeUS call sub.cctx
  rttUS := call.sk.srttUS >>> 3
  retransmits := call.sk.totalRetrans
  segsOut := call.sk.segsOut
  sndCwnd := call.sk.sndCwnd
  sndSsthresh := call.sk.sndSsthresh
  sndWnd := call.sk.sndWnd
  rcvWnd := call.sk.rcvWnd
  filterIdx := filterIdx

inductive Submitted where
  | filtered
  | noRoom
  | emitted (record : ConnEvent)

def submitConnEvt (call : Call) (sub : Submission) : Submitted :=
  let filterIdx := koFilterEval call.maps (filterEvent call sub)
  if filterIdx = filterDrop then .filtered
  else if call.reserved then .emitted (connEvent call sub filterIdx)
  else .noRoom

structure Capture where
  pid : U32
  comm : Fin 16 → U8
  startTS : U64
  deriving DecidableEq

def ConnCtx.capture (cctx : ConnCtx) : Capture where
  pid := cctx.pid
  comm := cctx.comm
  startTS := cctx.startTS

inductive LogEntry where
  | captured (skaddr : U64) (capture : Capture)
  | submitted (sub : Submission)
  | destroyed (skaddr : U64)

structure KoState where
  sockCtx : SockMap
  clock : U64
  ring : List ConnEvent
  filterDrops : Nat
  ringbufDrops : Nat
  log : List LogEntry

def KoState.start (clock : U64) : KoState where
  sockCtx := fun _ => none
  clock := clock
  ring := []
  filterDrops := 0
  ringbufDrops := 0
  log := []

inductive HandlerStep where
  | sockState (call : Call) (oldstate newstate : TcpState)
  | retransmit (call : Call)
  | probe (call : Call)
  | destroySock (skaddr : U64)
  | evict (skaddr : U64)

/-- The outcome of a handler: its map, and its submission through filter and ring. -/
def finishCall (s : KoState) (call : Call) (result : SockMap × Option Submission) : KoState :=
  match result.2 with
  | none => { s with sockCtx := result.1, clock := call.submitNow }
  | some sub =>
      let next := { s with
        sockCtx := result.1
        clock := call.submitNow
        log := .submitted sub :: s.log }
      match submitConnEvt call sub with
      | .filtered => { next with filterDrops := s.filterDrops + 1 }
      | .noRoom => { next with ringbufDrops := s.ringbufDrops + 1 }
      | .emitted record => { next with ring := s.ring ++ [record] }

def noteCapture (s : KoState) (call : Call) (oldstate newstate : TcpState) : KoState :=
  if captures call oldstate newstate then
    { s with log := .captured call.skaddr (captureCtx call).capture :: s.log }
  else s

def handlerStep (s : KoState) : HandlerStep → KoState
  | .sockState call oldstate newstate =>
      noteCapture (finishCall s call (koSockState call oldstate newstate s.sockCtx)) call
        oldstate newstate
  | .retransmit call => finishCall s call (koRetransmit call s.sockCtx)
  | .probe call => finishCall s call (koProbe call s.sockCtx)
  | .destroySock skaddr =>
      { s with sockCtx := koDestroySock skaddr s.sockCtx, log := .destroyed skaddr :: s.log }
  | .evict skaddr => { s with sockCtx := s.sockCtx.set skaddr none }

end KoAgent.SocketHandlers
