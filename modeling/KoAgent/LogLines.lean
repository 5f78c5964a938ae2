import KoAgent.CgroupNames
import KoAgent.EventDelivery
import KoAgent.PushdownMeaning

/-!
# The lines of the stdout exporter

`logEvent` of `pkg/exporters/stdout.go` as the keys and values it hands to the
logger, in order; how the logger prints a value is not modelled. A `Report` is
what a line is for: the endpoints as addresses, not as text, and every optional
part present or absent as a whole. The texts of error numbers are the system's.
-/

namespace KoAgent.LogLines

open KoAgent.ByteWords KoAgent.NumeralText KoAgent.NetAddress KoAgent.NetAddressRoundtrip
open KoAgent.FilterModel KoAgent.FilterSets KoAgent.PushdownMeaning KoAgent.KernelCidr KoAgent.SocketHandlers
open KoAgent.ContainerPaths KoAgent.ContainerCache KoAgent.CgroupNames KoAgent.EventReader
open KoAgent.EventDelivery

set_option autoImplicit false

inductive LogValue where
  | eventType (value : EventType)
  | number (value : Nat)
  | bytes (value : List Byte)
  | text (value : Text)
  | string (value : String)
  deriving DecidableEq

abbrev LogField := String × LogValue

def addr (ip : IP) (port : U16) : Text :=
  if ip = [] then [] else joinHostPort (ipToString ip) (decimal port.toNat)

section Lines

variable (strerror : U32 → String)

def errnoString (errno : U32) : String := if errno = 0 then "aborted locally" else strerror errno

def connectionFields (ev : TracedEvent) : List LogField :=
  [("ko_type", .eventType ev.type), ("ko_comm", .bytes ev.comm), ("ko_pid", .number ev.pid.toNat),
    ("ko_cgroup_id", .number ev.cgroupID.toNat),
    ("ko_local_addr", .text (addr ev.localIP ev.localPort)),
    ("ko_remote_addr", .text (addr ev.remoteIP ev.remotePort)),
    ("ko_life_us", .number ev.lifeUS.toNat), ("ko_rtt_us", .number ev.rttUS.toNat),
    ("ko_retransmits", .number ev.retransmits.toNat), ("ko_segs_out", .number ev.segsOut.toNat)]

def errorFields (ev : TracedEvent) : List LogField :=
  if ev.errno ≠ 0 then [("ko_error", .string (errnoString strerror ev.errno))] else []

def filterFields (ev : TracedEvent) : List LogField :=
  if ev.filterName ≠ "" then [("ko_filter", .string ev.filterName)] else []

def probeFields (ev : TracedEvent) : List LogField :=
  if ev.type = evtProbe then
    [("ko_snd_cwnd", .number ev.sndCwnd.toNat), ("ko_snd_ssthresh", .number ev.sndSsthresh.toNat),
      ("ko_snd_wnd", .number ev.sndWnd.toNat), ("ko_rcv_wnd", .number ev.rcvWnd.toNat)]
  else []

def containerFields : Option ContainerInfo → List LogField
  | none => []
  | some c =>
      [("ko_runtime", .text (runtimeText c.runtime)), ("ko_container_id", .text c.containerID),
        ("ko_container", .string c.containerName), ("ko_pod", .string c.podName),
        ("ko_namespace", .string c.podNamespace)]

def logEvent (ev : ExportedEvent) : List LogField :=
  connectionFields ev.event ++ (errorFields strerror ev.event ++ (filterFields ev.event ++
    (probeFields ev.event ++ containerFields ev.container)))

/-! ## What a line is for -/

def endpoint (ip : IP) (port : U16) : Option (Addr × U16) :=
  if ip = [] then none else some (addrOfIP ip, port)

structure Connection where
  type : EventType
  comm : List Byte
  pid : U32
  cgroupID : U64
  localAddr : Option (Addr × U16)
  remoteAddr : Option (Addr × U16)
  lifeUS : U64
  rttUS : U32
  retransmits : U32
  segsOut : U32

structure Congestion where
  sndCwnd : U32
  sndSsthresh : U32
  sndWnd : U32
  rcvWnd : U32

structure Owner where
  runtime : Runtime
  containerID : Text
  containerName : String
  podName : String
  podNamespace : String

structure Report where
  connection : Connection
  error : Option String
  filterName : Option String
  congestion : Option Congestion
  owner : Option Owner

def connectionOf (ev : TracedEvent) : Connection where
  type := ev.type
  comm := ev.comm
  pid := ev.pid
  cgroupID := ev.cgroupID
  localAddr := endpoint ev.localIP ev.localPort
  remoteAddr := endpoint ev.remoteIP ev.remotePort
  lifeUS := ev.lifeUS
  rttUS := ev.rttUS
  retransmits := ev.retransmits
  segsOut := ev.segsOut

def errorOf (ev : TracedEvent) : Option String :=
  if ev.errno ≠ 0 then some (errnoString strerror ev.errno) else none

def filterNameOf (ev : TracedEvent) : Option String :=
  if ev.filterName ≠ "" then some ev.filterName else none

def congestionOf (ev : TracedEvent) : Option Congestion :=
  if ev.type = evtProbe then
    some { sndCwnd := ev.sndCwnd, sndSsthresh := ev.sndSsthresh, sndWnd := ev.sndWnd,
           rcvWnd := ev.rcvWnd }
  else none

def ownerOf (container : Option ContainerInfo) : Option Owner :=
  container.map fun c =>
    { runtime := c.runtime, containerID := c.containerID, containerName := c.containerName,
      podName := c.podName, podNamespace := c.podNamespace }

def report (ev : ExportedEvent) : Report where
  connection := connectionOf ev.event
  error := errorOf strerror ev.event
  filterName := filterNameOf ev.event
  congestion := congestionOf ev.event
  owner := ownerOf ev.container

end Lines

/-! ## Addresses -/

theorem split_addr (ip : IP) (shape : IPShape ip) (port : U16) (present : ip ≠ []) :
    splitHostPort (addr ip port) = some (ipToString ip, decimal port.toNat) := by
  have spelled : ipString ip = ipToString ip := by rw [ipString, if_neg present]
  have symbols := ip_string_symbols ip shape
  rw [spelled] at symbols
  rw [addr, if_neg present]
  apply split_host_port_join
  · exact fun member => (symbols _ member).1 rfl
  · exact fun member => (symbols _ member).2 rfl
  · exact fun member => (decimal_symbols _ _ member).1 rfl
  · exact fun member => (decimal_symbols _ _ member).2.1 rfl
  · exact fun member => (decimal_symbols _ _ member).2.2 rfl

/-- An address is printed from what it denotes. -/
theorem ip_to_string_addr (ip other : IP) (shape : IPShape ip) (otherShape : IPShape other)
    (present : ip ≠ []) (otherPresent : other ≠ []) (same : addrOfIP ip = addrOfIP other) :
    ipToString ip = ipToString other := by
  have long : ∀ ip : IP, IPShape ip → ip ≠ [] → to4 ip = none → ip.length = 16 := by
    intro ip shape present absent
    rcases shape.resolve_left present with short | long
    · simp [to4, short] at absent
    · exact long
  rw [addrOfIP, addrOfIP] at same
  rw [ipToString, ipToString, if_neg present, if_neg otherPresent]
  cases four : to4 ip with
  | some bytes =>
      cases otherFour : to4 other with
      | some otherBytes =>
          simp only [four, otherFour, Addr.v4.injEq] at same
          dsimp only
          rw [same]
      | none =>
          simp only [four, otherFour, reduceCtorEq] at same
  | none =>
      cases otherFour : to4 other with
      | some otherBytes =>
          simp only [four, otherFour, reduceCtorEq] at same
      | none =>
          simp only [four, otherFour, Addr.v6.injEq, and_true] at same
          dsimp only
          rw [if_pos (long ip shape present four), if_pos (long other otherShape otherPresent otherFour),
            same]

theorem addr_eq_iff (ip other : IP) (shape : IPShape ip) (otherShape : IPShape other)
    (port otherPort : U16) :
    addr ip port = addr other otherPort ↔ endpoint ip port = endpoint other otherPort := by
  -- the text of an endpoint is not empty, for it can be split
  have filled : ∀ ip port, IPShape ip → ip ≠ [] → addr ip port ≠ [] := by
    intro ip port shape present empty
    have split := split_addr ip shape port present
    rw [empty] at split
    cases split
  by_cases absent : ip = []
  · by_cases otherAbsent : other = []
    · simp [addr, endpoint, absent, otherAbsent]
    · have text := filled other otherPort otherShape otherAbsent
      simp only [addr, endpoint, absent, if_true, if_neg otherAbsent, reduceCtorEq, iff_false]
      rw [addr, if_neg otherAbsent] at text
      exact text.symm
  · by_cases otherAbsent : other = []
    · have text := filled ip port shape absent
      simp only [addr, endpoint, otherAbsent, if_true, if_neg absent, reduceCtorEq, iff_false]
      rw [addr, if_neg absent] at text
      exact text
    · have known := parse_addr_ip_to_string ip (shape.resolve_left absent)
      have otherKnown := parse_addr_ip_to_string other (otherShape.resolve_left otherAbsent)
      rw [endpoint, endpoint, if_neg absent, if_neg otherAbsent, Option.some.injEq, Prod.mk.injEq]
      constructor
      · intro same
        have split := split_addr ip shape port absent
        rw [same, split_addr other otherShape otherPort otherAbsent, Option.some.injEq,
          Prod.mk.injEq] at split
        constructor
        · rw [← split.1, otherKnown, Option.some.injEq] at known
          exact known.symm
        · have digits := parse_decimal_decimal 65535 port.toNat (by omega)
          rw [← split.2, parse_decimal_decimal 65535 otherPort.toNat (by omega),
            Option.some.injEq] at digits
          exact (BitVec.eq_of_toNat_eq digits).symm
      · intro same
        rw [addr, addr, if_neg absent, if_neg otherAbsent, same.2,
          ip_to_string_addr ip other shape otherShape absent otherAbsent same.1]

/-! ## The parts of a line -/

/-- A part is left out, or it has all of its keys. -/
def Part (keys : List String) (fields : List LogField) : Prop :=
  fields = [] ∨ fields.map Prod.fst = keys

theorem part_key (keys : List String) (fields : List LogField) (part : Part keys fields)
    (field : LogField) (member : field ∈ fields) : field.1 ∈ keys := by
  rcases part with rfl | named
  · cases member
  · rw [← named]
    exact List.mem_map_of_mem member

/-- Where no later key is one of the part's, it can be told where the part ends. -/
theorem part_append_iff (keys : List String) (left right leftRest rightRest : List LogField)
    (leftPart : Part keys left) (rightPart : Part keys right)
    (leftApart : ∀ field ∈ leftRest, field.1 ∉ keys)
    (rightApart : ∀ field ∈ rightRest, field.1 ∉ keys) :
    left ++ leftRest = right ++ rightRest ↔ left = right ∧ leftRest = rightRest := by
  have alone : ∀ part rest other : List LogField, Part keys part → part ≠ [] →
      (∀ field ∈ other, field.1 ∉ keys) → part ++ rest ≠ other := by
    intro part rest other named filled apart same
    cases part with
    | nil => exact filled rfl
    | cons field others =>
        have inside : field ∈ other := by
          rw [← same]
          exact List.mem_cons_self
        exact apart field inside (part_key keys _ named field List.mem_cons_self)
  constructor
  · intro same
    by_cases leftEmpty : left = []
    · by_cases rightEmpty : right = []
      · rw [leftEmpty, rightEmpty] at same
        exact ⟨by rw [leftEmpty, rightEmpty], same⟩
      · rw [leftEmpty] at same
        exact absurd same.symm (alone right rightRest leftRest rightPart rightEmpty leftApart)
    · by_cases rightEmpty : right = []
      · rw [rightEmpty] at same
        exact absurd same (alone left leftRest rightRest leftPart leftEmpty rightApart)
      · have keysSame : left.map Prod.fst = right.map Prod.fst :=
          (leftPart.resolve_left leftEmpty).trans (rightPart.resolve_left rightEmpty).symm
        have lengths := congrArg List.length keysSame
        rw [List.length_map, List.length_map] at lengths
        exact List.append_inj same lengths
  · intro same
    rcases same with ⟨rfl, rfl⟩
    rfl

section Parts

variable (strerror : U32 → String)

theorem error_part (ev : TracedEvent) : Part ["ko_error"] (errorFields strerror ev) := by
  rw [errorFields]
  split_ifs
  · exact Or.inr rfl
  · exact Or.inl rfl

theorem filter_part (ev : TracedEvent) : Part ["ko_filter"] (filterFields ev) := by
  rw [filterFields]
  split_ifs
  · exact Or.inr rfl
  · exact Or.inl rfl

def probeKeys : List String := ["ko_snd_cwnd", "ko_snd_ssthresh", "ko_snd_wnd", "ko_rcv_wnd"]

theorem probe_part (ev : TracedEvent) : Part probeKeys (probeFields ev) := by
  rw [probeFields]
  split_ifs
  · exact Or.inr rfl
  · exact Or.inl rfl

def containerKeys : List String :=
  ["ko_runtime", "ko_container_id", "ko_container", "ko_pod", "ko_namespace"]

theorem container_part (container : Option ContainerInfo) :
    Part containerKeys (containerFields container) := by
  cases container with
  | none => exact Or.inl rfl
  | some c => exact Or.inr rfl

/-- The keys that follow the filter are none of `ko_error` and `ko_filter`. -/
theorem later_keys (ev : ExportedEvent) (field : LogField)
    (member : field ∈ probeFields ev.event ++ containerFields ev.container) :
    field.1 ∈ probeKeys ++ containerKeys := by
  rcases List.mem_append.mp member with probe | container
  · exact List.mem_append_left _ (part_key _ _ (probe_part ev.event) field probe)
  · exact List.mem_append_right _ (part_key _ _ (container_part ev.container) field container)

theorem connection_fields_iff (a b : TracedEvent) (localA : IPShape a.localIP)
    (localB : IPShape b.localIP) (remoteA : IPShape a.remoteIP) (remoteB : IPShape b.remoteIP) :
    connectionFields a = connectionFields b ↔ connectionOf a = connectionOf b := by
  simp only [connectionFields, connectionOf, List.cons.injEq, Prod.mk.injEq, true_and, and_true,
    LogValue.eventType.injEq, LogValue.bytes.injEq, LogValue.number.injEq, LogValue.text.injEq,
    Connection.mk.injEq, BitVec.toNat_inj, addr_eq_iff _ _ localA localB,
    addr_eq_iff _ _ remoteA remoteB]

theorem error_fields_iff (a b : TracedEvent) :
    errorFields strerror a = errorFields strerror b ↔ errorOf strerror a = errorOf strerror b := by
  rw [errorFields, errorFields, errorOf, errorOf]
  split_ifs <;> simp

theorem filter_fields_iff (a b : TracedEvent) :
    filterFields a = filterFields b ↔ filterNameOf a = filterNameOf b := by
  rw [filterFields, filterFields, filterNameOf, filterNameOf]
  split_ifs <;> simp

theorem probe_fields_iff (a b : TracedEvent) :
    probeFields a = probeFields b ↔ congestionOf a = congestionOf b := by
  rw [probeFields, probeFields, congestionOf, congestionOf]
  split_ifs <;> simp [BitVec.toNat_inj]

theorem runtime_text_injective (first second : Runtime)
    (same : runtimeText first = runtimeText second) : first = second := by
  cases first <;> cases second <;> first | rfl | exact absurd same (by decide)

theorem container_fields_iff (a b : Option ContainerInfo) :
    containerFields a = containerFields b ↔ ownerOf a = ownerOf b := by
  have runtimes : ∀ first second, runtimeText first = runtimeText second ↔ first = second :=
    fun first second => ⟨runtime_text_injective first second, congrArg runtimeText⟩
  cases a with
  | none =>
      cases b with
      | none => simp [containerFields, ownerOf]
      | some c => simp [containerFields, ownerOf]
  | some c =>
      cases b with
      | none => simp [containerFields, ownerOf]
      | some d => simp [containerFields, ownerOf, runtimes]

theorem log_event_iff (a b : ExportedEvent) (localA : IPShape a.event.localIP)
    (localB : IPShape b.event.localIP) (remoteA : IPShape a.event.remoteIP)
    (remoteB : IPShape b.event.remoteIP) :
    logEvent strerror a = logEvent strerror b ↔ report strerror a = report strerror b := by
  have afterError : ∀ ev : ExportedEvent, ∀ field ∈ filterFields ev.event ++
      (probeFields ev.event ++ containerFields ev.container), field.1 ∉ ["ko_error"] := by
    intro ev field member listed
    have keys : field.1 ∈ ["ko_filter"] ++ (probeKeys ++ containerKeys) := by
      rcases List.mem_append.mp member with filter | later
      · exact List.mem_append_left _ (part_key _ _ (filter_part ev.event) field filter)
      · exact List.mem_append_right _ (later_keys ev field later)
    rw [List.mem_singleton.mp listed] at keys
    revert keys
    decide
  have afterFilter : ∀ ev : ExportedEvent, ∀ field ∈ probeFields ev.event ++
      containerFields ev.container, field.1 ∉ ["ko_filter"] := by
    intro ev field member listed
    have keys := later_keys ev field member
    rw [List.mem_singleton.mp listed] at keys
    revert keys
    decide
  have afterProbe : ∀ ev : ExportedEvent, ∀ field ∈ containerFields ev.container,
      field.1 ∉ probeKeys := by
    intro ev field member
    have apart : ∀ key ∈ containerKeys, key ∉ probeKeys := by decide
    exact apart field.1 (part_key _ _ (container_part ev.container) field member)
  have connection : ∀ left right : List LogField,
      connectionFields a.event ++ left = connectionFields b.event ++ right ↔
        connectionFields a.event = connectionFields b.event ∧ left = right := by
    intro left right
    constructor
    · intro same
      exact List.append_inj same rfl
    · intro both
      rw [both.1, both.2]
  rw [logEvent, logEvent, connection,
    part_append_iff _ _ _ _ _ (error_part strerror a.event) (error_part strerror b.event)
      (afterError a) (afterError b),
    part_append_iff _ _ _ _ _ (filter_part a.event) (filter_part b.event) (afterFilter a)
      (afterFilter b),
    part_append_iff _ _ _ _ _ (probe_part a.event) (probe_part b.event) (afterProbe a) (afterProbe b),
    connection_fields_iff _ _ localA localB remoteA remoteB, error_fields_iff, filter_fields_iff,
    probe_fields_iff, container_fields_iff, report, report, Report.mk.injEq]

end Parts

/-- A record of the kernel as it comes to an exporter: decoded, labelled and with the
container of the lookup. -/
def exported (raw : ConnEvent) (filterIdx : U16) (filterName : String)
    (container : Option ContainerInfo) : ExportedEvent where
  event := { decodeConnEvent raw with filterIdx := filterIdx, filterName := filterName }
  container := container

theorem event_ip_shape (family : U16) (raw : Fin 16 → U8) : IPShape (eventIP family raw) := by
  rw [eventIP]
  split_ifs
  · exact Or.inr (Or.inl (by rw [List.length_take, List.length_ofFn]; rfl))
  · exact Or.inr (Or.inr List.length_ofFn)
  · exact Or.inl rfl

/-- Two records give the same line exactly when they are the same report: no field
of the report gets lost in a text or in a part that is left out, and nothing else
shows. An IPv4 address and its mapped form are one address. -/
theorem line_tells_report (strerror : U32 → String) (raw other : ConnEvent)
    (filterIdx otherIdx : U16) (filterName otherName : String)
    (container otherContainer : Option ContainerInfo) :
    logEvent strerror (exported raw filterIdx filterName container) =
        logEvent strerror (exported other otherIdx otherName otherContainer) ↔
      report strerror (exported raw filterIdx filterName container) =
        report strerror (exported other otherIdx otherName otherContainer) := by
  apply log_event_iff
  · exact event_ip_shape raw.family raw.localIP
  · exact event_ip_shape other.family other.localIP
  · exact event_ip_shape raw.family raw.remoteIP
  · exact event_ip_shape other.family other.remoteIP

end KoAgent.LogLines
