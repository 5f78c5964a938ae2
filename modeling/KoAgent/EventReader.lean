import KoAgent.FilterResolution
import KoAgent.WireFormats
import KoAgent.CompiledSets

/-!
# The reader loop of `Tracer.Run`

One iteration takes a sample from the ring buffer, decodes it, names the filter
the kernel chose or resolves the event in user space, and hands the event over.
What the loop cannot determine itself is part of its input: the sample, what the
attribute source answers, and which branch the final `select` takes. An index
past the end of `names` is a panic in the source; here it ends the loop.
-/

namespace KoAgent.EventReader

open KoAgent.ByteWords KoAgent.NetAddress KoAgent.FilterModel KoAgent.CelExpression
open KoAgent.FilterSets KoAgent.CompiledSets KoAgent.KernelCidr KoAgent.KernelFilter
open KoAgent.SocketHandlers
open KoAgent.FilterResolution KoAgent.WireFormats KoAgent.StepRuns

set_option autoImplicit false

/-- `ConnEvent` of `tracer.go`; a missing address is the empty one. -/
structure TracedEvent where
  type : EventType
  timestampNS : U64
  pid : U32
  comm : List Byte
  localIP : IP
  localPort : U16
  remoteIP : IP
  remotePort : U16
  family : U16
  cgroupID : U64
  lifeUS : U64
  rttUS : U32
  retransmits : U32
  segsOut : U32
  errno : U32
  sndCwnd : U32
  sndSsthresh : U32
  sndWnd : U32
  rcvWnd : U32
  filterIdx : U16
  filterName : String
  deriving DecidableEq

def cString (bytes : List Byte) : List Byte := bytes.takeWhile (· ≠ 0)

/-- The address copied by the `switch` of `decodeConnEvent`. -/
def eventIP (family : U16) (raw : Fin 16 → U8) : IP :=
  if family = afInet then (List.ofFn raw).take 4
  else if family = afInet6 then List.ofFn raw
  else []

def decodeConnEvent (raw : ConnEvent) : TracedEvent where
  type := raw.type
  timestampNS := raw.ts
  pid := raw.pid
  comm := cString (List.ofFn raw.comm)
  localIP := eventIP raw.family raw.localIP
  localPort := raw.localPort
  remoteIP := eventIP raw.family raw.remoteIP
  remotePort := raw.remotePort
  family := raw.family
  cgroupID := raw.cgroupID
  lifeUS := raw.lifeUS
  rttUS := raw.rttUS
  retransmits := raw.retransmits
  segsOut := raw.segsOut
  errno := raw.error
  sndCwnd := raw.sndCwnd
  sndSsthresh := raw.sndSsthresh
  sndWnd := raw.sndWnd
  rcvWnd := raw.rcvWnd
  filterIdx := raw.filterIdx
  filterName := ""

/-- What the loop reads of the tracer; `events` says whether a channel is subscribed. -/
structure Tracer where
  filterSet : Option FilterSet
  verify : Bool
  events : Bool

/-- The filter set of the tracer: none without filters, else what `Compile` accepts. -/
def initFilters (cel : Cel) (cfg : List Config) : Except CompileError (Option FilterSet) :=
  if cfg.length = 0 then .ok none else (compile cel cfg).map some

/-- One iteration's input: `done` takes the `ctx.Done()` branch of the send. -/
structure Read where
  sample : List Byte
  source : CgroupAttrs × Bool
  done : Bool

inductive Status where
  | running
  | returned
  | panicked
  deriving DecidableEq

/-- The counters, the updates of the verdict map, and the events: those handed
over, to the channel or to the log, and the one whose send was given up. -/
structure ReaderState where
  status : Status := .running
  eventsTotal : Nat := 0
  decodeErrors : Nat := 0
  droppedUserspace : Nat := 0
  passedBPF : Nat := 0
  passedUserspace : Nat := 0
  verifyMismatches : Nat := 0
  filterMatched : String → Nat := fun _ => 0
  updates : List (U64 × U64) := []
  handed : List TracedEvent := []
  abandoned : List TracedEvent := []

inductive Decision where
  | droppedUserspace
  | passedBPF (event : TracedEvent)
  | passedUserspace (event : TracedEvent)
  | outOfRange

/-- The kernel has decided the event. -/
def namedByKernel (set : FilterSet) (raw : ConnEvent) : Bool :=
  raw.filterIdx < BitVec.ofNat 16 set.names.length

def nameEvent (set : FilterSet) (event : TracedEvent) (idx : U16) : Option TracedEvent :=
  set.names[idx.toNat]?.map fun name => { event with filterIdx := idx, filterName := name }

def decideEvent (t : Tracer) (raw : ConnEvent) (source : CgroupAttrs × Bool) : Decision :=
  match t.filterSet with
  | none => .droppedUserspace
  | some set =>
      if namedByKernel set raw then
        match nameEvent set (decodeConnEvent raw) raw.filterIdx with
        | none => .outOfRange
        | some event => .passedBPF event
      else
        match (resolveFilter set raw source).index with
        | none => .droppedUserspace
        | some index =>
            match nameEvent set (decodeConnEvent raw) (BitVec.ofNat 16 index) with
            | none => .outOfRange
            | some event => .passedUserspace event

/-- What `resolveFilter` and `verifyBpfDecision` leave behind. -/
def noteResolution (t : Tracer) (raw : ConnEvent) (source : CgroupAttrs × Bool) (s : ReaderState) :
    ReaderState :=
  match t.filterSet with
  | none => s
  | some set =>
      if namedByKernel set raw && !t.verify then s
      else
        let resolution := resolveFilter set raw source
        { s with
          updates := s.updates ++ (resolution.mask.map fun mask => (raw.cgroupID, mask)).toList
          verifyMismatches :=
            if namedByKernel set raw && mismatches resolution raw.filterIdx then
              s.verifyMismatches + 1
            else s.verifyMismatches }

/-- The tail of the iteration, from `filterMatched` on. -/
def handOver (t : Tracer) (done : Bool) (event : TracedEvent) (s : ReaderState) : ReaderState :=
  let counted := { s with
    filterMatched := fun name =>
      if name = event.filterName then s.filterMatched name + 1 else s.filterMatched name }
  if t.events && done then
    { counted with status := .returned, abandoned := s.abandoned ++ [event] }
  else { counted with handed := s.handed ++ [event] }

def settleEvent (t : Tracer) (done : Bool) (s : ReaderState) : Decision → ReaderState
  | .droppedUserspace => { s with droppedUserspace := s.droppedUserspace + 1 }
  | .passedBPF event => handOver t done event { s with passedBPF := s.passedBPF + 1 }
  | .passedUserspace event => handOver t done event { s with passedUserspace := s.passedUserspace + 1 }
  | .outOfRange => { s with status := .panicked }

def readRecord (t : Tracer) (s : ReaderState) (read : Read) : ReaderState :=
  if s.status = .running then
    let s := { s with eventsTotal := s.eventsTotal + 1 }
    match binaryRead read.sample with
    | .error _ => { s with decodeErrors := s.decodeErrors + 1 }
    | .ok raw =>
        settleEvent t read.done (noteResolution t raw read.source s) (decideEvent t raw read.source)
  else s

theorem note_resolution_shape (t : Tracer) (raw : ConnEvent) (source : CgroupAttrs × Bool)
    (s : ReaderState) :
    ∃ updates mismatches, noteResolution t raw source s =
      { s with updates := updates, verifyMismatches := mismatches } := by
  unfold noteResolution
  cases t.filterSet with
  | none => exact ⟨s.updates, s.verifyMismatches, rfl⟩
  | some set =>
      dsimp only
      split_ifs
      · exact ⟨s.updates, s.verifyMismatches, rfl⟩
      · exact ⟨_, _, rfl⟩
      · exact ⟨_, _, rfl⟩

theorem evaluate_from_inside (act : Activation) (progs : List Program) (first index : Nat)
    (found : evaluateFrom act first progs = some index) : index < first + progs.length := by
  induction progs generalizing first with
  | nil => cases found
  | cons prg rest induction =>
      rw [evaluateFrom] at found
      rw [List.length_cons]
      split_ifs at found
      · cases found
        omega
      · have later := induction (first + 1) found
        omega

theorem init_filters_compiled (cel : Cel) (cfg : List Config) (set : FilterSet)
    (built : initFilters cel cfg = .ok (some set)) : compile cel cfg = .ok set := by
  rw [initFilters] at built
  by_cases empty : cfg.length = 0
  · rw [if_pos empty] at built
    cases built
  · rw [if_neg empty] at built
    cases compiled : compile cel cfg with
    | error problem =>
        rw [compiled] at built
        cases built
    | ok other =>
        rw [compiled] at built
        cases built
        rfl

/-- A compiled set has one program for every name, and few of them. -/
theorem compiled_programs (cel : Cel) (cfg : List Config) (set : FilterSet)
    (accepted : compile cel cfg = .ok set) :
    set.progs.length = set.names.length ∧ set.names.length ≤ 32 := by
  rcases compile_spec cel cfg set accepted with ⟨es, results, c, from_⟩
  have programs := from_.progs.length_eq
  have parsed := from_.parsed.length_eq
  have bound : cfg.length ≤ 32 := from_.filterBound
  rw [from_.names, List.length_map]
  omega

theorem evaluate_index (cel : Cel) (cfg : List Config) (set : FilterSet)
    (accepted : compile cel cfg = .ok set) (ev : Event) (index : Nat)
    (found : set.evaluate ev = some index) :
    index < set.names.length ∧ (BitVec.ofNat 16 index).toNat = index := by
  rcases compiled_programs cel cfg set accepted with ⟨programs, bound⟩
  have inside := evaluate_from_inside _ set.progs 0 index found
  rw [BitVec.toNat_ofNat]
  omega

theorem named_by_kernel_iff (cel : Cel) (cfg : List Config) (set : FilterSet)
    (accepted : compile cel cfg = .ok set) (raw : ConnEvent) :
    namedByKernel set raw = true ↔ raw.filterIdx.toNat < set.names.length := by
  have bound := (compiled_programs cel cfg set accepted).2
  have small : set.names.length % 2 ^ 16 = set.names.length := Nat.mod_eq_of_lt (by omega)
  rw [namedByKernel, decide_eq_true_iff, BitVec.lt_def, BitVec.toNat_ofNat, small]

theorem name_event_inside (set : FilterSet) (event : TracedEvent) (idx : U16)
    (inside : idx.toNat < set.names.length) :
    nameEvent set event idx =
      some { event with filterIdx := idx, filterName := set.names[idx.toNat] } := by
  rw [nameEvent, List.getElem?_eq_getElem inside, Option.map_some]

/-- The event carries the index of a filter and that filter's name. -/
def Labelled (filterSet : Option FilterSet) (event : TracedEvent) : Prop :=
  ∃ set, filterSet = some set ∧ set.names[event.filterIdx.toNat]? = some event.filterName

theorem named_event_labelled (set : FilterSet) (raw : ConnEvent) (idx : U16) (event : TracedEvent)
    (named : nameEvent set (decodeConnEvent raw) idx = some event) : Labelled (some set) event := by
  rw [nameEvent] at named
  rcases Option.map_eq_some_iff.mp named with ⟨name, found, rfl⟩
  exact ⟨set, rfl, found⟩

/-- No decision of the loop runs past the names. -/
theorem decide_event_cases (cel : Cel) (cfg : List Config) (t : Tracer)
    (built : initFilters cel cfg = .ok t.filterSet) (raw : ConnEvent)
    (source : CgroupAttrs × Bool) :
    decideEvent t raw source = .droppedUserspace ∨
      ∃ event, Labelled t.filterSet event ∧
        (decideEvent t raw source = .passedBPF event ∨
          decideEvent t raw source = .passedUserspace event) := by
  unfold decideEvent
  cases sets : t.filterSet with
  | none => exact Or.inl rfl
  | some set =>
      rw [sets] at built
      have accepted := init_filters_compiled cel cfg set built
      dsimp only
      by_cases named : namedByKernel set raw = true
      · have inside := (named_by_kernel_iff cel cfg set accepted raw).mp named
        have event := name_event_inside set (decodeConnEvent raw) raw.filterIdx inside
        rw [if_pos named, event]
        exact Or.inr ⟨_, named_event_labelled set raw _ _ event, Or.inl rfl⟩
      · rw [if_neg named]
        cases found : (resolveFilter set raw source).index with
        | none => exact Or.inl rfl
        | some index =>
            rcases evaluate_index cel cfg set accepted _ index found with ⟨inside, value⟩
            have event := name_event_inside set (decodeConnEvent raw) (BitVec.ofNat 16 index)
              (by rw [value]; exact inside)
            dsimp only
            rw [event]
            exact Or.inr ⟨_, named_event_labelled set raw _ _ event, Or.inr rfl⟩

/-- The event a decision passes on. -/
def Decision.event : Decision → Option TracedEvent
  | .passedBPF event => some event
  | .passedUserspace event => some event
  | .droppedUserspace => none
  | .outOfRange => none

theorem hand_over_events (t : Tracer) (done : Bool) (event : TracedEvent) (s : ReaderState)
    (sending : s.abandoned = []) :
    (handOver t done event s).handed ++ (handOver t done event s).abandoned =
      s.handed ++ s.abandoned ++ [event] := by
  unfold handOver
  by_cases given : (t.events && done) = true
  · rw [if_pos given, List.append_assoc]
  · rw [if_neg given, sending, List.append_nil, List.append_nil]

/-- What one decoded sample adds to the events passed on and to the counters. -/
theorem read_record_decoded (t : Tracer) (s : ReaderState) (read : Read) (raw : ConnEvent)
    (running : s.status = .running) (sending : s.abandoned = [])
    (decoded : binaryRead read.sample = .ok raw) :
    (readRecord t s read).handed ++ (readRecord t s read).abandoned =
        s.handed ++ s.abandoned ++ (decideEvent t raw read.source).event.toList ∧
      (readRecord t s read).eventsTotal = s.eventsTotal + 1 ∧
      (readRecord t s read).decodeErrors = s.decodeErrors := by
  rcases note_resolution_shape t raw read.source
    { s with eventsTotal := s.eventsTotal + 1 } with ⟨updates, mismatches, shape⟩
  rw [readRecord, if_pos running, decoded]
  dsimp only
  rw [shape]
  have handed (event : TracedEvent) (bpf userspace : Nat) :
      (handOver t read.done event { s with
          eventsTotal := s.eventsTotal + 1
          updates := updates
          verifyMismatches := mismatches
          passedBPF := bpf
          passedUserspace := userspace }).eventsTotal = s.eventsTotal + 1 ∧
        (handOver t read.done event { s with
          eventsTotal := s.eventsTotal + 1
          updates := updates
          verifyMismatches := mismatches
          passedBPF := bpf
          passedUserspace := userspace }).decodeErrors = s.decodeErrors := by
    unfold handOver
    split_ifs
    · exact ⟨rfl, rfl⟩
    · exact ⟨rfl, rfl⟩
  cases decideEvent t raw read.source with
  | droppedUserspace => exact ⟨(List.append_nil _).symm, rfl, rfl⟩
  | outOfRange => exact ⟨(List.append_nil _).symm, rfl, rfl⟩
  | passedBPF event =>
      constructor
      · exact hand_over_events t read.done event _ sending
      · exact handed event (s.passedBPF + 1) s.passedUserspace
  | passedUserspace event =>
      constructor
      · exact hand_over_events t read.done event _ sending
      · exact handed event s.passedBPF (s.passedUserspace + 1)

theorem decided_event_named (t : Tracer) (raw : ConnEvent) (source : CgroupAttrs × Bool)
    (event : TracedEvent) (passed : (decideEvent t raw source).event = some event) :
    ∃ set idx, nameEvent set (decodeConnEvent raw) idx = some event := by
  unfold decideEvent at passed
  cases sets : t.filterSet with
  | none =>
      rw [sets] at passed
      cases passed
  | some set =>
      rw [sets] at passed
      dsimp only at passed
      by_cases named : namedByKernel set raw = true
      · rw [if_pos named] at passed
        cases found : nameEvent set (decodeConnEvent raw) raw.filterIdx with
        | none =>
            rw [found] at passed
            cases passed
        | some other =>
            rw [found] at passed
            cases passed
            exact ⟨set, raw.filterIdx, found⟩
      · rw [if_neg named] at passed
        cases index : (resolveFilter set raw source).index with
        | none =>
            rw [index] at passed
            cases passed
        | some i =>
            rw [index] at passed
            dsimp only at passed
            cases found : nameEvent set (decodeConnEvent raw) (BitVec.ofNat 16 i) with
            | none =>
                rw [found] at passed
                cases passed
            | some other =>
                rw [found] at passed
                cases passed
                exact ⟨set, BitVec.ofNat 16 i, found⟩

/-- The counters of the loop against the events it has dealt with. The one event whose
send was given up counts as passed. -/
structure Accounted (filterSet : Option FilterSet) (s : ReaderState) : Prop where
  status : s.status ≠ .panicked
  total : s.eventsTotal = s.decodeErrors + s.droppedUserspace + s.passedBPF + s.passedUserspace
  passed : s.passedBPF + s.passedUserspace = (s.handed ++ s.abandoned).length
  matched : ∀ name, s.filterMatched name =
    (s.handed ++ s.abandoned).countP fun event => event.filterName = name
  labelled : ∀ event ∈ s.handed ++ s.abandoned, Labelled filterSet event
  sending : s.status = .running → s.abandoned = []
  givenUp : s.abandoned.length ≤ 1

/-- A passed event is counted once in all, once under its name, and kept once. -/
theorem hand_over_accounted (t : Tracer) (s : ReaderState) (accounted : Accounted t.filterSet s)
    (running : s.status = .running) (done : Bool) (event : TracedEvent)
    (labelled : Labelled t.filterSet event) (updates : List (U64 × U64))
    (mismatches bpf userspace : Nat)
    (one : bpf + userspace = s.passedBPF + s.passedUserspace + 1) :
    Accounted t.filterSet
      (handOver t done event
        { s with
          eventsTotal := s.eventsTotal + 1
          updates := updates
          verifyMismatches := mismatches
          passedBPF := bpf
          passedUserspace := userspace }) := by
  have none : s.abandoned = [] := accounted.sending running
  have total := accounted.total
  have passed := accounted.passed
  have matched := accounted.matched
  have before := accounted.labelled
  rw [none, List.append_nil] at passed before
  have count : ∀ name, (if name = event.filterName then s.filterMatched name + 1
      else s.filterMatched name) =
      (s.handed ++ [event]).countP fun event => event.filterName = name := by
    intro name
    have kept := matched name
    rw [none, List.append_nil] at kept
    rw [List.countP_append, ← kept, List.countP_singleton]
    by_cases same : name = event.filterName
    · simp [same]
    · have other : ¬event.filterName = name := fun equal => same equal.symm
      simp [same, other]
  have named : ∀ other ∈ s.handed ++ [event], Labelled t.filterSet other := by
    intro other member
    rcases List.mem_append.mp member with earlier | last
    · exact before other earlier
    · rw [List.mem_singleton.mp last]
      exact labelled
  have length : bpf + userspace = (s.handed ++ [event]).length := by
    rw [List.length_append, List.length_singleton]
    omega
  unfold handOver
  by_cases given : (t.events && done) = true
  · rw [if_pos given]
    constructor
    · exact fun panicked => by cases panicked
    · change s.eventsTotal + 1 = s.decodeErrors + s.droppedUserspace + bpf + userspace
      omega
    · change bpf + userspace = (s.handed ++ (s.abandoned ++ [event])).length
      rw [none, List.nil_append]
      exact length
    · intro name
      change _ = (s.handed ++ (s.abandoned ++ [event])).countP _
      rw [none, List.nil_append]
      exact count name
    · change ∀ other ∈ s.handed ++ (s.abandoned ++ [event]), Labelled t.filterSet other
      rw [none, List.nil_append]
      exact named
    · intro again
      cases again
    · change (s.abandoned ++ [event]).length ≤ 1
      rw [none, List.nil_append, List.length_singleton]
  · rw [if_neg given]
    constructor
    · change s.status ≠ .panicked
      exact accounted.status
    · change s.eventsTotal + 1 = s.decodeErrors + s.droppedUserspace + bpf + userspace
      omega
    · change bpf + userspace = (s.handed ++ [event] ++ s.abandoned).length
      rw [none, List.append_nil]
      exact length
    · intro name
      change _ = (s.handed ++ [event] ++ s.abandoned).countP _
      rw [none, List.append_nil]
      exact count name
    · change ∀ other ∈ s.handed ++ [event] ++ s.abandoned, Labelled t.filterSet other
      rw [none, List.append_nil]
      exact named
    · exact accounted.sending
    · exact accounted.givenUp

/-- An event that goes no further is counted once in all and once under its reason. -/
theorem ended_accounted (filterSet : Option FilterSet) (s : ReaderState)
    (accounted : Accounted filterSet s) (updates : List (U64 × U64))
    (mismatches errors dropped : Nat)
    (one : errors + dropped = s.decodeErrors + s.droppedUserspace + 1) :
    Accounted filterSet
      { s with
        eventsTotal := s.eventsTotal + 1
        updates := updates
        verifyMismatches := mismatches
        decodeErrors := errors
        droppedUserspace := dropped } where
  status := accounted.status
  total := by
    have total := accounted.total
    change s.eventsTotal + 1 = errors + dropped + s.passedBPF + s.passedUserspace
    omega
  passed := accounted.passed
  matched := accounted.matched
  labelled := accounted.labelled
  sending := accounted.sending
  givenUp := accounted.givenUp

theorem read_record_accounted (cel : Cel) (cfg : List Config) (t : Tracer)
    (built : initFilters cel cfg = .ok t.filterSet) (s : ReaderState) (read : Read)
    (accounted : Accounted t.filterSet s) : Accounted t.filterSet (readRecord t s read) := by
  rw [readRecord]
  by_cases running : s.status = .running
  · rw [if_pos running]
    cases binaryRead read.sample with
    | error problem =>
        exact ended_accounted t.filterSet s accounted s.updates s.verifyMismatches
          (s.decodeErrors + 1) s.droppedUserspace (by omega)
    | ok raw =>
        dsimp only
        rcases note_resolution_shape t raw read.source
          { s with eventsTotal := s.eventsTotal + 1 } with ⟨updates, mismatches, shape⟩
        rw [shape]
        rcases decide_event_cases cel cfg t built raw read.source with
          dropped | ⟨event, labelled, passed | passed⟩
        · rw [dropped]
          exact ended_accounted t.filterSet s accounted updates mismatches s.decodeErrors
            (s.droppedUserspace + 1) (by omega)
        · rw [passed]
          exact hand_over_accounted t s accounted running read.done event labelled updates mismatches
            (s.passedBPF + 1) s.passedUserspace (by omega)
        · rw [passed]
          exact hand_over_accounted t s accounted running read.done event labelled updates mismatches
            s.passedBPF (s.passedUserspace + 1) (by omega)
  · rw [if_neg running]
    exact accounted

theorem reader_start_accounted (filterSet : Option FilterSet) : Accounted filterSet {} := by
  constructor
  · exact fun panicked => by cases panicked
  · rfl
  · rfl
  · intro name
    rfl
  · intro event member
    cases member
  · intro running
    rfl
  · exact Nat.zero_le 1

end KoAgent.EventReader
