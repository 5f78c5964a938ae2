import KoAgent.FixedLayouts
import KoAgent.SocketHandlers

/-!
# The bytes that cross between the kernel and user space

`struct conn_event_t` goes up: `submit_conn_evt` clears the reserved record and
stores its fields in its own order, at the offsets the C compiler gives them, and
`binary.Read` takes the sample apart as `tracerConnEventT`, whose last member is
an explicit blank of two bytes. `struct ko_prog` goes down: the map update copies
the Go value `Prog`, and `ko_filter_eval` loads the members it needs.
-/

namespace KoAgent.WireFormats

open KoAgent.ByteWords KoAgent.FixedLayouts KoAgent.FilterModel KoAgent.KernelCidr
open KoAgent.KernelFilter KoAgent.SocketHandlers

set_option autoImplicit false

def u8 : Codec U8 := word 1
def u16 : Codec U16 := word 2
def u32 : Codec U32 := word 4
def u64 : Codec U64 := word 8

/-- The members of `struct conn_event_t`. -/
inductive EventField where
  | ts
  | pid
  | error
  | comm
  | family
  | localPort
  | remotePort
  | type
  | localIP
  | remoteIP
  | cgroupID
  | lifeUS
  | rttUS
  | retransmits
  | segsOut
  | sndCwnd
  | sndSsthresh
  | sndWnd
  | rcvWnd
  | filterIdx
  deriving DecidableEq

abbrev EventField.Value : EventField → Type
  | .ts | .cgroupID | .lifeUS => U64
  | .family | .localPort | .remotePort | .type | .filterIdx => U16
  | .comm | .localIP | .remoteIP => Fin 16 → U8
  | .pid | .error | .rttUS | .retransmits | .segsOut | .sndCwnd | .sndSsthresh | .sndWnd
  | .rcvWnd => U32

def EventField.codec : ∀ field : EventField, Codec field.Value
  | .ts | .cgroupID | .lifeUS => u64
  | .family | .localPort | .remotePort | .type | .filterIdx => u16
  | .comm | .localIP | .remoteIP => array u8 16
  | .pid | .error | .rttUS | .retransmits | .segsOut | .sndCwnd | .sndSsthresh | .sndWnd
  | .rcvWnd => u32

/-- The order in which both declarations list the members. -/
def eventFields : List EventField :=
  [.ts, .pid, .error, .comm, .family, .localPort, .remotePort, .type, .localIP, .remoteIP,
    .cgroupID, .lifeUS, .rttUS, .retransmits, .segsOut, .sndCwnd, .sndSsthresh, .sndWnd, .rcvWnd,
    .filterIdx]

def eventField (raw : ConnEvent) : ∀ field : EventField, field.Value
  | .ts => raw.ts
  | .pid => raw.pid
  | .error => raw.error
  | .comm => raw.comm
  | .family => raw.family
  | .localPort => raw.localPort
  | .remotePort => raw.remotePort
  | .type => raw.type
  | .localIP => raw.localIP
  | .remoteIP => raw.remoteIP
  | .cgroupID => raw.cgroupID
  | .lifeUS => raw.lifeUS
  | .rttUS => raw.rttUS
  | .retransmits => raw.retransmits
  | .segsOut => raw.segsOut
  | .sndCwnd => raw.sndCwnd
  | .sndSsthresh => raw.sndSsthresh
  | .sndWnd => raw.sndWnd
  | .rcvWnd => raw.rcvWnd
  | .filterIdx => raw.filterIdx

def eventOfFields (field : ∀ field : EventField, field.Value) : ConnEvent where
  ts := field .ts
  pid := field .pid
  error := field .error
  comm := field .comm
  family := field .family
  localPort := field .localPort
  remotePort := field .remotePort
  type := field .type
  localIP := field .localIP
  remoteIP := field .remoteIP
  cgroupID := field .cgroupID
  lifeUS := field .lifeUS
  rttUS := field .rttUS
  retransmits := field .retransmits
  segsOut := field .segsOut
  sndCwnd := field .sndCwnd
  sndSsthresh := field .sndSsthresh
  sndWnd := field .sndWnd
  rcvWnd := field .rcvWnd
  filterIdx := field .filterIdx

def eventOffset (field : EventField) : Nat := cOffset EventField.codec 0 eventFields field

def eventSize : Nat := cSize EventField.codec eventFields

/-- One assignment to a member of the reserved record. -/
def assign (field : EventField) (value : field.Value) : Write where
  offset := eventOffset field
  bytes := field.codec.encode value

/-- The copies of `fill_addrs` into the two address members. -/
def fillAddrs (family : U16) (addrs : SockAddrs) : List Write :=
  if family = afInet then
    [{ offset := eventOffset .localIP, bytes := (List.ofFn addrs.localIP).take 4 },
      { offset := eventOffset .remoteIP, bytes := (List.ofFn addrs.remoteIP).take 4 }]
  else if family = afInet6 then
    [{ offset := eventOffset .localIP, bytes := List.ofFn addrs.localIP },
      { offset := eventOffset .remoteIP, bytes := List.ofFn addrs.remoteIP }]
  else []

/-- The stores of `submit_conn_evt`, in its order. -/
def eventWrites (call : Call) (sub : Submission) (filterIdx : U16) : List Write :=
  [assign .ts call.submitNow,
    assign .lifeUS (lifeUS call sub.cctx),
    assign .type sub.type,
    assign .pid (attrResolve call.sk sub.cctx).pid,
    assign .cgroupID (attrResolve call.sk sub.cctx).cgroupID,
    assign .comm (attrResolve call.sk sub.cctx).comm,
    assign .family sub.endpoints.family,
    assign .localPort sub.endpoints.sport,
    assign .remotePort sub.endpoints.dport] ++
  fillAddrs sub.endpoints.family sub.endpoints.addrs ++
  [assign .error call.sk.skErr,
    assign .rttUS (call.sk.srttUS >>> 3),
    assign .retransmits call.sk.totalRetrans,
    assign .segsOut call.sk.segsOut,
    assign .sndCwnd call.sk.sndCwnd,
    assign .sndSsthresh call.sk.sndSsthresh,
    assign .sndWnd call.sk.sndWnd,
    assign .rcvWnd call.sk.rcvWnd,
    assign .filterIdx filterIdx]

/-- The sample in the ring buffer: the record cleared, then stored field by field. -/
def eventSample (call : Call) (sub : Submission) (filterIdx : U16) : List Byte :=
  storeAll (List.replicate eventSize 0) (eventWrites call sub filterIdx)

inductive ReadError where
  | eof
  | unexpectedEOF
  deriving DecidableEq

/-- `dataSize` of `tracerConnEventT`: its members and the blank at its end. -/
def rawEventSize : Nat := packedSize EventField.codec eventFields + 2

/-- `binary.Read` with the little-endian order: `io.ReadFull` first, then the
members one after the other. -/
def binaryRead (sample : List Byte) : Except ReadError ConnEvent :=
  if sample.length = 0 then .error .eof
  else if sample.length < rawEventSize then .error .unexpectedEOF
  else .ok (eventOfFields (readPacked EventField.codec eventFields (sample.take rawEventSize)))

theorem event_fields_complete (field : EventField) : field ∈ eventFields := by
  cases field <;> decide

theorem event_offset_packed (field : EventField) :
    eventOffset field = packedOffset EventField.codec eventFields field := by
  rw [eventOffset, c_offset_packed EventField.codec eventFields 0 (by decide) field
    (event_fields_complete field), Nat.zero_add]

theorem assign_span (field : EventField) (value : field.Value) :
    (assign field value).span = (eventOffset field, field.codec.width) := by
  rw [Write.span, assign, field.codec.encode_width]

/-- The stretches `fill_addrs` writes. -/
def addrSpans (family : U16) : List Span :=
  if family = afInet then [(40, 4), (56, 4)]
  else if family = afInet6 then [(40, 16), (56, 16)]
  else []

def eventSpans (family : U16) : List Span :=
  [(0, 8), (80, 8), (38, 2), (8, 4), (72, 8), (16, 16), (32, 2), (34, 2), (36, 2)] ++
    addrSpans family ++
    [(12, 4), (88, 4), (92, 4), (96, 4), (100, 4), (104, 4), (108, 4), (112, 4), (116, 2)]

theorem fill_addrs_spans (family : U16) (addrs : SockAddrs) :
    (fillAddrs family addrs).map Write.span = addrSpans family := by
  by_cases four : family = afInet
  · rw [fillAddrs, addrSpans, if_pos four, if_pos four]
    simp only [List.map_cons, List.map_nil, Write.span, List.length_take, List.length_ofFn]
    rfl
  · by_cases six : family = afInet6
    · rw [fillAddrs, addrSpans, if_neg four, if_neg four, if_pos six, if_pos six]
      simp only [List.map_cons, List.map_nil, Write.span, List.length_ofFn]
      rfl
    · rw [fillAddrs, addrSpans, if_neg four, if_neg four, if_neg six, if_neg six]
      rfl

theorem event_writes_spans (call : Call) (sub : Submission) (filterIdx : U16) :
    (eventWrites call sub filterIdx).map Write.span = eventSpans sub.endpoints.family := by
  rw [eventWrites, List.map_append, List.map_append, fill_addrs_spans]
  simp only [List.map_cons, List.map_nil, assign_span]
  rfl

theorem event_writes_separate (call : Call) (sub : Submission) (filterIdx : U16) :
    Separate eventSize ((eventWrites call sub filterIdx).map Write.span) := by
  rw [event_writes_spans, eventSpans, addrSpans]
  split_ifs <;> decide

theorem event_sample_length (call : Call) (sub : Submission) (filterIdx : U16) :
    (eventSample call sub filterIdx).length = eventSize := by
  have cleared : (List.replicate eventSize (0 : Byte)).length = eventSize := List.length_replicate
  rw [eventSample, store_all_length, cleared]
  rw [cleared]
  exact writes_inside eventSize _ (event_writes_separate call sub filterIdx)

/-- What one store of the handler left in the sample. -/
theorem event_sample_slice (call : Call) (sub : Submission) (filterIdx : U16) (write : Write)
    (member : write ∈ eventWrites call sub filterIdx) :
    slice (eventSample call sub filterIdx) write.offset write.bytes.length = write.bytes := by
  apply slice_store_all
  · rw [List.length_replicate]
    exact event_writes_separate call sub filterIdx
  · exact member

theorem event_sample_assigned (call : Call) (sub : Submission) (filterIdx : U16)
    (field : EventField) (value : field.Value)
    (member : assign field value ∈ eventWrites call sub filterIdx) :
    readPacked EventField.codec eventFields (eventSample call sub filterIdx) field = value := by
  have stored := event_sample_slice call sub filterIdx (assign field value) member
  change slice (eventSample call sub filterIdx) (eventOffset field)
    (field.codec.encode value).length = field.codec.encode value at stored
  rw [field.codec.encode_width, event_offset_packed] at stored
  rw [readPacked, stored, field.codec.decode_encode]

theorem byte_array_bytes (bytes : Fin 16 → U8) : (array u8 16).encode bytes = List.ofFn bytes := by
  have single (byte : U8) : u8.encode byte = [byte] := by
    change [byte.extractLsb' 0 8] = [byte]
    simp
  change (List.ofFn fun index => u8.encode (bytes index)).flatten = List.ofFn bytes
  simp only [single]
  rfl

theorem event_sample_cleared (call : Call) (sub : Submission) (filterIdx : U16) (offset count : Nat)
    (inside : offset + count ≤ eventSize)
    (clear : ∀ span ∈ eventSpans sub.endpoints.family, Apart (offset, count) span) :
    slice (eventSample call sub filterIdx) offset count = List.replicate count 0 := by
  have untouched : ∀ write ∈ eventWrites call sub filterIdx, Apart (offset, count) write.span := by
    intro write member
    apply clear
    rw [← event_writes_spans call sub filterIdx]
    exact List.mem_map_of_mem member
  rw [eventSample, slice_store_all_clear _ _ _ offset count untouched]
  · rw [slice, List.drop_replicate, List.take_replicate]
    congr 1
    omega
  · rw [List.length_replicate]
    exact writes_inside eventSize _ (event_writes_separate call sub filterIdx)

/-- An address member of the sample: what `fill_addrs` copied, and zeros behind it. -/
theorem event_sample_addr (call : Call) (sub : Submission) (filterIdx : U16) (offset : Nat)
    (address : Fin 16 → U8)
    (four : sub.endpoints.family = afInet →
      { offset := offset, bytes := (List.ofFn address).take 4 } ∈ eventWrites call sub filterIdx)
    (six : sub.endpoints.family = afInet6 →
      { offset := offset, bytes := List.ofFn address } ∈ eventWrites call sub filterIdx)
    (place : offset = 40 ∨ offset = 56) :
    slice (eventSample call sub filterIdx) offset 16 =
      List.ofFn (fillAddr sub.endpoints.family address) := by
  rw [fillAddr]
  by_cases v4 : sub.endpoints.family = afInet
  · have front := event_sample_slice call sub filterIdx _ (four v4)
    rw [List.length_take, List.length_ofFn] at front
    change slice (eventSample call sub filterIdx) offset 4 = (List.ofFn address).take 4 at front
    have behind : slice (eventSample call sub filterIdx) (offset + 4) 12 = List.replicate 12 0 := by
      apply event_sample_cleared
      · rcases place with rfl | rfl <;> decide
      · rw [v4]
        rcases place with rfl | rfl <;> decide
    have parts := slice_append (eventSample call sub filterIdx) offset 4 12
    rw [front, behind] at parts
    rw [if_pos v4]
    exact parts
  · by_cases v6 : sub.endpoints.family = afInet6
    · have whole := event_sample_slice call sub filterIdx _ (six v6)
      rw [List.length_ofFn] at whole
      rw [if_neg v4, if_pos v6]
      exact whole
    · have empty : slice (eventSample call sub filterIdx) offset 16 = List.replicate 16 0 := by
        apply event_sample_cleared
        · rcases place with rfl | rfl <;> decide
        · rw [eventSpans, addrSpans, if_neg v4, if_neg v6]
          rcases place with rfl | rfl <;> decide
      rw [empty, if_neg v4, if_neg v6]
      rfl

theorem read_byte_array (bytes : Fin 16 → U8) : (array u8 16).decode (List.ofFn bytes) = bytes := by
  rw [← byte_array_bytes, (array u8 16).decode_encode]

theorem fill_addrs_listed (call : Call) (sub : Submission) (filterIdx : U16) (write : Write)
    (member : write ∈ fillAddrs sub.endpoints.family sub.endpoints.addrs) :
    write ∈ eventWrites call sub filterIdx := by
  rw [eventWrites]
  exact List.mem_append_left _ (List.mem_append_right _ member)

theorem event_sample_local (call : Call) (sub : Submission) (filterIdx : U16) :
    readPacked EventField.codec eventFields (eventSample call sub filterIdx) .localIP =
      fillAddr sub.endpoints.family sub.endpoints.addrs.localIP := by
  have stored := event_sample_addr call sub filterIdx (eventOffset .localIP)
    sub.endpoints.addrs.localIP
    (fun v4 => fill_addrs_listed call sub filterIdx _ (by
      rw [fillAddrs, if_pos v4]
      exact List.mem_cons_self))
    (fun v6 => fill_addrs_listed call sub filterIdx _ (by
      rw [fillAddrs, v6, if_neg (by decide), if_pos rfl]
      exact List.mem_cons_self))
    (Or.inl rfl)
  rw [event_offset_packed] at stored
  change (array u8 16).decode (slice (eventSample call sub filterIdx)
    (packedOffset EventField.codec eventFields .localIP) 16) = _
  rw [stored, read_byte_array]

theorem event_sample_remote (call : Call) (sub : Submission) (filterIdx : U16) :
    readPacked EventField.codec eventFields (eventSample call sub filterIdx) .remoteIP =
      fillAddr sub.endpoints.family sub.endpoints.addrs.remoteIP := by
  have stored := event_sample_addr call sub filterIdx (eventOffset .remoteIP)
    sub.endpoints.addrs.remoteIP
    (fun v4 => fill_addrs_listed call sub filterIdx _ (by
      rw [fillAddrs, if_pos v4]
      exact List.mem_cons_of_mem _ List.mem_cons_self))
    (fun v6 => fill_addrs_listed call sub filterIdx _ (by
      rw [fillAddrs, v6, if_neg (by decide), if_pos rfl]
      exact List.mem_cons_of_mem _ List.mem_cons_self))
    (Or.inr rfl)
  rw [event_offset_packed] at stored
  change (array u8 16).decode (slice (eventSample call sub filterIdx)
    (packedOffset EventField.codec eventFields .remoteIP) 16) = _
  rw [stored, read_byte_array]

theorem event_sample_field (call : Call) (sub : Submission) (filterIdx : U16)
    (field : EventField) :
    readPacked EventField.codec eventFields (eventSample call sub filterIdx) field =
      eventField (connEvent call sub filterIdx) field := by
  cases field with
  | localIP => exact event_sample_local call sub filterIdx
  | remoteIP => exact event_sample_remote call sub filterIdx
  | _ =>
      apply event_sample_assigned
      simp [eventWrites, eventField, connEvent]

theorem binary_read_ok_iff (sample : List Byte) (raw : ConnEvent) :
    binaryRead sample = .ok raw ↔
      rawEventSize ≤ sample.length ∧
        eventOfFields (readPacked EventField.codec eventFields (sample.take rawEventSize)) = raw := by
  have positive : 0 < rawEventSize := by decide
  rw [binaryRead]
  split_ifs with empty short
  · constructor
    · intro failed
      cases failed
    · intro found
      rcases found with ⟨long, -⟩
      omega
  · constructor
    · intro failed
      cases failed
    · intro found
      rcases found with ⟨long, -⟩
      omega
  · constructor
    · intro read
      cases read
      exact ⟨by omega, rfl⟩
    · intro found
      rcases found with ⟨-, same⟩
      rw [same]

/-- `binary.Read` recovers the record whose fields the handler stored. -/
theorem sample_read_back (call : Call) (sub : Submission) (filterIdx : U16) :
    binaryRead (eventSample call sub filterIdx) = .ok (connEvent call sub filterIdx) := by
  have length := event_sample_length call sub filterIdx
  have size : rawEventSize = eventSize := by decide
  apply (binary_read_ok_iff _ _).mpr
  constructor
  · rw [length, size]
  · rw [size, ← length, List.take_length]
    have fields : readPacked EventField.codec eventFields (eventSample call sub filterIdx) =
        eventField (connEvent call sub filterIdx) := by
      funext field
      exact event_sample_field call sub filterIdx field
    rw [fields]
    rfl

/-- Behind a whole sample nothing matters to `binary.Read`; of a sample that is cut
off it decodes nothing. -/
theorem event_bytes_faithful (call : Call) (sub : Submission) (filterIdx : U16) :
    (∀ behind, binaryRead (eventSample call sub filterIdx ++ behind) =
        .ok (connEvent call sub filterIdx)) ∧
      ∀ kept < eventSize, ∃ problem,
        binaryRead ((eventSample call sub filterIdx).take kept) = .error problem := by
  have length := event_sample_length call sub filterIdx
  have size : rawEventSize = eventSize := by decide
  constructor
  · intro behind
    rcases (binary_read_ok_iff _ _).mp (sample_read_back call sub filterIdx) with ⟨long, fields⟩
    apply (binary_read_ok_iff _ _).mpr
    constructor
    · rw [List.length_append]
      exact Nat.le_add_right_of_le long
    · rw [List.take_append_of_le_length long]
      exact fields
  · intro kept short
    cases outcome : binaryRead ((eventSample call sub filterIdx).take kept) with
    | error problem => exact ⟨problem, rfl⟩
    | ok raw =>
        have long := ((binary_read_ok_iff _ raw).mp outcome).1
        rw [List.length_take, length, size] at long
        omega

theorem event_fields_distinct : eventFields.Nodup := by decide

theorem packed_of_read (sample : List Byte) (raw : ConnEvent) (read : binaryRead sample = .ok raw) :
    rawEventSize ≤ sample.length ∧
      packed EventField.codec eventFields (eventField raw) =
        sample.take (packedSize EventField.codec eventFields) := by
  rcases (binary_read_ok_iff sample raw).mp read with ⟨long, rfl⟩
  have covered : packedSize EventField.codec eventFields ≤ rawEventSize := Nat.le_add_right _ 2
  have fields := packed_read EventField.codec eventFields event_fields_distinct
    (sample.take rawEventSize) (by
      rw [List.length_take]
      omega)
  rw [List.take_take, Nat.min_eq_left covered] at fields
  exact ⟨long, fields⟩

/-- Of a sample that decodes, the record keeps everything but the blank. -/
theorem sample_determines_record (sample other : List Byte) (raw : ConnEvent)
    (read : binaryRead sample = .ok raw) :
    binaryRead other = .ok raw ↔ 120 ≤ other.length ∧ other.take 118 = sample.take 118 := by
  rcases packed_of_read sample raw read with ⟨long, covered⟩
  constructor
  · intro same
    rcases packed_of_read other raw same with ⟨enough, equal⟩
    exact ⟨enough, equal.symm.trans covered⟩
  · intro found
    rcases found with ⟨enough, equal⟩
    rcases (binary_read_ok_iff sample raw).mp read with ⟨-, fields⟩
    apply (binary_read_ok_iff other raw).mpr
    refine ⟨enough, ?_⟩
    rw [← fields]
    congr 1
    funext field
    have inside : packedOffset EventField.codec eventFields field + field.codec.width ≤ 118 := by
      cases field <;> decide
    have cut (bytes : List Byte) :
        slice (bytes.take rawEventSize) (packedOffset EventField.codec eventFields field)
            field.codec.width =
          slice (bytes.take 118) (packedOffset EventField.codec eventFields field)
            field.codec.width := by
      have outer := slice_slice bytes 0 rawEventSize _ _
        (Nat.le_trans inside (show 118 ≤ rawEventSize by decide))
      have inner := slice_slice bytes 0 118 _ _ inside
      exact outer.trans inner.symm
    rw [readPacked, readPacked, cut, cut, equal]

example : eventSize = 120 ∧ eventOffset .type = 38 ∧ eventOffset .filterIdx = 116 := by decide

/-- Samples that differ only in the blank give one record. -/
theorem sample_blank_ignored :
    ∃ raw, binaryRead (List.replicate 120 0) = .ok raw ∧
      binaryRead (List.replicate 118 0 ++ [1, 2]) = .ok raw := by
  have read := (binary_read_ok_iff (List.replicate 120 0) _).mpr ⟨by decide, rfl⟩
  refine ⟨_, read, ?_⟩
  apply (sample_determines_record _ (List.replicate 118 0 ++ [1, 2]) _ read).mpr
  decide

/-- The members of `struct ko_pred`. -/
inductive PredField where
  | val
  | kind
  | a
  | b
  | n
  | plen
  | fam
  | addr
  deriving DecidableEq

abbrev PredField.Value : PredField → Type
  | .val => U64
  | .kind | .a | .b | .n => U8
  | .plen => Fin maxIPSet → U16
  | .fam => Fin maxIPSet → U8
  | .addr => Fin maxIPSet → Fin 16 → U8

def PredField.codec : ∀ field : PredField, Codec field.Value
  | .val => u64
  | .kind | .a | .b | .n => u8
  | .plen => array u16 maxIPSet
  | .fam => array u8 maxIPSet
  | .addr => array (array u8 16) maxIPSet

def predFields : List PredField := [.val, .kind, .a, .b, .n, .plen, .fam, .addr]

def predField (p : Pred) : ∀ field : PredField, field.Value
  | .val => p.val
  | .kind => p.kind
  | .a => p.a
  | .b => p.b
  | .n => p.n
  | .plen => p.plen
  | .fam => p.fam
  | .addr => p.addr

def predOfFields (field : ∀ field : PredField, field.Value) : Pred where
  val := field .val
  kind := field .kind
  a := field .a
  b := field .b
  n := field .n
  plen := field .plen
  fam := field .fam
  addr := field .addr

theorem pred_fields_complete (field : PredField) : field ∈ predFields := by
  cases field <;> decide

theorem pred_field_of_fields (field : ∀ field : PredField, field.Value) :
    predField (predOfFields field) = field := by
  funext name
  cases name <;> rfl

/-- The Go struct `Pred`, which has no gaps. -/
def predCodec : Codec Pred :=
  (record PredField.codec predFields pred_fields_complete (by decide)).transfer predOfFields predField
    (fun _ => rfl) pred_field_of_fields

/-- The members of `struct ko_prog`. -/
inductive ProgField where
  | nFilters
  | nPreds
  | preds
  deriving DecidableEq

abbrev ProgField.Value : ProgField → Type
  | .nFilters | .nPreds => U32
  | .preds => Fin maxPreds → Pred

def ProgField.codec : ∀ field : ProgField, Codec field.Value
  | .nFilters | .nPreds => u32
  | .preds => array predCodec maxPreds

def progFields : List ProgField := [.nFilters, .nPreds, .preds]

def progField (prog : Prog) : ∀ field : ProgField, field.Value
  | .nFilters => prog.nFilters
  | .nPreds => prog.nPreds
  | .preds => prog.preds

def progOfFields (field : ∀ field : ProgField, field.Value) : Prog where
  nFilters := field .nFilters
  nPreds := field .nPreds
  preds := field .preds

theorem prog_fields_complete (field : ProgField) : field ∈ progFields := by
  cases field <;> decide

theorem prog_field_of_fields (field : ∀ field : ProgField, field.Value) :
    progField (progOfFields field) = field := by
  funext name
  cases name <;> rfl

def progCodec : Codec Prog :=
  (record ProgField.codec progFields prog_fields_complete (by decide)).transfer progOfFields progField
    (fun _ => rfl) prog_field_of_fields

/-- The bytes the update of `ko_filter_prog` copies. -/
def progBytes (prog : Prog) : List Byte := progCodec.encode prog

def predOffset (field : PredField) : Nat := cOffset PredField.codec 0 predFields field

def predSize : Nat := cSize PredField.codec predFields

def progOffset (field : ProgField) : Nat := cOffset ProgField.codec 0 progFields field

def progSize : Nat := cSize ProgField.codec progFields

/-- The members of the `struct ko_pred` at `base`. -/
def loadPred (memory : List Byte) (base : Nat) : Pred :=
  predOfFields fun field =>
    field.codec.decode (slice memory (base + predOffset field) field.codec.width)

/-- What `ko_filter_eval` loads through its pointer into the map. -/
def loadProg (memory : List Byte) : Prog where
  nFilters := u32.decode (slice memory (progOffset .nFilters) 4)
  nPreds := u32.decode (slice memory (progOffset .nPreds) 4)
  preds := fun k => loadPred memory (progOffset .preds + k.val * predSize)

theorem load_pred_decode (memory : List Byte) (base : Nat) :
    loadPred memory base = predCodec.decode (slice memory base predSize) := by
  change predOfFields _ = predOfFields (readPacked PredField.codec predFields (slice memory base predSize))
  congr 1
  funext field
  have inside : packedOffset PredField.codec predFields field + field.codec.width ≤ predSize := by
    cases field <;> decide
  rw [predOffset, c_offset_packed PredField.codec predFields 0 (by decide) field
    (pred_fields_complete field), Nat.zero_add, readPacked, slice_slice _ _ _ _ _ inside]

theorem load_prog_decode (memory : List Byte) : loadProg memory = progCodec.decode memory := by
  change _ = progOfFields (readPacked ProgField.codec progFields memory)
  have entries : (fun k : Fin maxPreds => loadPred memory (progOffset .preds + k.val * predSize)) =
      (array predCodec maxPreds).decode (slice memory 8 (maxPreds * predSize)) := by
    funext k
    have inside : k.val * predSize + predSize ≤ maxPreds * predSize := by
      have bound : k.val + 1 ≤ maxPreds := k.isLt
      rw [← Nat.succ_mul]
      exact Nat.mul_le_mul_right predSize bound
    rw [load_pred_decode]
    change _ = predCodec.decode (slice (slice memory 8 (maxPreds * predSize)) (k.val * predSize) predSize)
    rw [slice_slice _ _ _ _ _ inside]
    rfl
  rw [loadProg, entries]
  rfl

/-- The program crosses into the kernel unchanged: every program is read back from
its bytes, and every value of the map is the bytes of the program loaded from it. -/
theorem program_bytes_faithful :
    (∀ prog, (progBytes prog).length = progSize ∧ loadProg (progBytes prog) = prog) ∧
      ∀ memory : List Byte, memory.length = progSize → progBytes (loadProg memory) = memory := by
  constructor
  · intro prog
    constructor
    · exact progCodec.encode_width prog
    · rw [load_prog_decode, progBytes, progCodec.decode_encode]
  · intro memory length
    rw [load_prog_decode, progBytes]
    exact progCodec.encode_decode memory length

example : predSize = 88 ∧ predOffset .plen = 12 ∧ progSize = 2824 := by decide

end KoAgent.WireFormats
