import KoAgent.ByteWords

/-!
# Records of fixed layout in byte memory

Two ways to put a record of fixed-width fields into bytes: one after the other
with nothing between them, and at the offsets a C compiler gives them, where
each field starts at a multiple of its alignment. A codec carries its round trip
in both directions. Memory is a list of bytes; a write replaces a stretch of it
and leaves every stretch apart from it as it was.
-/

namespace KoAgent.FixedLayouts

open KoAgent.ByteWords

set_option autoImplicit false

section Memory

def slice (memory : List Byte) (offset count : Nat) : List Byte := (memory.drop offset).take count

structure Write where
  offset : Nat
  bytes : List Byte

def store (memory : List Byte) (write : Write) : List Byte :=
  memory.take write.offset ++ write.bytes ++ memory.drop (write.offset + write.bytes.length)

def storeAll (memory : List Byte) (writes : List Write) : List Byte := writes.foldl store memory

/-- A stretch of memory: its offset and its length. -/
abbrev Span := Nat × Nat

def Apart (left right : Span) : Prop := left.1 + left.2 ≤ right.1 ∨ right.1 + right.2 ≤ left.1

instance (left right : Span) : Decidable (Apart left right) :=
  inferInstanceAs (Decidable (_ ∨ _))

/-- Stretches within `size` bytes that do not overlap. -/
def Separate (size : Nat) (spans : List Span) : Prop :=
  spans.Pairwise Apart ∧ ∀ span ∈ spans, span.1 + span.2 ≤ size

instance (size : Nat) (spans : List Span) : Decidable (Separate size spans) :=
  inferInstanceAs (Decidable (_ ∧ _))

def Write.span (write : Write) : Span := (write.offset, write.bytes.length)

def Write.Inside (write : Write) (size : Nat) : Prop := write.offset + write.bytes.length ≤ size

theorem writes_inside (size : Nat) (writes : List Write)
    (separate : Separate size (writes.map Write.span)) (write : Write) (member : write ∈ writes) :
    write.Inside size := separate.2 write.span (List.mem_map_of_mem member)

theorem slice_length (memory : List Byte) (offset count : Nat)
    (inside : offset + count ≤ memory.length) : (slice memory offset count).length = count := by
  rw [slice, List.length_take, List.length_drop]
  omega

theorem slice_getElem? (memory : List Byte) (offset count index : Nat) :
    (slice memory offset count)[index]? = if index < count then memory[offset + index]? else none := by
  rw [slice, List.getElem?_take, List.getElem?_drop]

theorem slice_drop (memory : List Byte) (skipped offset count : Nat) :
    slice (memory.drop skipped) offset count = slice memory (skipped + offset) count := by
  rw [slice, slice, List.drop_drop]

theorem slice_prefix (memory rest : List Byte) : slice (memory ++ rest) 0 memory.length = memory := by
  rw [slice, List.drop_zero, List.take_left]

theorem slice_append (memory : List Byte) (offset first second : Nat) :
    slice memory offset (first + second) =
      slice memory offset first ++ slice memory (offset + first) second := by
  rw [slice, slice, slice, List.take_add, List.drop_drop]

theorem slice_slice (memory : List Byte) (outer size inner count : Nat) (inside : inner + count ≤ size) :
    slice (slice memory outer size) inner count = slice memory (outer + inner) count := by
  rw [slice, slice, slice, List.drop_take, List.take_take, List.drop_drop]
  congr 1
  omega

theorem store_length (memory : List Byte) (write : Write) (inside : write.Inside memory.length) :
    (store memory write).length = memory.length := by
  unfold Write.Inside at inside
  rw [store, List.length_append, List.length_append, List.length_take, List.length_drop]
  omega

theorem store_getElem? (memory : List Byte) (write : Write) (inside : write.Inside memory.length)
    (index : Nat) :
    (store memory write)[index]? =
      if write.offset ≤ index ∧ index < write.offset + write.bytes.length then
        write.bytes[index - write.offset]?
      else memory[index]? := by
  unfold Write.Inside at inside
  have front : (memory.take write.offset).length = write.offset := by
    rw [List.length_take]
    omega
  rw [store, List.append_assoc]
  by_cases before : index < write.offset
  · rw [List.getElem?_append_left (by omega), List.getElem?_take, if_pos before,
      if_neg (by omega)]
  · rw [List.getElem?_append_right (by omega), front]
    by_cases written : index < write.offset + write.bytes.length
    · rw [List.getElem?_append_left (by omega), if_pos (by omega)]
    · rw [List.getElem?_append_right (by omega), List.getElem?_drop, if_neg (by omega)]
      congr 1
      omega

theorem slice_store_same (memory : List Byte) (write : Write)
    (inside : write.Inside memory.length) :
    slice (store memory write) write.offset write.bytes.length = write.bytes := by
  apply List.ext_getElem?
  intro index
  rw [slice_getElem?, store_getElem? memory write inside]
  by_cases small : index < write.bytes.length
  · rw [if_pos small, if_pos (by omega)]
    congr 1
    omega
  · rw [if_neg small, List.getElem?_eq_none (by omega)]

theorem slice_store_clear (memory : List Byte) (write : Write)
    (inside : write.Inside memory.length) (offset count : Nat) (clear : Apart (offset, count) write.span) :
    slice (store memory write) offset count = slice memory offset count := by
  unfold Apart Write.span at clear
  apply List.ext_getElem?
  intro index
  rw [slice_getElem?, slice_getElem?]
  by_cases small : index < count
  · rw [if_pos small, if_pos small, store_getElem? memory write inside, if_neg (by omega)]
  · rw [if_neg small, if_neg small]

theorem store_all_length (writes : List Write) (memory : List Byte)
    (inside : ∀ write ∈ writes, write.Inside memory.length) :
    (storeAll memory writes).length = memory.length := by
  induction writes generalizing memory with
  | nil => rfl
  | cons write rest induction =>
      have length := store_length memory write (inside write List.mem_cons_self)
      have later := induction (store memory write) (fun other member => by
        rw [length]
        exact inside other (List.mem_cons_of_mem write member))
      exact later.trans length

theorem slice_store_all_clear (writes : List Write) (memory : List Byte)
    (inside : ∀ write ∈ writes, write.Inside memory.length) (offset count : Nat)
    (clear : ∀ write ∈ writes, Apart (offset, count) write.span) :
    slice (storeAll memory writes) offset count = slice memory offset count := by
  induction writes generalizing memory with
  | nil => rfl
  | cons write rest induction =>
      have first := inside write List.mem_cons_self
      have later := induction (store memory write)
        (fun other member => by
          rw [store_length memory write first]
          exact inside other (List.mem_cons_of_mem write member))
        (fun other member => clear other (List.mem_cons_of_mem write member))
      exact later.trans
        (slice_store_clear memory write first offset count (clear write List.mem_cons_self))

/-- Writes to stretches that are pairwise apart can all be read back. -/
theorem slice_store_all (writes : List Write) (memory : List Byte)
    (separate : Separate memory.length (writes.map Write.span)) (write : Write)
    (member : write ∈ writes) :
    slice (storeAll memory writes) write.offset write.bytes.length = write.bytes := by
  have inside := writes_inside memory.length writes separate
  have apart := List.pairwise_map.mp separate.1
  clear separate
  induction writes generalizing memory with
  | nil => cases member
  | cons first rest induction =>
      have head := inside first List.mem_cons_self
      have others : ∀ other ∈ rest, other.Inside (store memory first).length := by
        intro other found
        rw [store_length memory first head]
        exact inside other (List.mem_cons_of_mem first found)
      rcases List.pairwise_cons.mp apart with ⟨later, tail⟩
      rcases List.mem_cons.mp member with same | found
      · subst same
        change slice (storeAll (store memory write) rest) write.offset write.bytes.length = write.bytes
        rw [slice_store_all_clear rest (store memory write) others _ _ later]
        exact slice_store_same memory write head
      · exact induction (store memory first) found others tail

end Memory

section Codecs

/-- A value of `width` bytes, aligned in memory to a multiple of `align`. -/
structure Codec (Value : Type) where
  width : Nat
  align : Nat
  encode : Value → List Byte
  decode : List Byte → Value
  encode_width : ∀ value, (encode value).length = width
  decode_encode : ∀ value, decode (encode value) = value
  encode_decode : ∀ bytes, bytes.length = width → encode (decode bytes) = bytes

def wordBytes (count : Nat) (value : BitVec (8 * count)) : List Byte :=
  List.ofFn fun index : Fin count => value.extractLsb' (8 * index.val) 8

theorem word_bytes_length (count : Nat) (value : BitVec (8 * count)) :
    (wordBytes count value).length = count := List.length_ofFn

theorem word_le_word_bytes (count : Nat) (value : BitVec (8 * count)) :
    wordLE (8 * count) (wordBytes count value) = value := by
  apply BitVec.eq_of_getLsbD_eq
  intro index inside
  have position : index / 8 < count := by omega
  rw [word_le_bit _ _ _ inside, orderedBit, wordBytes, byte_at_ofFn, dif_pos position, storagePlace,
    BitVec.getLsbD_extractLsb']
  have bit : index % 8 < 8 := by omega
  have place : 8 * (index / 8) + index % 8 = index := by omega
  rw [place]
  simp [bit]

theorem word_bytes_word_le (bytes : List Byte) :
    wordBytes bytes.length (wordLE (8 * bytes.length) bytes) = bytes := by
  apply List.ext_getElem?
  intro position
  rw [wordBytes, List.getElem?_ofFn]
  by_cases inside : position < bytes.length
  · rw [dif_pos inside, List.getElem?_eq_getElem inside]
    congr 1
    apply BitVec.eq_of_getLsbD_eq
    intro bit small
    have index : 8 * position + bit < 8 * bytes.length := by omega
    have quotient : (8 * position + bit) / 8 = position := by omega
    have remainder : (8 * position + bit) % 8 = bit := by omega
    rw [BitVec.getLsbD_extractLsb', word_le_bit _ _ _ index, orderedBit, storagePlace, quotient,
      remainder, byteAt, List.getD_eq_getElem?_getD, List.getElem?_eq_getElem inside]
    simp [small]
  · rw [dif_neg inside, List.getElem?_eq_none (by omega)]

/-- A little-endian word, aligned to its size. -/
def word (count : Nat) : Codec (BitVec (8 * count)) where
  width := count
  align := count
  encode := wordBytes count
  decode := wordLE (8 * count)
  encode_width := word_bytes_length count
  decode_encode := word_le_word_bytes count
  encode_decode := fun bytes length => by
    subst length
    exact word_bytes_word_le bytes

variable {Value : Type}

def arrayBytes (codec : Codec Value) (count : Nat) (values : Fin count → Value) : List Byte :=
  (List.ofFn fun index => codec.encode (values index)).flatten

theorem array_bytes_succ (codec : Codec Value) (count : Nat) (values : Fin (count + 1) → Value) :
    arrayBytes codec (count + 1) values =
      codec.encode (values 0) ++ arrayBytes codec count fun index => values index.succ := by
  rw [arrayBytes, List.ofFn_succ, List.flatten_cons]
  rfl

theorem array_bytes_length (codec : Codec Value) (count : Nat) (values : Fin count → Value) :
    (arrayBytes codec count values).length = count * codec.width := by
  induction count with
  | zero => simp [arrayBytes]
  | succ count induction =>
      rw [array_bytes_succ, List.length_append, codec.encode_width, induction, Nat.succ_mul]
      omega

theorem array_bytes_slice (codec : Codec Value) (count : Nat) (values : Fin count → Value)
    (index : Fin count) :
    slice (arrayBytes codec count values) (index.val * codec.width) codec.width =
      codec.encode (values index) := by
  induction count with
  | zero => exact index.elim0
  | succ count induction =>
      have head := codec.encode_width (values 0)
      rw [array_bytes_succ]
      cases index using Fin.cases with
      | zero =>
          have front := slice_prefix (codec.encode (values 0))
            (arrayBytes codec count fun later => values later.succ)
          rw [head] at front
          simpa using front
      | succ later =>
          have place : later.succ.val * codec.width = codec.width + later.val * codec.width := by
            rw [Fin.val_succ, Nat.succ_mul]
            omega
          rw [place, ← slice_drop, ← head, List.drop_left, head]
          exact induction (fun other => values other.succ) later

theorem array_bytes_read (codec : Codec Value) (count : Nat) (bytes : List Byte)
    (length : bytes.length = count * codec.width) :
    arrayBytes codec count
      (fun index => codec.decode (slice bytes (index.val * codec.width) codec.width)) = bytes := by
  induction count generalizing bytes with
  | zero =>
      rw [Nat.zero_mul] at length
      rw [List.eq_nil_of_length_eq_zero length]
      rfl
  | succ count induction =>
      rw [Nat.succ_mul] at length
      have front : (slice bytes 0 codec.width).length = codec.width :=
        slice_length bytes 0 codec.width (by omega)
      have rest : (bytes.drop codec.width).length = count * codec.width := by
        rw [List.length_drop]
        omega
      have later := induction (bytes.drop codec.width) rest
      have moved : (fun index : Fin count =>
          codec.decode (slice bytes (index.succ.val * codec.width) codec.width)) =
          fun index => codec.decode
            (slice (bytes.drop codec.width) (index.val * codec.width) codec.width) := by
        funext index
        rw [slice_drop, Fin.val_succ, Nat.succ_mul, Nat.add_comm]
      rw [array_bytes_succ, moved, later, Fin.val_zero, Nat.zero_mul, codec.encode_decode _ front,
        slice, List.drop_zero, List.take_append_drop]

/-- An array without gaps, aligned as its elements are. -/
def array (codec : Codec Value) (count : Nat) : Codec (Fin count → Value) where
  width := count * codec.width
  align := codec.align
  encode := arrayBytes codec count
  decode := fun bytes index => codec.decode (slice bytes (index.val * codec.width) codec.width)
  encode_width := array_bytes_length codec count
  decode_encode := fun values => by
    funext index
    rw [array_bytes_slice, codec.decode_encode]
  encode_decode := array_bytes_read codec count

end Codecs

section Records

variable {Name : Type} {Value : Name → Type} (codec : ∀ name, Codec (Value name))

/-- The fields one after the other. -/
def packed : List Name → (∀ name, Value name) → List Byte
  | [], _ => []
  | first :: rest, record => (codec first).encode (record first) ++ packed rest record

def packedSize : List Name → Nat
  | [] => 0
  | first :: rest => (codec first).width + packedSize rest

def roundUp (offset align : Nat) : Nat := (offset + align - 1) / align * align

theorem packed_length (names : List Name) (record : ∀ name, Value name) :
    (packed codec names record).length = packedSize codec names := by
  induction names with
  | nil => rfl
  | cons first rest induction =>
      rw [packed, packedSize, List.length_append, (codec first).encode_width, induction]

theorem packed_congr (names : List Name) (left right : ∀ name, Value name)
    (same : ∀ name ∈ names, left name = right name) :
    packed codec names left = packed codec names right := by
  induction names with
  | nil => rfl
  | cons first rest induction =>
      rw [packed, packed, same first List.mem_cons_self,
        induction fun name member => same name (List.mem_cons_of_mem first member)]

variable [DecidableEq Name]

def packedOffset : List Name → Name → Nat
  | [], _ => 0
  | first :: rest, name => if first = name then 0 else (codec first).width + packedOffset rest name

/-- Where a C compiler puts a field, the fields declared from `next` on. -/
def cOffset : Nat → List Name → Name → Nat
  | next, [], _ => next
  | next, first :: rest, name =>
      let offset := roundUp next (codec first).align
      if first = name then offset else cOffset (offset + (codec first).width) rest name

def cEnd : Nat → List Name → Nat
  | next, [] => next
  | next, first :: rest => cEnd (roundUp next (codec first).align + (codec first).width) rest

def cAlign : List Name → Nat
  | [] => 1
  | first :: rest => max (codec first).align (cAlign rest)

/-- Every field starts aligned when the fields follow one another from `next` on. -/
def Aligned : Nat → List Name → Prop
  | _, [] => True
  | next, first :: rest =>
      roundUp next (codec first).align = next ∧ Aligned (next + (codec first).width) rest

instance alignedDecidable : ∀ (next : Nat) (names : List Name), Decidable (Aligned codec next names)
  | _, [] => isTrue trivial
  | next, first :: rest =>
      have := alignedDecidable (next + (codec first).width) rest
      inferInstanceAs
        (Decidable (roundUp next (codec first).align = next ∧
          Aligned codec (next + (codec first).width) rest))

/-- `sizeof`: the end of the last field, rounded up to the largest alignment. -/
def cSize (names : List Name) : Nat := roundUp (cEnd codec 0 names) (cAlign codec names)

def readPacked (names : List Name) (bytes : List Byte) (name : Name) : Value name :=
  (codec name).decode (slice bytes (packedOffset codec names name) (codec name).width)

/-- Without gaps to fill, the C compiler packs the fields. -/
theorem c_offset_packed (names : List Name) (next : Nat) (aligned : Aligned codec next names)
    (name : Name) (member : name ∈ names) :
    cOffset codec next names name = next + packedOffset codec names name := by
  induction names generalizing next with
  | nil => cases member
  | cons first rest induction =>
      rw [cOffset, packedOffset, aligned.1]
      by_cases here : first = name
      · rw [if_pos here, if_pos here]
        rfl
      · have later : name ∈ rest := by
          rcases List.mem_cons.mp member with same | found
          · exact absurd same.symm here
          · exact found
        rw [if_neg here, if_neg here, induction _ aligned.2 later]
        omega

theorem packed_slice (names : List Name) (record : ∀ name, Value name) (name : Name)
    (member : name ∈ names) :
    slice (packed codec names record) (packedOffset codec names name) (codec name).width =
      (codec name).encode (record name) := by
  induction names with
  | nil => cases member
  | cons first rest induction =>
      have head := (codec first).encode_width (record first)
      rw [packed, packedOffset]
      by_cases here : first = name
      · subst here
        have front := slice_prefix ((codec first).encode (record first)) (packed codec rest record)
        rw [head] at front
        rw [if_pos rfl, front]
      · have later : name ∈ rest := by
          rcases List.mem_cons.mp member with same | found
          · exact absurd same.symm here
          · exact found
        rw [if_neg here, ← slice_drop, ← head, List.drop_left]
        exact induction later

theorem read_packed_record (names : List Name) (record : ∀ name, Value name) (name : Name)
    (member : name ∈ names) : readPacked codec names (packed codec names record) name = record name := by
  rw [readPacked, packed_slice codec names record name member, (codec name).decode_encode]

/-- Reading loses nothing of the bytes the fields cover. -/
theorem packed_read (names : List Name) (distinct : names.Nodup) (bytes : List Byte)
    (long : packedSize codec names ≤ bytes.length) :
    packed codec names (readPacked codec names bytes) = bytes.take (packedSize codec names) := by
  induction names generalizing bytes with
  | nil => rfl
  | cons first rest induction =>
      rcases List.nodup_cons.mp distinct with ⟨fresh, others⟩
      rw [packedSize] at long
      have front : (slice bytes 0 (codec first).width).length = (codec first).width :=
        slice_length bytes 0 (codec first).width (by omega)
      have later := induction others (bytes.drop (codec first).width) (by
        rw [List.length_drop]
        omega)
      have moved : packed codec rest (readPacked codec (first :: rest) bytes) =
          packed codec rest (readPacked codec rest (bytes.drop (codec first).width)) := by
        apply packed_congr
        intro name member
        have other : first ≠ name := by
          intro same
          exact fresh (same ▸ member)
        rw [readPacked, readPacked, packedOffset, if_neg other, slice_drop]
      have head : (codec first).encode (readPacked codec (first :: rest) bytes first) =
          bytes.take (codec first).width := by
        rw [readPacked, packedOffset, if_pos rfl, (codec first).encode_decode _ front]
        rfl
      rw [packed, moved, later, head, packedSize, List.take_add]

/-- A record all of whose fields are listed once. -/
def record (names : List Name) (complete : ∀ name, name ∈ names) (distinct : names.Nodup) :
    Codec (∀ name, Value name) where
  width := packedSize codec names
  align := cAlign codec names
  encode := packed codec names
  decode := readPacked codec names
  encode_width := packed_length codec names
  decode_encode := fun fields => by
    funext name
    exact read_packed_record codec names fields name (complete name)
  encode_decode := fun bytes length => by
    rw [packed_read codec names distinct bytes (by omega), ← length, List.take_length]

end Records

section Transfer

variable {Value Other : Type}

/-- The same bytes under another view of the value. -/
def Codec.transfer (codec : Codec Value) (view : Value → Other) (back : Other → Value)
    (view_back : ∀ other, view (back other) = other)
    (back_view : ∀ value, back (view value) = value) : Codec Other where
  width := codec.width
  align := codec.align
  encode := fun other => codec.encode (back other)
  decode := fun bytes => view (codec.decode bytes)
  encode_width := fun other => codec.encode_width (back other)
  decode_encode := fun other => by
    rw [codec.decode_encode, view_back]
  encode_decode := fun bytes length => by
    rw [back_view, codec.encode_decode bytes length]

end Transfer

end KoAgent.FixedLayouts
