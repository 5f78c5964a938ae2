import Mathlib.Data.List.GetD
import Mathlib.Data.List.OfFn
import Mathlib.Tactic.SplitIfs

/-!
# Words loaded from bytes, and agreement on a leading run of bits

A byte string has two natural bit orders. The network order counts the bits
of each byte from the most significant one; the storage order is the order of
the bits of the little-endian word that a plain memory copy of the string
produces. This module relates both to whole bytes plus one boundary byte, so
that a word-level and a byte-level prefix test can be compared at one place.
-/

namespace KoAgent.ByteWords

set_option autoImplicit false

abbrev Byte := BitVec 8

def byteAt (bytes : List Byte) (index : Nat) : Byte := bytes.getD index 0

/-- The `width`-bit integer left by copying `bytes` over a zeroed integer on a
little-endian machine. -/
def wordLE (width : Nat) : List Byte → BitVec width
  | [] => 0
  | byte :: rest => byte.setWidth width ||| (wordLE width rest <<< 8)

/-- The `width`-bit integer whose most significant byte comes first. -/
def wordBE (width : Nat) (bytes : List Byte) : BitVec width := wordLE width bytes.reverse

/-- Where a bit order puts the bits of one byte, counted from its low end. -/
def networkPlace (offset : Nat) : Nat := 7 - offset

def storagePlace (offset : Nat) : Nat := offset

def orderedBit (place : Nat → Nat) (bytes : List Byte) (index : Nat) : Bool :=
  (byteAt bytes (index / 8)).getLsbD (place (index % 8))

/-- Agreement of the first `count` bits in the given order. -/
def OrderedAgree (place : Nat → Nat) (left right : List Byte) (count : Nat) : Prop :=
  ∀ index, index < count → orderedBit place left index = orderedBit place right index

/-- Agreement of the first `count` whole bytes. -/
def BytesAgree (left right : List Byte) (count : Nat) : Prop :=
  ∀ index, index < count → byteAt left index = byteAt right index

/-- Agreement of the first `count` bits of two bytes in the given order. -/
def BoundaryAgree (place : Nat → Nat) (left right : Byte) (count : Nat) : Prop :=
  ∀ index, index < count → left.getLsbD (place index) = right.getLsbD (place index)

instance (place : Nat → Nat) (left right : List Byte) (count : Nat) :
    Decidable (OrderedAgree place left right count) :=
  inferInstanceAs (Decidable (∀ index, index < count → _))

instance (left right : List Byte) (count : Nat) : Decidable (BytesAgree left right count) :=
  inferInstanceAs (Decidable (∀ index, index < count → _))

instance (place : Nat → Nat) (left right : Byte) (count : Nat) :
    Decidable (BoundaryAgree place left right count) :=
  inferInstanceAs (Decidable (∀ index, index < count → _))

theorem byte_at_nil (index : Nat) : byteAt [] index = 0 := by
  simp [byteAt]

theorem byte_at_zero (byte : Byte) (rest : List Byte) : byteAt (byte :: rest) 0 = byte := by
  simp [byteAt]

theorem byte_at_succ (byte : Byte) (rest : List Byte) (index : Nat) :
    byteAt (byte :: rest) (index + 1) = byteAt rest index := by
  simp [byteAt]

theorem byte_at_take (bytes : List Byte) (count index : Nat) (inside : index < count) :
    byteAt (bytes.take count) index = byteAt bytes index := by
  simp [byteAt, List.getD_eq_getElem?_getD, inside]

theorem byte_at_drop (bytes : List Byte) (count index : Nat) :
    byteAt (bytes.drop count) index = byteAt bytes (count + index) := by
  simp [byteAt, List.getD_eq_getElem?_getD, List.getElem?_drop]

theorem byte_at_reverse (bytes : List Byte) (index : Nat) (inside : index < bytes.length) :
    byteAt bytes.reverse index = byteAt bytes (bytes.length - 1 - index) := by
  simp [byteAt, List.getD_eq_getElem?_getD, List.getElem?_reverse inside]

theorem byte_at_ofFn {count : Nat} (bytes : Fin count → Byte) (index : Nat) :
    byteAt (List.ofFn bytes) index =
      if inside : index < count then bytes ⟨index, inside⟩ else 0 := by
  rw [byteAt, List.getD_eq_getElem?_getD, List.getElem?_ofFn]
  split_ifs <;> rfl

theorem ordered_bit_drop (place : Nat → Nat) (bytes : List Byte) (count index : Nat) :
    orderedBit place (bytes.drop count) index = orderedBit place bytes (8 * count + index) := by
  rw [orderedBit, orderedBit, byte_at_drop, show (8 * count + index) / 8 = count + index / 8 by omega,
    show (8 * count + index) % 8 = index % 8 by omega]

theorem ordered_bit_take (place : Nat → Nat) (bytes : List Byte) (count index : Nat)
    (inside : index < 8 * count) :
    orderedBit place (bytes.take count) index = orderedBit place bytes index := by
  rw [orderedBit, orderedBit, byte_at_take _ _ _ (by omega)]

theorem word_le_bit (width : Nat) (bytes : List Byte) (index : Nat) (inside : index < width) :
    (wordLE width bytes).getLsbD index = orderedBit storagePlace bytes index := by
  induction bytes generalizing index with
  | nil => simp [wordLE, orderedBit, storagePlace, byte_at_nil]
  | cons byte rest induction =>
      simp only [wordLE, BitVec.getLsbD_or, BitVec.getLsbD_setWidth, BitVec.getLsbD_shiftLeft,
        inside, decide_true, Bool.true_and]
      by_cases first : index < 8
      · have quotient : index / 8 = 0 := by omega
        have remainder : index % 8 = index := by omega
        simp [first, orderedBit, storagePlace, quotient, remainder, byte_at_zero]
      · have quotient : index / 8 = (index - 8) / 8 + 1 := by omega
        have remainder : index % 8 = (index - 8) % 8 := by omega
        have high : byte.getLsbD index = false := BitVec.getLsbD_of_ge _ _ (by omega)
        rw [high, induction (index - 8) (by omega)]
        simp [first, orderedBit, storagePlace, quotient, remainder, byte_at_succ]

/-- A big-endian word read from the top is the network order. -/
theorem word_be_bit (bytes : List Byte) (index : Nat) (inside : index < 8 * bytes.length) :
    (wordBE (8 * bytes.length) bytes).getLsbD (8 * bytes.length - 1 - index) =
      orderedBit networkPlace bytes index := by
  rw [wordBE, word_le_bit _ _ _ (by omega), orderedBit, orderedBit, storagePlace, networkPlace]
  have position : (8 * bytes.length - 1 - index) / 8 = bytes.length - 1 - index / 8 := by omega
  have offset : (8 * bytes.length - 1 - index) % 8 = 7 - index % 8 := by omega
  rw [position, offset, byte_at_reverse _ _ (by omega)]
  have back : bytes.length - 1 - (bytes.length - 1 - index / 8) = index / 8 := by omega
  rw [back]

/-- A bit order reaches every bit of a byte. -/
def Covers (place : Nat → Nat) : Prop :=
  ∀ bit, bit < 8 → ∃ offset, offset < 8 ∧ place offset = bit

theorem network_place_covers : Covers networkPlace :=
  fun bit inside => ⟨7 - bit, by omega, by simp only [networkPlace]; omega⟩

theorem storage_place_covers : Covers storagePlace :=
  fun bit inside => ⟨bit, inside, rfl⟩

/-- In any bit order that reaches every bit of a byte, agreement on a leading
run of bits is agreement on its whole bytes and on part of the next byte. -/
theorem ordered_agree_iff (place : Nat → Nat) (covers : Covers place)
    (left right : List Byte) (count : Nat) :
    OrderedAgree place left right count ↔
      BytesAgree left right (count / 8) ∧
        BoundaryAgree place (byteAt left (count / 8)) (byteAt right (count / 8)) (count % 8) := by
  constructor
  · intro agree
    refine ⟨fun position inside => BitVec.eq_of_getLsbD_eq fun bit bound => ?_,
      fun offset bound => ?_⟩
    · obtain ⟨offset, small, rfl⟩ := covers bit bound
      have source := agree (8 * position + offset) (by omega)
      have quotient : (8 * position + offset) / 8 = position := by omega
      have remainder : (8 * position + offset) % 8 = offset := by omega
      simpa only [orderedBit, quotient, remainder] using source
    · have source := agree (8 * (count / 8) + offset) (by omega)
      have quotient : (8 * (count / 8) + offset) / 8 = count / 8 := by omega
      have remainder : (8 * (count / 8) + offset) % 8 = offset := by omega
      simpa only [orderedBit, quotient, remainder] using source
  · rintro ⟨whole, boundary⟩ index inside
    by_cases last : index / 8 = count / 8
    · simpa only [orderedBit, last] using boundary (index % 8) (by omega)
    · simp only [orderedBit, whole (index / 8) (by omega)]

theorem xor_false_iff (left right : Bool) : (left ^^ right) = false ↔ left = right := by
  cases left <;> cases right <;> decide

theorem shift_left_zero_iff {width : Nat} (word : BitVec width) (count : Nat)
    (fits : count ≤ width) :
    word <<< (width - count) = 0 ↔ ∀ index, index < count → word.getLsbD index = false := by
  constructor
  · intro zero index inside
    have bit := congrArg (fun value : BitVec width => value.getLsbD (width - count + index)) zero
    have high : width - count + index < width := by omega
    have back : width - count + index - (width - count) = index := by omega
    simpa only [BitVec.getLsbD_shiftLeft, high, back, decide_true, Bool.true_and,
      show ¬width - count + index < width - count by omega, decide_false, Bool.not_false,
      BitVec.ofNat_eq_ofNat, BitVec.getLsbD_zero] using bit
  · intro clear
    apply BitVec.eq_of_getLsbD_eq
    intro index inside
    by_cases shifted : index < width - count
    · simp [BitVec.getLsbD_shiftLeft, shifted]
    · simp [BitVec.getLsbD_shiftLeft, clear (index - (width - count)) (by omega)]

theorem shift_right_zero_iff {width : Nat} (word : BitVec width) (count : Nat)
    (fits : count ≤ width) :
    word >>> (width - count) = 0 ↔
      ∀ index, index < count → word.getLsbD (width - 1 - index) = false := by
  constructor
  · intro zero index inside
    have bit := congrArg (fun value : BitVec width => value.getLsbD (count - 1 - index)) zero
    have place : width - count + (count - 1 - index) = width - 1 - index := by omega
    simpa [place] using bit
  · intro clear
    apply BitVec.eq_of_getLsbD_eq
    intro index inside
    by_cases kept : index < count
    · have bit := clear (count - 1 - index) (by omega)
      have place : width - 1 - (count - 1 - index) = width - count + index := by omega
      rw [place] at bit
      simp [bit]
    · simp [BitVec.getLsbD_of_ge word (width - count + index) (by omega)]

/-- Shifting the difference of two words to the top compares their low bits. -/
theorem xor_shift_left_agrees {width : Nat} (left right : BitVec width) (count : Nat)
    (fits : count ≤ width) :
    (left ^^^ right) <<< (width - count) = 0 ↔
      ∀ index, index < count → left.getLsbD index = right.getLsbD index := by
  rw [shift_left_zero_iff _ count fits]
  apply forall₂_congr
  intro index inside
  rw [BitVec.getLsbD_xor, xor_false_iff]

/-- Shifting the difference of two big-endian words to the bottom compares a
leading run of bits in network order. -/
theorem words_be_agree (length : Nat) (left right : List Byte) (leftLength : left.length = length)
    (rightLength : right.length = length) (count : Nat) (fits : count ≤ 8 * length) :
    (wordBE (8 * length) left ^^^ wordBE (8 * length) right) >>> (8 * length - count) = 0 ↔
      OrderedAgree networkPlace left right count := by
  rw [shift_right_zero_iff _ count fits]
  apply forall₂_congr
  intro index inside
  have leftBit := word_be_bit left index (by omega)
  have rightBit := word_be_bit right index (by omega)
  rw [leftLength] at leftBit
  rw [rightLength] at rightBit
  rw [BitVec.getLsbD_xor, leftBit, rightBit, xor_false_iff]

theorem ordered_agree_congr (place : Nat → Nat) (left other right : List Byte) (count : Nat)
    (same : ∀ index, byteAt left index = byteAt other index) :
    OrderedAgree place left right count ↔ OrderedAgree place other right count := by
  simp only [OrderedAgree, orderedBit, same]

theorem ordered_agree_comm (place : Nat → Nat) (left right : List Byte) (count : Nat) :
    OrderedAgree place left right count ↔ OrderedAgree place right left count :=
  forall₂_congr fun _ _ => eq_comm

end KoAgent.ByteWords
