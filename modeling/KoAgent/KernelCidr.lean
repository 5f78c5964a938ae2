import KoAgent.CompilerShape

/-!
# The word-wise CIDR matcher of `tracer.bpf.c`

`koIPInSet` loads an endpoint as two little-endian words and shifts the
difference with each prefix to the top of the word. That compares the first
`plen` bits in storage order, while user space compares them in network order:
whole bytes give the same answer, the boundary byte of an unaligned prefix is
compared from its low end instead of its high end.
-/

namespace KoAgent.KernelCidr

open KoAgent.ByteWords KoAgent.NetAddress KoAgent.NetAddressRoundtrip KoAgent.FilterModel
open KoAgent.CelExpression KoAgent.FilterCompiler KoAgent.CidrSets KoAgent.CompilerShape
open KoAgent.PredicateMachine hiding cmpField

set_option autoImplicit false

def afInet : U16 := 2
def afInet6 : U16 := 10

/-- `struct sock_addrs`: both endpoints as 16 bytes, IPv4 in the first four. -/
structure SockAddrs where
  localIP : Fin 16 → U8
  remoteIP : Fin 16 → U8

def decodeIP (family : U16) (raw : Fin 16 → U8) : IP :=
  if family = afInet then (List.ofFn raw).take 4 else List.ofFn raw

/-- An eight-byte `memcpy` from `offset` on into a `u64`. -/
def loadWord (bytes : Fin 16 → U8) (offset : Nat) : U64 :=
  wordLE 64 (((List.ofFn bytes).drop offset).take 8)

/-- One iteration of the loop over the prefixes. -/
def koCidrMatch (is4 : Bool) (aw0 aw1 : U64) (p : Pred) (i : Fin maxIPSet) : Bool :=
  let plen := (p.plen i).toNat
  if p.fam i = 4 then
    if !is4 then false
    else if plen = 0 then true
    else if plen > 32 then false
    else
      let x : U32 := (loadWord (p.addr i) 0).setWidth 32 ^^^ aw0.setWidth 32
      x <<< (32 - plen) == 0
  else if p.fam i = 6 then
    if is4 then false
    else if plen = 0 then true
    else if plen > 128 then false
    else
      let pw0 := loadWord (p.addr i) 0
      let pw1 := loadWord (p.addr i) 8
      if plen ≤ 64 then (pw0 ^^^ aw0) <<< (64 - plen) == 0
      else pw0 == aw0 && (pw1 ^^^ aw1) <<< (128 - plen) == 0
  else false

def koSetMatch (is4 : Bool) (aw0 aw1 : U64) (p : Pred) : Bool :=
  (List.finRange maxIPSet).any fun i => decide (i.val < p.n.toNat) && koCidrMatch is4 aw0 aw1 p i

def koIPInSet (which : U8) (family : U16) (a : SockAddrs) (p : Pred) : Bool :=
  let ip := if which = 0 then a.localIP else a.remoteIP
  let aw0 := loadWord ip 0
  let aw1 := loadWord ip 8
  if family = afInet then koSetMatch true aw0 aw1 p
  else if family = afInet6 then
    let is4 := aw0 == 0 && aw1 &&& 0xffff == 0 &&
      ((aw1 >>> 16) &&& 0xffff).setWidth 32 == (0xffff : U32)
    koSetMatch is4 (if is4 then aw1 >>> 32 else aw0) aw1 p
  else false

/-- The address after normalisation: its family and its bytes in network order. -/
def normalized (family : U16) (raw : Fin 16 → U8) : Bool × List Byte :=
  if family = afInet then (true, (List.ofFn raw).take 4)
  else if Addr.mappedBytes (List.ofFn raw) then (true, (List.ofFn raw).drop 12)
  else (false, List.ofFn raw)

theorem load_word_bit (bytes : Fin 16 → U8) (offset index : Nat) (inside : index < 64) :
    (loadWord bytes offset).getLsbD index =
      orderedBit storagePlace (List.ofFn bytes) (8 * offset + index) := by
  rw [loadWord, word_le_bit _ _ _ inside, ordered_bit_take _ _ _ _ (by omega), ordered_bit_drop]

theorem word_zero_iff (word : U64) : word = 0 ↔ ∀ index, index < 64 → word.getLsbD index = false := by
  constructor
  · rintro rfl index _
    simp
  · intro clear
    apply BitVec.eq_of_getLsbD_eq
    intro index inside
    simp [clear index inside]

theorem low_mask_bit (index : Nat) (inside : index < 64) :
    (0xffff : U64).getLsbD index = decide (index < 16) := by
  have cases : ∀ index : Fin 64, (0xffff : U64).getLsbD index.val = decide (index.val < 16) := by decide
  exact cases ⟨index, inside⟩

theorem low_half_zero_iff (word : U64) :
    word &&& 0xffff = 0 ↔ ∀ index, index < 16 → word.getLsbD index = false := by
  rw [word_zero_iff]
  constructor
  · intro clear index inside
    have bit := clear index (by omega)
    rw [BitVec.getLsbD_and, low_mask_bit index (by omega)] at bit
    simpa [inside] using bit
  · intro clear index inside
    rw [BitVec.getLsbD_and, low_mask_bit index inside]
    by_cases low : index < 16
    · simp [low, clear index low]
    · simp [low]

theorem next_half_full_iff (word : U64) :
    ((word >>> 16) &&& 0xffff).setWidth 32 = (0xffff : U32) ↔
      ∀ index, index < 16 → word.getLsbD (16 + index) = true := by
  have full : ∀ index : Fin 32, (0xffff : U32).getLsbD index.val = decide (index.val < 16) := by decide
  constructor
  · intro same index inside
    have bit := congrArg (fun value : U32 => value.getLsbD index) same
    have wide : index < 32 := by omega
    rw [full ⟨index, wide⟩, BitVec.getLsbD_setWidth, BitVec.getLsbD_and,
      low_mask_bit index (by omega), BitVec.getLsbD_ushiftRight] at bit
    simpa [inside, wide] using bit
  · intro set
    apply BitVec.eq_of_getLsbD_eq
    intro index inside
    rw [full ⟨index, inside⟩, BitVec.getLsbD_setWidth, BitVec.getLsbD_and,
      low_mask_bit index (by omega), BitVec.getLsbD_ushiftRight]
    by_cases low : index < 16
    · simp [low, inside, set index low]
    · simp [low]

def mappedHead : List Byte := List.replicate 10 0 ++ [0xff, 0xff]

theorem mapped_head_bit (index : Nat) (inside : index < 96) :
    orderedBit storagePlace mappedHead index = decide (80 ≤ index) := by
  have cases : ∀ index : Fin 96,
      orderedBit storagePlace mappedHead index.val = decide (80 ≤ index.val) := by decide
  exact cases ⟨index, inside⟩

theorem mapped_bytes_iff (bytes : Fin 16 → U8) :
    Addr.mappedBytes (List.ofFn bytes) = true ↔
      OrderedAgree storagePlace (List.ofFn bytes) mappedHead 96 := by
  rw [ordered_agree_iff storagePlace storage_place_covers, Addr.mappedBytes, beq_iff_eq]
  have boundary : BoundaryAgree storagePlace (byteAt (List.ofFn bytes) (96 / 8))
      (byteAt mappedHead (96 / 8)) (96 % 8) := by
    intro index inside
    omega
  simp only [boundary, and_true]
  constructor
  · intro same index inside
    rw [← byte_at_take _ 12 index inside, same]
    rfl
  · intro agree
    apply List.ext_getElem
    · simp
    · intro index first second
      have inside : index < 12 := by simpa using second
      have here := agree index inside
      rw [← byte_at_take _ 12 index inside] at here
      simpa only [byteAt, mappedHead, List.getD_eq_getElem _ _ first,
        List.getD_eq_getElem _ _ second] using here

/-- The word test of the kernel recognises the IPv4-mapped addresses. -/
theorem mapped_words (bytes : Fin 16 → U8) :
    (loadWord bytes 0 == 0 && loadWord bytes 8 &&& 0xffff == 0 &&
        ((loadWord bytes 8 >>> 16) &&& 0xffff).setWidth 32 == (0xffff : U32)) =
      Addr.mappedBytes (List.ofFn bytes) := by
  rw [Bool.eq_iff_iff, mapped_bytes_iff]
  simp only [Bool.and_eq_true, beq_iff_eq]
  rw [word_zero_iff, low_half_zero_iff, next_half_full_iff]
  constructor
  · rintro ⟨⟨low, middle⟩, high⟩ index inside
    rw [mapped_head_bit index inside]
    by_cases first : index < 64
    · have bit := low index first
      rw [load_word_bit _ _ _ first] at bit
      simpa [show ¬80 ≤ index by omega] using bit
    · by_cases second : index < 80
      · have bit := middle (index - 64) (by omega)
        rw [load_word_bit _ _ _ (by omega), show 8 * 8 + (index - 64) = index by omega] at bit
        simpa [show ¬80 ≤ index by omega] using bit
      · have bit := high (index - 80) (by omega)
        rw [load_word_bit _ _ _ (by omega), show 8 * 8 + (16 + (index - 80)) = index by omega] at bit
        simpa [show 80 ≤ index by omega] using bit
  · intro agree
    refine ⟨⟨?_, ?_⟩, ?_⟩
    · intro index inside
      rw [load_word_bit _ _ _ inside, agree _ (by omega), mapped_head_bit _ (by omega)]
      simpa using by omega
    · intro index inside
      rw [load_word_bit _ _ _ (by omega), agree _ (by omega), mapped_head_bit _ (by omega)]
      simpa using by omega
    · intro index inside
      rw [load_word_bit _ _ _ (by omega), agree _ (by omega), mapped_head_bit _ (by omega)]
      simpa using by omega

/-- The words of an address, as far as the matcher of its family reads them. -/
structure Loaded (is4 : Bool) (aw0 aw1 : U64) (bytes : List Byte) : Prop where
  low : ∀ index, index < (if is4 then 32 else 64) →
    aw0.getLsbD index = orderedBit storagePlace bytes index
  high : is4 = false → ∀ index, index < 64 →
    aw1.getLsbD index = orderedBit storagePlace bytes (64 + index)

/-- What `ipInPreds` guarantees of a used entry. -/
def SlotValid (p : Pred) (i : Fin maxIPSet) : Prop :=
  (p.fam i = 4 ∧ (p.plen i).toNat ≤ 32) ∨ (p.fam i = 6 ∧ (p.plen i).toNat ≤ 128)

def familyCode (is4 : Bool) : U8 := if is4 then 4 else 6

theorem ko_match4_iff (aw0 aw1 : U64) (bytes : List Byte) (loaded : Loaded true aw0 aw1 bytes)
    (p : Pred) (i : Fin maxIPSet) (family : p.fam i = 4) (short : (p.plen i).toNat ≤ 32) :
    koCidrMatch true aw0 aw1 p i = true ↔
      OrderedAgree storagePlace (List.ofFn (p.addr i)) bytes (p.plen i).toNat := by
  simp only [koCidrMatch, family, if_true, Bool.not_true, Bool.false_eq_true, if_false]
  by_cases zero : (p.plen i).toNat = 0
  · rw [if_pos zero, zero]
    exact ⟨fun _ index inside => absurd inside (Nat.not_lt_zero index), fun _ => rfl⟩
  · rw [if_neg zero, if_neg (Nat.not_lt.mpr short), beq_iff_eq,
      xor_shift_left_agrees _ _ _ short]
    apply forall₂_congr
    intro index inside
    have narrow : index < 32 := Nat.lt_of_lt_of_le inside short
    rw [BitVec.getLsbD_setWidth, BitVec.getLsbD_setWidth, loaded.low index narrow,
      load_word_bit _ _ _ (by omega), Nat.mul_zero, Nat.zero_add]
    simp only [narrow, decide_true, Bool.true_and]

theorem ko_match6_iff (aw0 aw1 : U64) (bytes : List Byte) (loaded : Loaded false aw0 aw1 bytes)
    (p : Pred) (i : Fin maxIPSet) (family : p.fam i = 6) (short : (p.plen i).toNat ≤ 128) :
    koCidrMatch false aw0 aw1 p i = true ↔
      OrderedAgree storagePlace (List.ofFn (p.addr i)) bytes (p.plen i).toNat := by
  have low : ∀ index, index < 64 →
      ((loadWord (p.addr i) 0).getLsbD index = aw0.getLsbD index ↔
        orderedBit storagePlace (List.ofFn (p.addr i)) index = orderedBit storagePlace bytes index) := by
    intro index inside
    rw [loaded.low index inside, load_word_bit _ _ _ inside, Nat.mul_zero, Nat.zero_add]
  have high : ∀ index, index < 64 →
      ((loadWord (p.addr i) 8).getLsbD index = aw1.getLsbD index ↔
        orderedBit storagePlace (List.ofFn (p.addr i)) (64 + index) =
          orderedBit storagePlace bytes (64 + index)) := by
    intro index inside
    rw [loaded.high rfl index inside, load_word_bit _ _ _ inside]
  simp only [koCidrMatch, family, show (6 : U8) ≠ 4 by decide, if_true, Bool.false_eq_true, if_false]
  by_cases zero : (p.plen i).toNat = 0
  · rw [if_pos zero, zero]
    exact ⟨fun _ index inside => absurd inside (Nat.not_lt_zero index), fun _ => rfl⟩
  · rw [if_neg zero, if_neg (Nat.not_lt.mpr short)]
    by_cases first : (p.plen i).toNat ≤ 64
    · rw [if_pos first, beq_iff_eq, xor_shift_left_agrees _ _ _ first]
      apply forall₂_congr
      intro index inside
      exact low index (Nat.lt_of_lt_of_le inside first)
    · have rest : 128 - (p.plen i).toNat = 64 - ((p.plen i).toNat - 64) := by omega
      rw [if_neg first, Bool.and_eq_true, beq_iff_eq, beq_iff_eq, rest,
        xor_shift_left_agrees _ _ _ (by omega)]
      constructor
      · rintro ⟨same, tail⟩ index inside
        by_cases front : index < 64
        · exact (low index front).mp (by rw [same])
        · have bit := (high (index - 64) (by omega)).mp (tail (index - 64) (by omega))
          rwa [show 64 + (index - 64) = index by omega] at bit
      · intro agree
        constructor
        · apply BitVec.eq_of_getLsbD_eq
          intro index inside
          exact (low index inside).mpr (agree index (by omega))
        · intro index inside
          exact (high index (by omega)).mpr (agree (64 + index) (by omega))

/-- One entry of the kernel matcher: the family and a prefix in storage order. -/
theorem ko_cidr_match_iff (is4 : Bool) (aw0 aw1 : U64) (bytes : List Byte)
    (loaded : Loaded is4 aw0 aw1 bytes) (p : Pred) (i : Fin maxIPSet) (valid : SlotValid p i) :
    koCidrMatch is4 aw0 aw1 p i = true ↔
      p.fam i = familyCode is4 ∧
        OrderedAgree storagePlace (List.ofFn (p.addr i)) bytes (p.plen i).toNat := by
  rcases valid with ⟨family, short⟩ | ⟨family, short⟩
  · cases is4 with
    | true => simp [ko_match4_iff aw0 aw1 bytes loaded p i family short, family, familyCode]
    | false => simp [koCidrMatch, family, familyCode]
  · cases is4 with
    | true => simp [koCidrMatch, family, familyCode]
    | false => simp [ko_match6_iff aw0 aw1 bytes loaded p i family short, family, familyCode]

def KnownFamily (family : U16) : Prop := family = afInet ∨ family = afInet6

/-- Entry `i` is used and agrees with the address on its first bits in the order `place`. -/
def Matches (place : Nat → Nat) (address : Bool × List Byte) (p : Pred) (i : Fin maxIPSet) : Prop :=
  i.val < p.n.toNat ∧ p.fam i = familyCode address.1 ∧
    OrderedAgree place (List.ofFn (p.addr i)) address.2 (p.plen i).toNat

theorem ko_set_match_iff (address : Bool × List Byte) (aw0 aw1 : U64)
    (loaded : Loaded address.1 aw0 aw1 address.2) (p : Pred)
    (valid : ∀ i : Fin maxIPSet, i.val < p.n.toNat → SlotValid p i) :
    koSetMatch address.1 aw0 aw1 p = true ↔ ∃ i, Matches storagePlace address p i := by
  simp only [koSetMatch, List.any_eq_true, List.mem_finRange, true_and, Bool.and_eq_true,
    decide_eq_true_eq]
  apply exists_congr
  intro i
  apply and_congr_right
  intro used
  exact ko_cidr_match_iff address.1 aw0 aw1 address.2 loaded p i (valid i used)

theorem ko_ip_in_set_iff (which : U8) (family : U16) (a : SockAddrs) (known : KnownFamily family)
    (p : Pred) (valid : ∀ i : Fin maxIPSet, i.val < p.n.toNat → SlotValid p i) :
    koIPInSet which family a p = true ↔
      ∃ i, Matches storagePlace
        (normalized family (if which = 0 then a.localIP else a.remoteIP)) p i := by
  generalize endpoint : (if which = 0 then a.localIP else a.remoteIP) = raw
  simp only [koIPInSet, endpoint]
  rcases known with rfl | rfl
  · have loaded : Loaded true (loadWord raw 0) (loadWord raw 8) ((List.ofFn raw).take 4) := by
      refine ⟨?_, by simp⟩
      intro index inside
      have narrow : index < 32 := by simpa using inside
      rw [load_word_bit _ _ _ (by omega), ordered_bit_take _ _ _ _ (by omega), Nat.mul_zero,
        Nat.zero_add]
    rw [normalized, if_pos rfl, if_pos rfl]
    exact ko_set_match_iff (true, (List.ofFn raw).take 4) _ _ loaded p valid
  · simp only [normalized, show afInet6 ≠ afInet by decide, if_false, if_true, mapped_words]
    cases mapped : Addr.mappedBytes (List.ofFn raw) with
    | true =>
        have loaded : Loaded true (loadWord raw 8 >>> 32) (loadWord raw 8)
            ((List.ofFn raw).drop 12) := by
          refine ⟨?_, by simp⟩
          intro index inside
          have narrow : index < 32 := by simpa using inside
          rw [BitVec.getLsbD_ushiftRight, load_word_bit _ _ _ (by omega), ordered_bit_drop]
          rw [show 8 * 8 + (32 + index) = 8 * 12 + index by omega]
        exact ko_set_match_iff (true, (List.ofFn raw).drop 12) _ _ loaded p valid
    | false =>
        have loaded : Loaded false (loadWord raw 0) (loadWord raw 8) (List.ofFn raw) := by
          refine ⟨?_, ?_⟩
          · intro index inside
            rw [load_word_bit _ _ _ (by simpa using inside), Nat.mul_zero, Nat.zero_add]
          · intro _ index inside
            rw [load_word_bit _ _ _ inside]
        exact ko_set_match_iff (false, List.ofFn raw) _ _ loaded p valid

theorem to4_decode_ip (family : U16) (known : KnownFamily family) (raw : Fin 16 → U8) :
    to4 (decodeIP family raw) =
      if (normalized family raw).1 then some (normalized family raw).2 else none := by
  rcases known with rfl | rfl
  · simp [to4, decodeIP, normalized]
  · simp only [to4, decodeIP, normalized, show afInet6 ≠ afInet by decide, if_false,
      List.length_ofFn, show (16 : Nat) ≠ 4 by decide, true_and]
    cases Addr.mappedBytes (List.ofFn raw) <;> rfl

/-- The user-space matcher: the family and a prefix in network order. -/
theorem ev_ip_in_set_iff (ev : Event) (family : U16) (a : SockAddrs) (known : KnownFamily family)
    (localIP : ev.localIP = decodeIP family a.localIP)
    (remoteIP : ev.remoteIP = decodeIP family a.remoteIP) (p : Pred)
    (valid : ∀ i : Fin maxIPSet, i.val < p.n.toNat → SlotValid p i) :
    evIPInSet ev p = true ↔
      ∃ i, Matches networkPlace
        (normalized family (if p.a = 1 then a.remoteIP else a.localIP)) p i := by
  have endpoint : evIP ev p = decodeIP family (if p.a = 1 then a.remoteIP else a.localIP) := by
    unfold evIP
    split_ifs
    · exact remoteIP
    · exact localIP
  generalize (if p.a = 1 then a.remoteIP else a.localIP) = raw at endpoint
  have four := to4_decode_ip family known raw
  have present : (decodeIP family raw).length ≠ 0 := by
    unfold decodeIP
    split_ifs <;> simp
  simp only [evIPInSet, endpoint, present, if_false, List.any_eq_true, List.mem_finRange, true_and,
    Bool.and_eq_true, decide_eq_true_eq]
  apply exists_congr
  intro i
  apply and_congr_right
  intro used
  cases is4 : (normalized family raw).1 with
  | true =>
      simp only [is4, if_true] at four
      simp only [cidrMatch, four, Bool.and_eq_true, beq_iff_eq, familyCode, if_true]
      apply and_congr_right
      intro code
      have short : (p.plen i).toNat ≤ 32 := by
        rcases valid i used with ⟨_, short⟩ | ⟨six, _⟩
        · exact short
        · exact absurd (code.symm.trans six) (by decide)
      rw [prefixMatch4, prefix_match_within_iff, and_iff_right short]
  | false =>
      simp only [is4, Bool.false_eq_true, if_false] at four
      have whole : (to16 (decodeIP family raw)).getD [] = (normalized family raw).2 := by
        rcases known with rfl | rfl
        · simp [normalized] at is4
        · simp only [normalized, show afInet6 ≠ afInet by decide, if_false] at is4 ⊢
          cases mapped : Addr.mappedBytes (List.ofFn raw) with
          | true =>
              rw [mapped, if_pos rfl] at is4
              cases is4
          | false =>
              simp only [to16, decodeIP, show afInet6 ≠ afInet by decide, List.length_ofFn,
                show (16 : Nat) ≠ 4 by decide, Bool.false_eq_true, if_false, if_true,
                Option.getD_some]
      simp only [cidrMatch, four, whole, Bool.and_eq_true, bne_iff_ne, familyCode,
        Bool.false_eq_true, if_false]
      rcases valid i used with ⟨code, short⟩ | ⟨code, short⟩
      · simp [code]
      · rw [prefixMatch, prefix_match_within_iff, and_iff_right short, code]
        simp

theorem which_of_endpoint (name : String) (which : U8) (known : whichOf name = some which) :
    which = 0 ∨ which = 1 := by
  unfold whichOf at known
  split_ifs at known
  · exact Or.inl (Option.some.inj known).symm
  · exact Or.inr (Option.some.inj known).symm

theorem ip_set_pred_valid (which neg : U8) (values : List String) (p : Pred)
    (built : ipSetPred which neg values = some p) (i : Fin maxIPSet) (used : i.val < p.n.toNat) :
    SlotValid p i := by
  obtain ⟨_, _, _, _, count, entries⟩ := ip_set_pred_spec which neg values p built
  rw [count] at used
  obtain ⟨pfx, parsed, holds⟩ := entries i _ (List.getElem?_eq_getElem used)
  obtain ⟨nonneg, bound, _⟩ := parse_prefix_valid _ pfx parsed
  have plen := slot_plen p i pfx holds nonneg bound
  have code := holds.fam
  cases family : pfx.addr with
  | v4 bytes =>
      simp only [family, Addr.is4, if_true, Addr.bitLen] at code bound
      exact Or.inl ⟨code, by omega⟩
  | v6 bytes zone =>
      simp only [family, Addr.is4, Bool.false_eq_true, if_false, Addr.bitLen] at code bound
      exact Or.inr ⟨code, by omega⟩

/-- Every set predicate the compiler can produce. -/
theorem ip_in_preds_valid (args : List Expr) (neg : U8) (preds : List Pred)
    (built : ipInPreds args neg = some preds) (p : Pred) (member : p ∈ preds) :
    (p.a = 0 ∨ p.a = 1) ∧ ∀ i : Fin maxIPSet, i.val < p.n.toNat → SlotValid p i := by
  unfold ipInPreds at built
  split at built
  · split at built
    · cases built
    · split at built
      · cases built
      · next which known =>
          have endpoint := which_of_endpoint _ which known
          split at built
          · cases built
          · split_ifs at built
            obtain rfl := Option.some.inj built
            obtain rfl := List.mem_singleton.mp member
            exact ⟨endpoint, fun i used => absurd used (Nat.not_lt_zero _)⟩
          · obtain ⟨only, made, rfl⟩ := Option.map_eq_some_iff.mp built
            obtain rfl := List.mem_singleton.mp member
            obtain ⟨_, _, a, _⟩ := ip_set_pred_spec _ _ _ _ made
            exact ⟨by rw [a]; exact endpoint, ip_set_pred_valid _ _ _ _ made⟩
  · cases built

/-- Entry `i` is used, has the address's family, and its whole bytes agree. -/
def Reaches (address : Bool × List Byte) (p : Pred) (i : Fin maxIPSet) : Prop :=
  i.val < p.n.toNat ∧ p.fam i = familyCode address.1 ∧
    BytesAgree (List.ofFn (p.addr i)) address.2 ((p.plen i).toNat / 8)

/-- The first `plen % 8` bits of the boundary byte agree, counted as `place` says. -/
def BoundaryMatches (place : Nat → Nat) (address : Bool × List Byte) (p : Pred)
    (i : Fin maxIPSet) : Prop :=
  BoundaryAgree place (byteAt (List.ofFn (p.addr i)) ((p.plen i).toNat / 8))
    (byteAt address.2 ((p.plen i).toNat / 8)) ((p.plen i).toNat % 8)

instance (address : Bool × List Byte) (p : Pred) (i : Fin maxIPSet) :
    Decidable (Reaches address p i) :=
  inferInstanceAs (Decidable (_ ∧ _ ∧ ∀ index, index < _ → _))

instance (place : Nat → Nat) (address : Bool × List Byte) (p : Pred) (i : Fin maxIPSet) :
    Decidable (BoundaryMatches place address p i) :=
  inferInstanceAs (Decidable (∀ index, index < _ → _))

/-- Some entry in reach ends on a byte, or the boundary bytes in reach give the
same answer from the high end as from the low end. -/
def BoundaryConsistent (address : Bool × List Byte) (p : Pred) : Prop :=
  (∃ i, Reaches address p i ∧ (p.plen i).toNat % 8 = 0) ∨
    ((∃ i, Reaches address p i ∧ BoundaryMatches networkPlace address p i) ↔
      ∃ i, Reaches address p i ∧ BoundaryMatches storagePlace address p i)

instance (address : Bool × List Byte) (p : Pred) : Decidable (BoundaryConsistent address p) :=
  inferInstanceAs (Decidable (_ ∨ (_ ↔ _)))

theorem matches_iff (place : Nat → Nat) (covers : Covers place) (address : Bool × List Byte)
    (p : Pred) (i : Fin maxIPSet) :
    Matches place address p i ↔ Reaches address p i ∧ BoundaryMatches place address p i := by
  rw [Matches, ordered_agree_iff place covers, Reaches, BoundaryMatches, and_assoc, and_assoc]

theorem aligned_matches (place : Nat → Nat) (covers : Covers place) (address : Bool × List Byte)
    (p : Pred) (i : Fin maxIPSet) (reached : Reaches address p i)
    (aligned : (p.plen i).toNat % 8 = 0) : Matches place address p i := by
  refine (matches_iff place covers address p i).mpr ⟨reached, ?_⟩
  intro index inside
  rw [aligned] at inside
  exact absurd inside (Nat.not_lt_zero index)

/-- The first case is one in which both sides of the second hold. -/
theorem boundary_consistent_iff (address : Bool × List Byte) (p : Pred) :
    BoundaryConsistent address p ↔
      ((∃ i, Matches networkPlace address p i) ↔ ∃ i, Matches storagePlace address p i) := by
  simp only [matches_iff _ network_place_covers, matches_iff _ storage_place_covers]
  constructor
  · intro consistent
    rcases consistent with ⟨i, reached, aligned⟩ | same
    · have network := aligned_matches _ network_place_covers address p i reached aligned
      have storage := aligned_matches _ storage_place_covers address p i reached aligned
      exact ⟨fun _ => ⟨i, (matches_iff _ storage_place_covers address p i).mp storage⟩,
        fun _ => ⟨i, (matches_iff _ network_place_covers address p i).mp network⟩⟩
    · exact same
  · exact Or.inr

theorem aligned_consistent (address : Bool × List Byte) (p : Pred)
    (aligned : ∀ i : Fin maxIPSet, i.val < p.n.toNat → (p.plen i).toNat % 8 = 0) :
    BoundaryConsistent address p := by
  by_cases reached : ∃ i, Reaches address p i
  · obtain ⟨i, here⟩ := reached
    exact Or.inl ⟨i, here, aligned i here.1⟩
  · refine Or.inr ⟨?_, ?_⟩
    · rintro ⟨i, here, _⟩
      exact absurd ⟨i, here⟩ reached
    · rintro ⟨i, here, _⟩
      exact absurd ⟨i, here⟩ reached

/-- The endpoint that both matchers choose. -/
def endpointBytes (p : Pred) (a : SockAddrs) : Fin 16 → U8 :=
  if p.a = 0 then a.localIP else a.remoteIP

theorem kernel_set_agrees_iff (args : List Expr) (neg : U8) (preds : List Pred)
    (built : ipInPreds args neg = some preds) (p : Pred) (member : p ∈ preds) (family : U16)
    (known : KnownFamily family) (a : SockAddrs) (ev : Event)
    (localIP : ev.localIP = decodeIP family a.localIP)
    (remoteIP : ev.remoteIP = decodeIP family a.remoteIP) :
    (evIPInSet ev p = true ↔
      ∃ i, Matches networkPlace (normalized family (endpointBytes p a)) p i) ∧
    (koIPInSet p.a family a p = evIPInSet ev p ↔
      BoundaryConsistent (normalized family (endpointBytes p a)) p) ∧
    ((∀ i : Fin maxIPSet, i.val < p.n.toNat → (p.plen i).toNat % 8 = 0) →
      koIPInSet p.a family a p = evIPInSet ev p) := by
  obtain ⟨which, valid⟩ := ip_in_preds_valid args neg preds built p member
  have kernel := ko_ip_in_set_iff p.a family a known p valid
  have user := ev_ip_in_set_iff ev family a known localIP remoteIP p valid
  have endpoint : (if p.a = 1 then a.remoteIP else a.localIP) = endpointBytes p a := by
    rcases which with zero | one
    · simp [endpointBytes, zero]
    · simp [endpointBytes, one]
  rw [endpoint] at user
  rw [← endpointBytes] at kernel
  generalize normalized family (endpointBytes p a) = address at user kernel
  have exact_ : koIPInSet p.a family a p = evIPInSet ev p ↔ BoundaryConsistent address p := by
    rw [Bool.eq_iff_iff, kernel, user, boundary_consistent_iff]
    exact Iff.comm
  exact ⟨user, exact_, fun aligned => exact_.mpr (aligned_consistent address p aligned)⟩

def remoteV4 (b0 b1 b2 b3 : U8) : SockAddrs where
  localIP := fun _ => 0
  remoteIP := arrayOf 16 [b0, b1, b2, b3]

def remoteEvent (a : SockAddrs) : Event where
  localIP := decodeIP afInet a.localIP
  remoteIP := decodeIP afInet a.remoteIP

/-- 172.16.0.1 against `ko_private_cidrs`: its boundary byte is that of 172.16.0.0/12. -/
theorem kernel_set_agrees_private :
    ∃ p, ipInPreds [.ident "ko_remote_addr", .ident "ko_private_cidrs"] 0 = some [p] ∧
      evIPInSet (remoteEvent (remoteV4 172 16 0 1)) p = true ∧
      koIPInSet p.a afInet (remoteV4 172 16 0 1) p =
        evIPInSet (remoteEvent (remoteV4 172 16 0 1)) p := by
  refine ⟨_, rfl, by decide, ?_⟩
  refine (kernel_set_agrees_iff [.ident "ko_remote_addr", .ident "ko_private_cidrs"] 0 _ rfl _
    List.mem_cons_self afInet (Or.inl rfl) (remoteV4 172 16 0 1) (remoteEvent (remoteV4 172 16 0 1))
    rfl rfl).2.1.mpr ?_
  decide

/-- 172.17.0.1 against `ko_private_cidrs`, which lists 172.16.0.0/12. -/
theorem kernel_set_misses_private :
    ∃ p, ipInPreds [.ident "ko_remote_addr", .ident "ko_private_cidrs"] 0 = some [p] ∧
      koIPInSet p.a afInet (remoteV4 172 17 0 1) p = false ∧
      evIPInSet (remoteEvent (remoteV4 172 17 0 1)) p = true :=
  ⟨_, rfl, by decide, by decide⟩

end KoAgent.KernelCidr
