import KoAgent.FilterCompiler
import KoAgent.NetAddressRoundtrip
import KoAgent.PredicateMachine

/-!
# CIDR sets as predicates

`ipInPreds` stores up to four prefixes in the arrays of one predicate. Entry by
entry, the byte-wise matcher of the interpreter agrees with `Prefix.Contains` on
the prefix the entry came from, so a set predicate means membership in one of
the listed networks, unless a listed prefix is IPv4-mapped.
-/

namespace KoAgent.CidrSets

open KoAgent.ByteWords KoAgent.NetAddress KoAgent.NetAddressRoundtrip KoAgent.FilterModel
open KoAgent.CelExpression KoAgent.FilterCompiler KoAgent.PredicateMachine

set_option autoImplicit false

theorem high_mask_bit (rem : Nat) (small : rem < 8) (bit : Nat) (inside : bit < 8) :
    ((0xff : Byte) <<< (8 - rem)).getLsbD bit = decide (7 - bit < rem) := by
  have cases : ∀ (rem bit : Fin 8),
      ((0xff : Byte) <<< (8 - rem.val)).getLsbD bit.val = decide (7 - bit.val < rem.val) := by decide
  exact cases ⟨rem, small⟩ ⟨bit, inside⟩

theorem masked_bytes_agree (left right : Byte) (rem : Nat) (small : rem < 8) :
    (left &&& (0xff : Byte) <<< (8 - rem) == right &&& (0xff : Byte) <<< (8 - rem)) = true ↔
      BoundaryAgree networkPlace left right rem := by
  rw [beq_iff_eq]
  constructor
  · intro same index inside
    have bit := congrArg (fun value : Byte => value.getLsbD (7 - index)) same
    simpa only [networkPlace, BitVec.getLsbD_and, high_mask_bit rem small (7 - index) (by omega),
      show 7 - (7 - index) < rem by omega, decide_true, Bool.and_true] using bit
  · intro agree
    apply BitVec.eq_of_getLsbD_eq
    intro bit inside
    rw [BitVec.getLsbD_and, BitVec.getLsbD_and, high_mask_bit rem small bit inside]
    by_cases high : 7 - bit < rem
    · have source := agree (7 - bit) high
      simp only [networkPlace, show 7 - (7 - bit) = bit by omega] at source
      rw [source]
    · simp [high]

/-- The byte loop and the boundary mask compare the first `plen` bits in network order. -/
theorem prefix_match_within_iff (maxBits : Nat) (a b : List Byte) (plen : Nat) :
    prefixMatchWithin maxBits a b plen = true ↔
      plen ≤ maxBits ∧ OrderedAgree networkPlace a b plen := by
  rw [ordered_agree_iff networkPlace network_place_covers]
  have whole : ((List.range (plen / 8)).any fun i => byteAt a i != byteAt b i) = false ↔
      BytesAgree a b (plen / 8) := by
    simp [List.any_eq_false, BytesAgree]
  unfold prefixMatchWithin
  by_cases long : plen > maxBits
  · rw [if_pos long]
    simp [Nat.not_le.mpr long]
  · rw [if_neg long]
    dsimp only
    by_cases bytes : BytesAgree a b (plen / 8)
    · rw [whole.mpr bytes, if_neg Bool.false_ne_true]
      by_cases rem : plen % 8 > 0
      · rw [if_pos rem, masked_bytes_agree _ _ _ (Nat.mod_lt _ (by decide))]
        simp [Nat.le_of_not_gt long, bytes]
      · have zero : plen % 8 = 0 := by omega
        simp [zero, Nat.le_of_not_gt long, bytes, BoundaryAgree]
    · have differ : ((List.range (plen / 8)).any fun i => byteAt a i != byteAt b i) = true := by
        rw [← Bool.not_eq_false]
        exact fun same => bytes (whole.mp same)
      rw [if_pos differ]
      simp [bytes]

theorem without_zone_plain (addr : Addr) (plain : addr.hasZone = false) :
    addr.withoutZone = addr := by
  cases addr with
  | v4 bytes => rfl
  | v6 bytes name =>
      cases name with
      | nil => rfl
      | cons symbol rest => cases plain

/-- A parsed prefix has a length within its family and no zone. -/
theorem parse_prefix_valid (text : NumeralText.Text) (pfx : Prefix)
    (parsed : parsePrefix text = some pfx) :
    0 ≤ pfx.bits ∧ pfx.bits ≤ pfx.addr.bitLen ∧ pfx.addr.hasZone = false := by
  unfold parsePrefix at parsed
  obtain ⟨parts, _, parsed⟩ := Option.bind_eq_some_iff.mp parsed
  obtain ⟨addr, _, parsed⟩ := Option.bind_eq_some_iff.mp parsed
  split_ifs at parsed with zone
  obtain ⟨bits, length, parsed⟩ := Option.bind_eq_some_iff.mp parsed
  obtain rfl := Option.some.inj parsed
  have bound : bits ≤ addr.bitLen := by
    unfold parseDecimal at length
    split_ifs at length
    simpa using (Option.filter_eq_some_iff.mp length).2
  have plain := without_zone_plain addr (by simpa using zone)
  have range : (0 : Int) ≤ bits ∧ (bits : Int) ≤ addr.bitLen := by omega
  simp only [prefixFrom, plain, if_pos range]
  exact ⟨range.1, range.2, by simpa using zone⟩

/-- Entry `slot` of a set predicate holds the prefix `pfx`. -/
structure SlotHolds (q : Pred) (slot : Fin maxIPSet) (pfx : Prefix) : Prop where
  plen : q.plen slot = BitVec.ofInt 16 pfx.bits
  fam : q.fam slot = if pfx.addr.is4 then 4 else 6
  bytes : ∀ index, byteAt (List.ofFn (q.addr slot)) index = byteAt pfx.addr.asSlice index

theorem as_slice_length (addr : Addr) : addr.asSlice.length ≤ 16 := by
  cases addr <;> simp [Addr.asSlice]

theorem set_prefix_holds (p : Pred) (slot : Fin maxIPSet) (pfx : Prefix)
    (empty : p.addr slot = fun _ => 0) : SlotHolds (setPrefix p slot.val pfx) slot pfx where
  plen := by simp [setPrefix]
  fam := by simp [setPrefix]
  bytes := by
    intro index
    have length := as_slice_length pfx.addr
    rw [byte_at_ofFn]
    by_cases copied : index < pfx.addr.asSlice.length
    · have inside : index < 16 := by omega
      simp [setPrefix, inside, copied]
    · have outside : byteAt pfx.addr.asSlice index = 0 := by
        simp [byteAt, List.getD_eq_getElem?_getD, List.getElem?_eq_none (Nat.le_of_not_lt copied)]
      by_cases inside : index < 16
      · simp [setPrefix, inside, copied, empty, outside]
      · simp [inside, outside]

/-- What the loop over the CIDR strings leaves in the arrays, by induction over
the strings: earlier entries stay, and each string's entry holds its prefix. -/
theorem fill_prefixes_spec (values : List String) (p q : Pred) (i : Nat)
    (empty : ∀ slot : Fin maxIPSet, i ≤ slot.val → p.addr slot = fun _ => 0)
    (filled : fillPrefixes p i values = some q) :
    (q.kind = p.kind ∧ q.a = p.a ∧ q.b = p.b ∧ q.n = p.n) ∧
      (∀ slot : Fin maxIPSet, slot.val < i →
        q.plen slot = p.plen slot ∧ q.fam slot = p.fam slot ∧ q.addr slot = p.addr slot) ∧
      ∀ (slot : Fin maxIPSet) (index : Nat) (value : String), slot.val = i + index →
        values[index]? = some value →
          ∃ pfx, parsePrefix value.toList = some pfx ∧ SlotHolds q slot pfx := by
  induction values generalizing p i with
  | nil =>
      obtain rfl := Option.some.inj filled
      exact ⟨⟨rfl, rfl, rfl, rfl⟩, fun _ _ => ⟨rfl, rfl, rfl⟩, by simp⟩
  | cons first rest induction =>
      rw [fillPrefixes] at filled
      cases parsed : parsePrefix first.toList with
      | none => simp [parsed] at filled
      | some pfx =>
          simp only [parsed] at filled
          have later : ∀ slot : Fin maxIPSet, i + 1 ≤ slot.val →
              (setPrefix p i pfx).addr slot = fun _ => 0 := by
            intro slot above
            funext byte
            simp [setPrefix, show slot.val ≠ i by omega, empty slot (by omega)]
          obtain ⟨header, kept, entries⟩ := induction (setPrefix p i pfx) (i + 1) later filled
          refine ⟨header, ?_, ?_⟩
          · intro slot below
            obtain ⟨plen, fam, addr⟩ := kept slot (by omega)
            rw [plen, fam, addr]
            simp [setPrefix, show slot.val ≠ i by omega]
          · intro slot index value place member
            cases index with
            | zero =>
                obtain rfl : first = value := by simpa using member
                obtain ⟨plen, fam, addr⟩ := kept slot (by omega)
                have here : slot.val = i := by omega
                have holds := set_prefix_holds p slot pfx (empty slot (by omega))
                rw [here] at holds
                exact ⟨pfx, parsed, plen.trans holds.plen, fam.trans holds.fam, by
                  rw [addr]
                  exact holds.bytes⟩
            | succ index => exact entries slot index value (by omega) (by simpa using member)

theorem ip_set_pred_spec (which neg : U8) (values : List String) (q : Pred)
    (built : ipSetPred which neg values = some q) :
    values.length ≤ 4 ∧ q.kind = predIPSet ∧ q.a = which ∧ q.b = neg ∧
      q.n.toNat = values.length ∧
      ∀ (slot : Fin maxIPSet) (value : String), values[slot.val]? = some value →
        ∃ pfx, parsePrefix value.toList = some pfx ∧ SlotHolds q slot pfx := by
  unfold ipSetPred at built
  split_ifs at built with long
  have short : values.length ≤ 4 := by
    simpa [maxIPSet] using long
  obtain ⟨⟨kind, a, b, n⟩, _, entries⟩ := fill_prefixes_spec values _ q 0 (by simp) built
  refine ⟨short, kind, a, b, ?_, ?_⟩
  · rw [n, BitVec.toNat_ofNat]
    exact Nat.mod_eq_of_lt (by omega)
  · intro slot value member
    exact entries slot slot.val value (by omega) member

/-- Whether the prefix, as it is spelled, contains the address. -/
def spelledContains (address : Addr) (cidr : String) : Bool :=
  (parsePrefix cidr.toList).elim false fun pfx => pfx.contains address

/-- A disjunction over the used entries is a disjunction over the strings. -/
theorem any_slot_iff (values : List String) (test : Fin maxIPSet → Bool) (meaning : String → Bool)
    (short : values.length ≤ 4)
    (same : ∀ (slot : Fin maxIPSet) (value : String), values[slot.val]? = some value →
      test slot = meaning value) :
    ((List.finRange maxIPSet).any fun slot => decide (slot.val < values.length) && test slot) =
      values.any meaning := by
  rw [Bool.eq_iff_iff]
  simp only [List.any_eq_true, List.mem_finRange, true_and, Bool.and_eq_true, decide_eq_true_eq]
  constructor
  · rintro ⟨slot, inside, holds⟩
    have member : values[slot.val]? = some values[slot.val] := List.getElem?_eq_getElem inside
    exact ⟨_, List.getElem_mem inside, by rw [← same slot _ member]; exact holds⟩
  · rintro ⟨value, member, holds⟩
    obtain ⟨index, inside, rfl⟩ := List.mem_iff_getElem.mp member
    have bound : index < maxIPSet := by simp only [maxIPSet]; omega
    refine ⟨⟨index, bound⟩, inside, ?_⟩
    rw [same ⟨index, bound⟩ values[index] (List.getElem?_eq_getElem inside)]
    exact holds

theorem ev_ip_in_empty_set (ev : Event) (p : Pred) (empty : p.n = 0) : evIPInSet ev p = false := by
  unfold evIPInSet
  dsimp only
  split_ifs
  · rfl
  · rw [List.any_eq_false]
    intro slot _
    simp [empty]

theorem to4_length (ip four : IP) (converted : to4 ip = some four) : four.length = 4 := by
  unfold to4 at converted
  split_ifs at converted with short mapped
  · obtain rfl := Option.some.inj converted
    exact short
  · obtain rfl := Option.some.inj converted
    simp [mapped.1]

theorem slot_plen (q : Pred) (slot : Fin maxIPSet) (pfx : Prefix) (holds : SlotHolds q slot pfx)
    (nonneg : 0 ≤ pfx.bits) (bound : pfx.bits ≤ pfx.addr.bitLen) :
    (q.plen slot).toNat = pfx.bits.toNat := by
  obtain ⟨count, countEq⟩ : ∃ count : Nat, pfx.bits = count := ⟨pfx.bits.toNat, by omega⟩
  have small : count ≤ 128 := by
    cases family : pfx.addr <;> simp only [family, Addr.bitLen, countEq] at bound <;> omega
  rw [holds.plen, countEq, BitVec.ofInt_natCast, BitVec.toNat_ofNat, Int.toNat_natCast]
  exact Nat.mod_eq_of_lt (by omega)

/-- One array entry against `Prefix.Contains` on the prefix it was made from. -/
theorem cidr_match_contains (ip : IP) (shape : ip.length = 4 ∨ ip.length = 16) (q : Pred)
    (slot : Fin maxIPSet) (pfx : Prefix) (holds : SlotHolds q slot pfx) (nonneg : 0 ≤ pfx.bits)
    (bound : pfx.bits ≤ pfx.addr.bitLen) :
    cidrMatch ip q slot = pfx.contains (addrOfIP ip) := by
  have plen := slot_plen q slot pfx holds nonneg bound
  have valid : pfx.isValid = true := by simpa [Prefix.isValid] using nonneg
  obtain ⟨count, countEq⟩ : ∃ count : Nat, pfx.bits = count := ⟨pfx.bits.toNat, by omega⟩
  rw [Bool.eq_iff_iff]
  cases four : to4 ip with
  | some bytes =>
      have length := to4_length ip bytes four
      simp only [cidrMatch, addrOfIP, four, Prefix.contains, valid]
      cases family : pfx.addr with
      | v4 network =>
          have same := holds.bytes
          simp only [family, Addr.asSlice] at same
          have short : count ≤ 32 := by
            simp only [family, Addr.bitLen, countEq] at bound
            omega
          have words := words_be_agree 4 bytes (List.ofFn network) length (by simp) count (by omega)
          simp only [Nat.reduceMul] at words
          simp only [holds.fam, family, Addr.is4, Addr.hasZone, prefixMatch4, plen, countEq,
            prefix_match_within_iff, ofFn_array_of 4 bytes length, Int.toNat_natCast, Bool.and_eq_true,
            beq_iff_eq, words, ordered_agree_congr _ _ _ _ _ same, ordered_agree_comm _ bytes]
          simp [short]
      | v6 network zone => simp [holds.fam, family, Addr.is4]
  | none =>
      have long : ip.length = 16 := by
        rcases shape with short | long
        · simp [to4, short] at four
        · exact long
      have sixteen : to16 ip = some ip := by simp [to16, long]
      simp only [cidrMatch, addrOfIP, four, Prefix.contains, valid, sixteen]
      cases family : pfx.addr with
      | v4 network => simp [holds.fam, family, Addr.is4]
      | v6 network zone =>
          have same := holds.bytes
          simp only [family, Addr.asSlice] at same
          have short : count ≤ 128 := by
            simp only [family, Addr.bitLen, countEq] at bound
            omega
          have words := words_be_agree 16 ip (List.ofFn network) long (by simp) count (by omega)
          simp only [Nat.reduceMul] at words
          simp only [holds.fam, family, Addr.is4, Addr.hasZone, prefixMatch, plen, countEq,
            prefix_match_within_iff, ofFn_array_of 16 ip long, Int.toNat_natCast, Bool.and_eq_true,
            Option.getD_some, beq_iff_eq, words, ordered_agree_congr _ _ _ _ _ same,
            ordered_agree_comm _ ip]
          simp [short]

/-- A set predicate means membership in one of the prefixes as they are spelled. -/
theorem ip_set_pred_spelled (ev : Event) (which neg : U8) (values : List String) (q : Pred)
    (built : ipSetPred which neg values = some q) (ip : IP)
    (endpoint : ip = if which = 1 then ev.remoteIP else ev.localIP)
    (shape : ip.length = 4 ∨ ip.length = 16) :
    evIPInSet ev q = values.any (spelledContains (addrOfIP ip)) := by
  obtain ⟨short, _, a, _, n, entries⟩ := ip_set_pred_spec which neg values q built
  have chosen : evIP ev q = ip := by rw [evIP, a, endpoint]
  have present : ip.length ≠ 0 := by omega
  rw [evIPInSet, chosen]
  simp only [present, if_false, n]
  apply any_slot_iff values _ _ short
  intro slot value member
  obtain ⟨pfx, parsed, holds⟩ := entries slot value member
  obtain ⟨nonneg, bound, _⟩ := parse_prefix_valid _ pfx parsed
  rw [cidr_match_contains ip shape q slot pfx holds nonneg bound, spelledContains, parsed]
  rfl

end KoAgent.CidrSets
