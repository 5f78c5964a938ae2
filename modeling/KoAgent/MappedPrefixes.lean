import KoAgent.PushdownMeaning

/-!
# IPv4-mapped CIDRs

A CIDR `a.b.c.d/p` can be spelled `::ffff:a.b.c.d/(96+p)`. `AddrInCIDRs` unmaps
the address of that prefix but keeps its length, which is too long for IPv4, and
`ipInPreds` stores it as an IPv6 prefix, which no IPv4 address is compared with.
On both paths the mapped spelling contains nothing, so it stands for its IPv4
form only where the IPv4 form makes no difference.
-/

namespace KoAgent.MappedPrefixes

open KoAgent.ByteWords KoAgent.NumeralText KoAgent.NetAddress KoAgent.NetAddressRoundtrip
open KoAgent.FilterModel KoAgent.CelExpression KoAgent.FilterCompiler KoAgent.CidrSets
open KoAgent.PushdownMeaning
open KoAgent.PredicateMachine hiding cmpField

set_option autoImplicit false

theorem decimal_no_slash (number : Nat) : '/' ∉ decimal number :=
  separator_not_in_digits 10 number (by decide) (by decide) '/' (by decide)

theorem parse_prefix_decimal (text : Text) (addr : Addr) (bits : Nat)
    (read : parseAddr text = some addr) (plain : addr.hasZone = false) (fits : bits ≤ addr.bitLen) :
    parsePrefix (text ++ '/' :: decimal bits) = some { addr := addr, bits := bits } := by
  have range : (0 : Int) ≤ bits ∧ (bits : Int) ≤ addr.bitLen := by omega
  rw [parsePrefix, cut_last_append '/' _ _ (decimal_no_slash bits), Option.bind_eq_bind,
    Option.bind_some]
  dsimp only
  rw [read, Option.bind_eq_bind, Option.bind_some, if_neg (by rw [plain]; exact Bool.false_ne_true),
    parse_decimal_decimal _ bits fits, Option.bind_eq_bind, Option.bind_some, prefixFrom,
    if_pos range, without_zone_plain addr plain]

section Spellings

variable (bytes : Fin 4 → Byte) (p : Nat)

def cidrText : String := String.ofList (string4 bytes ++ '/' :: decimal p)

def mappedTag : Text := "::ffff:".toList

def mappedText : String :=
  String.ofList ((mappedTag ++ string4 bytes) ++ '/' :: decimal (96 + p))

def mappedArray : Fin 16 → Byte :=
  arrayOf 16 (List.replicate 10 0 ++ [0xff, 0xff] ++ List.ofFn bytes)

theorem parse_prefix_plain (short : p ≤ 32) :
    parsePrefix (cidrText bytes p).toList = some { addr := .v4 bytes, bits := p } := by
  rw [cidrText, String.toList_ofList]
  exact parse_prefix_decimal _ _ p (parse_addr_string4 bytes) rfl short

theorem string4_no_colon : ':' ∉ string4 bytes ∧ '%' ∉ string4 bytes := by
  have digits : ∀ digit : Fin 16, ':' ≠ digit.val.digitChar ∧ '%' ≠ digit.val.digitChar := by decide
  constructor
  · intro member
    rcases string4_symbols bytes ':' member with ⟨digit, small, same⟩ | same
    · exact (digits ⟨digit, small⟩).1 same
    · exact absurd same (by decide)
  · intro member
    rcases string4_symbols bytes '%' member with ⟨digit, small, same⟩ | same
    · exact (digits ⟨digit, small⟩).2 same
    · exact absurd same (by decide)

theorem dot_in_string4 : '.' ∈ string4 bytes := by
  simp only [string4, List.ofFn_succ, List.map_cons]
  exact separator_in_intercalate _ _ _ _

/-- The tail of the mapped spelling: one hexadecimal group and a dotted address. -/
theorem parse_side_mapped :
    parseSide ("ffff:".toList ++ string4 bytes) = some ([0xff, 0xff] ++ List.ofFn bytes) := by
  have split : ("ffff:".toList ++ string4 bytes).splitOn ':' = ["ffff".toList, string4 bytes] := by
    have join : "ffff:".toList ++ string4 bytes =
        [':'].intercalate ["ffff".toList, string4 bytes] := by
      rw [List.intercalate_cons_cons]
      simp
    rw [join]
    apply List.splitOn_intercalate
    · intro field member
      rcases List.mem_cons.mp member with rfl | last
      · decide
      · rw [List.mem_singleton.mp last]
        exact (string4_no_colon bytes).1
    · simp
  have group : parseGroup "ffff".toList = some [0xff, 0xff] := by decide
  rw [parseSide, if_neg (by simp), split, parseFields, group]
  simp only [parseFields, dot_in_string4, if_true, parse_ipv4_fields_string4]
  rfl

theorem parse_addr_mapped :
    parseAddr (mappedTag ++ string4 bytes) = some (.v6 (mappedArray bytes) []) := by
  have zone : '%' ∉ mappedTag ++ string4 bytes := by
    rw [List.mem_append, not_or]
    exact ⟨by decide, (string4_no_colon bytes).2⟩
  have text : mappedTag ++ string4 bytes = ':' :: ':' :: ("ffff:".toList ++ string4 bytes) := rfl
  have body : parseIPv6Body (mappedTag ++ string4 bytes) =
      some (List.replicate 10 0 ++ [0xff, 0xff] ++ List.ofFn bytes) := by
    rw [text, parseIPv6Body, cutEllipsis]
    dsimp only
    rw [if_neg (by simp), parse_side_mapped, show parseSide [] = some [] from rfl]
    rfl
  rw [parseAddr, text, List.find?_cons_of_pos (by decide), ← text]
  simp only [parseIPv6, cut_first_absent '%' _ zone, body, Option.map_some, mappedArray]

theorem parse_prefix_mapped (short : p ≤ 32) :
    parsePrefix (mappedText bytes p).toList =
      some { addr := .v6 (mappedArray bytes) [], bits := (96 + p : Nat) } := by
  have fits : 96 + p ≤ 128 := by omega
  rw [mappedText, String.toList_ofList]
  exact parse_prefix_decimal _ _ (96 + p) (parse_addr_mapped bytes) rfl fits

end Spellings

section Containment

variable (bytes : Fin 4 → Byte) (p : Nat) (short : p ≤ 32)

include short

def plainPrefix (bytes : Fin 4 → Byte) (p : Nat) : Prefix where
  addr := .v4 bytes
  bits := p

omit short in
theorem mapped_array_slice :
    List.ofFn (mappedArray bytes) = List.replicate 10 0 ++ [0xff, 0xff] ++ List.ofFn bytes :=
  ofFn_array_of 16 _ (by simp)

omit short in
theorem mapped_array_mapped : Addr.mappedBytes (List.ofFn (mappedArray bytes)) = true := by
  rw [mapped_array_slice, Addr.mappedBytes, List.take_left' (by simp)]
  exact beq_self_eq_true _

/-- The unmapped address with the length of the mapped prefix is no prefix at all. -/
theorem cidr_contains_mapped (address : Addr) :
    cidrContains address (mappedText bytes p) = false := by
  have invalid : ¬((0 : Int) ≤ (96 + p : Nat) ∧ ((96 + p : Nat) : Int) ≤ (32 : Nat)) := by omega
  rw [cidrContains, parse_prefix_mapped bytes p short]
  simp only [Addr.is4In6, mapped_array_mapped, if_true, Addr.unmap, prefixFrom, Addr.bitLen]
  rw [if_neg invalid]
  rfl

theorem cidr_contains_plain (address : Addr) :
    cidrContains address (cidrText bytes p) = (plainPrefix bytes p).contains address := by
  rw [cidrContains, parse_prefix_plain bytes p short]
  rfl

theorem spelled_contains_plain (address : Addr) :
    spelledContains address (cidrText bytes p) = (plainPrefix bytes p).contains address := by
  rw [spelledContains, parse_prefix_plain bytes p short]
  rfl

omit short in
theorem mapped_of_agree (address : Fin 16 → Byte) (count : Nat) (long : 96 ≤ count)
    (agree : OrderedAgree networkPlace (List.ofFn address) (List.ofFn (mappedArray bytes)) count) :
    Addr.mappedBytes (List.ofFn address) = true := by
  have front := ((ordered_agree_iff networkPlace network_place_covers _ _ _).mp agree).1
  have same : (List.ofFn address).take 12 = (List.ofFn (mappedArray bytes)).take 12 := by
    rw [← map_byte_at_range ((List.ofFn address).take 12),
      ← map_byte_at_range ((List.ofFn (mappedArray bytes)).take 12)]
    simp only [List.length_take, List.length_ofFn]
    apply List.map_congr_left
    intro index inside
    have small : index < 12 := by simpa using List.mem_range.mp inside
    rw [byte_at_take _ _ _ small, byte_at_take _ _ _ small]
    exact front index (by omega)
  rw [Addr.mappedBytes, same]
  exact mapped_array_mapped bytes

/-- An address that agrees with a mapped prefix is itself mapped, so its unmapped
form is of the other family. -/
theorem spelled_contains_mapped (address : Addr) :
    spelledContains address.unmap (mappedText bytes p) = false := by
  rw [spelledContains, parse_prefix_mapped bytes p short, Option.elim_some]
  cases address with
  | v4 network => simp [Prefix.contains, Addr.unmap]
  | v6 network zone =>
      rw [Addr.unmap]
      cases mapped : Addr.mappedBytes (List.ofFn network) with
      | true => simp [Prefix.contains]
      | false =>
          rw [if_neg Bool.false_ne_true, ← Bool.not_eq_true]
          intro inside
          simp only [Prefix.contains, Bool.and_eq_true, beq_iff_eq] at inside
          have words := words_be_agree 16 (List.ofFn network) (List.ofFn (mappedArray bytes))
            (by simp) (by simp) (96 + p) (by omega)
          have agree := mapped_of_agree bytes network (96 + p) (by omega) (words.mp inside.2)
          rw [mapped] at agree
          cases agree

end Containment

def cidrList (cidrs : List String) : Expr := .list (cidrs.map fun cidr => .literal (.string cidr))

/-- The address `AddrInCIDRs` reads from its argument, with or without a port. -/
def addressOf (addr : String) : Option Addr :=
  parseAddr (match splitHostPort addr.toList with
    | some (host, _) => host
    | none => addr.toList)

theorem addr_in_cidrs_address (addr : String) (address : Addr) (cidrs : List String)
    (read : addressOf addr = some address) :
    addrInCIDRs addr cidrs = cidrs.any (cidrContains address.unmap) := by
  have parsed : addrInCIDRs addr cidrs =
      (addressOf addr).elim false fun ip => cidrs.any (cidrContains ip.unmap) := by
    rw [addrInCIDRs, addressOf]
    cases parseAddr _ <;> rfl
  rw [parsed, read, Option.elim_some]

theorem literal_strings_list (cidrs : List String) :
    listOfStrings (cidrList cidrs) = .ok cidrs := by
  rw [cidrList, listOfStrings]
  induction cidrs with
  | nil => rfl
  | cons cidr rest induction =>
      rw [List.map_cons, literalStrings, literalOf, induction]
      rfl

theorem fill_prefixes_some (values : List String) (p : Pred) (i : Nat) :
    (fillPrefixes p i values).isSome = values.all fun value => (parsePrefix value.toList).isSome := by
  induction values generalizing p i with
  | nil => rfl
  | cons value rest induction =>
      rw [fillPrefixes, List.all_cons]
      cases parsePrefix value.toList with
      | none => rfl
      | some pfx => rw [induction, Option.isSome_some, Bool.true_and]

theorem ip_in_preds_list (name : String) (which neg : U8) (known : whichOf name = some which)
    (cidrs : List String) (nonempty : cidrs ≠ []) :
    ipInPreds [.ident name, cidrList cidrs] neg = (ipSetPred which neg cidrs).map fun q => [q] := by
  obtain ⟨first, rest, rfl⟩ := List.exists_cons_of_ne_nil nonempty
  simp only [ipInPreds, identOf, known, literal_strings_list]

/-- Replacing one list of CIDRs by another changes no answer for the address, on
neither path, and does not part the two paths. -/
structure SameAnswers (addr : String) (ev : Event) (name : String) (neg : U8)
    (cidrs others : List String) : Prop where
  text : addrInCIDRs addr others = addrInCIDRs addr cidrs
  set : ∀ q, ipInPreds [.ident name, cidrList cidrs] neg = some [q] →
    ∃ r, ipInPreds [.ident name, cidrList others] neg = some [r] ∧ evIPInSet ev r = evIPInSet ev q
  agree : ∀ q r, ipInPreds [.ident name, cidrList cidrs] neg = some [q] →
    ipInPreds [.ident name, cidrList others] neg = some [r] →
      evIPInSet ev q = addrInCIDRs addr cidrs → evIPInSet ev r = addrInCIDRs addr others

theorem same_answers_refused (addr : String) (ev : Event) (name : String) (neg : U8)
    (cidrs others : List String) (refused : ipInPreds [.ident name, cidrList cidrs] neg = none) :
    SameAnswers addr ev name neg cidrs others ↔
      addrInCIDRs addr others = addrInCIDRs addr cidrs := by
  constructor
  · exact fun answers => answers.text
  · intro text
    refine ⟨text, fun q built => ?_, fun q r built => ?_⟩
    · rw [refused] at built
      cases built
    · rw [refused] at built
      cases built

theorem same_answers_built (addr : String) (ev : Event) (name : String) (neg : U8)
    (cidrs others : List String) (q r : Pred)
    (built : ipInPreds [.ident name, cidrList cidrs] neg = some [q])
    (rebuilt : ipInPreds [.ident name, cidrList others] neg = some [r]) :
    SameAnswers addr ev name neg cidrs others ↔
      addrInCIDRs addr others = addrInCIDRs addr cidrs ∧ evIPInSet ev r = evIPInSet ev q := by
  have only : ∀ p, ipInPreds [.ident name, cidrList cidrs] neg = some [p] → p = q := by
    intro p other
    simpa [built] using other.symm
  have onlyOther : ∀ p, ipInPreds [.ident name, cidrList others] neg = some [p] → p = r := by
    intro p other
    simpa [rebuilt] using other.symm
  constructor
  · intro answers
    obtain ⟨p, found, equal⟩ := answers.set q built
    obtain rfl := onlyOther p found
    exact ⟨answers.text, equal⟩
  · rintro ⟨text, set⟩
    refine ⟨text, fun p found => ?_, fun p p' found foundOther agreed => ?_⟩
    · obtain rfl := only p found
      exact ⟨r, rebuilt, set⟩
    · obtain rfl := only p found
      obtain rfl := onlyOther p' foundOther
      rw [set, agreed, text]

theorem any_middle (test : String → Bool) (before after : List String) (middle : String) :
    (before ++ middle :: after).any test = (test middle || (before ++ after).any test) := by
  simp only [List.any_append, List.any_cons]
  cases before.any test <;> cases test middle <;> rfl

theorem or_absorbed_iff (inside rest : Bool) :
    rest = (inside || rest) ↔ inside = false ∨ rest = true := by
  cases inside <;> cases rest <;> decide

section Replacement

variable (bytes : Fin 4 → Byte) (p : Nat) (short : p ≤ 32) (before after : List String)

include short

/-- Both spellings are accepted in the same lists. -/
theorem ip_set_pred_respelled (which neg : U8) (q : Pred)
    (built : ipSetPred which neg (before ++ cidrText bytes p :: after) = some q) :
    ∃ r, ipSetPred which neg (before ++ mappedText bytes p :: after) = some r := by
  unfold ipSetPred at built ⊢
  split_ifs at built with long
  have small : ¬(before ++ mappedText bytes p :: after).length > maxIPSet := by
    simpa using long
  rw [if_neg small]
  apply Option.isSome_iff_exists.mp
  have parsed := congrArg Option.isSome built
  rw [fill_prefixes_some, Option.isSome_some, List.all_append, List.all_cons,
    parse_prefix_plain bytes p short, Option.isSome_some, Bool.true_and] at parsed
  rw [fill_prefixes_some, List.all_append, List.all_cons, parse_prefix_mapped bytes p short,
    Option.isSome_some, Bool.true_and]
  exact parsed

theorem addr_in_cidrs_respelled (addr : String) (address : Addr)
    (read : addressOf addr = some address) :
    addrInCIDRs addr (before ++ mappedText bytes p :: after) =
        (before ++ after).any (cidrContains address.unmap) ∧
      addrInCIDRs addr (before ++ cidrText bytes p :: after) =
        ((plainPrefix bytes p).contains address.unmap ||
          (before ++ after).any (cidrContains address.unmap)) := by
  rw [addr_in_cidrs_address addr address _ read, addr_in_cidrs_address addr address _ read,
    any_middle, any_middle, cidr_contains_mapped bytes p short, cidr_contains_plain bytes p short,
    Bool.false_or]
  exact ⟨rfl, rfl⟩

theorem ev_ip_in_set_respelled (ev : Event) (which neg : U8) (q r : Pred) (ip : IP)
    (endpoint : ip = if which = 1 then ev.remoteIP else ev.localIP)
    (shape : ip.length = 4 ∨ ip.length = 16) (address : Addr) (same : addrOfIP ip = address.unmap)
    (plain : ipSetPred which neg (before ++ cidrText bytes p :: after) = some q)
    (mapped : ipSetPred which neg (before ++ mappedText bytes p :: after) = some r) :
    evIPInSet ev r = (before ++ after).any (spelledContains address.unmap) ∧
      evIPInSet ev q = ((plainPrefix bytes p).contains address.unmap ||
        (before ++ after).any (spelledContains address.unmap)) := by
  rw [ip_set_pred_spelled ev which neg _ r mapped ip endpoint shape,
    ip_set_pred_spelled ev which neg _ q plain ip endpoint shape, same, any_middle, any_middle,
    spelled_contains_mapped bytes p short, spelled_contains_plain bytes p short, Bool.false_or]
  exact ⟨rfl, rfl⟩

/-- The mapped spelling answers as the IPv4 CIDR exactly for the addresses outside
that CIDR and for those that the other CIDRs of the list already cover. -/
theorem mapped_cidr_same_answers_iff (addr : String) (address : Addr)
    (read : addressOf addr = some address) (ev : Event) (name : String) (which neg : U8)
    (known : whichOf name = some which) (ip : IP)
    (endpoint : ip = if which = 1 then ev.remoteIP else ev.localIP)
    (shape : ip.length = 4 ∨ ip.length = 16) (same : addrOfIP ip = address.unmap) :
    SameAnswers addr ev name neg (before ++ cidrText bytes p :: after)
        (before ++ mappedText bytes p :: after) ↔
      (plainPrefix bytes p).contains address.unmap = false ∨
        ((∃ cidr ∈ before ++ after, cidrContains address.unmap cidr = true) ∧
          ((ipInPreds [.ident name, cidrList (before ++ cidrText bytes p :: after)] neg).isSome →
            ∃ cidr ∈ before ++ after, spelledContains address.unmap cidr = true)) := by
  obtain ⟨respelled, original⟩ :=
    addr_in_cidrs_respelled bytes p short before after addr address read
  have plainList := ip_in_preds_list name which neg known (before ++ cidrText bytes p :: after)
    (by simp)
  have mappedList := ip_in_preds_list name which neg known (before ++ mappedText bytes p :: after)
    (by simp)
  have text : addrInCIDRs addr (before ++ mappedText bytes p :: after) =
      addrInCIDRs addr (before ++ cidrText bytes p :: after) ↔
        (plainPrefix bytes p).contains address.unmap = false ∨
          (before ++ after).any (cidrContains address.unmap) = true := by
    rw [respelled, original]
    exact or_absorbed_iff _ _
  rw [← List.any_eq_true, ← List.any_eq_true, plainList, Option.isSome_map]
  cases plain : ipSetPred which neg (before ++ cidrText bytes p :: after) with
  | none =>
      rw [plain, Option.map_none] at plainList
      rw [same_answers_refused _ _ _ _ _ _ plainList, text]
      simp
  | some q =>
      obtain ⟨r, mapped⟩ := ip_set_pred_respelled bytes p short before after which neg q plain
      rw [plain, Option.map_some] at plainList
      rw [mapped, Option.map_some] at mappedList
      obtain ⟨mappedSet, plainSet⟩ := ev_ip_in_set_respelled bytes p short before after ev which neg
        q r ip endpoint shape address same plain mapped
      rw [same_answers_built _ _ _ _ _ _ q r plainList mappedList, text, mappedSet, plainSet,
        or_absorbed_iff, ← or_and_left]
      simp

end Replacement

def privateNet : Fin 4 → Byte := arrayOf 4 [10, 0, 0, 0]

def remoteEvent (ip : IP) : Event := { type := evtConnClosed, remoteIP := ip, remotePort := 443 }

/-- `10.1.2.3` is in `10.0.0.0/8`, and in `::ffff:10.0.0.0/104` on neither path. -/
theorem mapped_cidr_contains_nothing :
    cidrText privateNet 8 = "10.0.0.0/8" ∧
      mappedText privateNet 8 = "::ffff:10.0.0.0/104" ∧
      addrInCIDRs "10.1.2.3:443" ["10.0.0.0/8"] = true ∧
      addrInCIDRs "10.1.2.3:443" ["::ffff:10.0.0.0/104"] = false ∧
      (∃ q, ipInPreds [.ident "ko_remote_addr", cidrList ["10.0.0.0/8"]] 0 = some [q] ∧
        evIPInSet (remoteEvent [10, 1, 2, 3]) q = true) ∧
      ∃ r, ipInPreds [.ident "ko_remote_addr", cidrList ["::ffff:10.0.0.0/104"]] 0 = some [r] ∧
        evIPInSet (remoteEvent [10, 1, 2, 3]) r = false := by
  refine ⟨by decide +kernel, by decide +kernel, by decide +kernel, by decide +kernel, ?_, ?_⟩
  · exact ⟨_, rfl, by decide +kernel⟩
  · exact ⟨_, rfl, by decide +kernel⟩

/-- `192.168.0.1` is outside `10.0.0.0/8`; `10.1.2.3` is in it, and in `10.1.0.0/16` too. -/
theorem mapped_cidr_same_answers_covered :
    SameAnswers "[::ffff:192.168.0.1]:443" (remoteEvent [192, 168, 0, 1]) "ko_remote_addr" 0
        ([] ++ cidrText privateNet 8 :: ["fd00::/8"])
        ([] ++ mappedText privateNet 8 :: ["fd00::/8"]) ∧
      SameAnswers "10.1.2.3:443" (remoteEvent [10, 1, 2, 3]) "ko_remote_addr" 0
        ([] ++ cidrText privateNet 8 :: ["10.1.0.0/16"])
        ([] ++ mappedText privateNet 8 :: ["10.1.0.0/16"]) := by
  constructor
  · apply (mapped_cidr_same_answers_iff privateNet 8 (by decide) [] ["fd00::/8"]
      "[::ffff:192.168.0.1]:443" (.v6 (mappedArray (arrayOf 4 [192, 168, 0, 1])) [])
      (by decide +kernel) (remoteEvent [192, 168, 0, 1]) "ko_remote_addr" 1 0 rfl [192, 168, 0, 1]
      rfl (Or.inl rfl) (by decide +kernel)).mpr
    exact Or.inl (by decide +kernel)
  · apply (mapped_cidr_same_answers_iff privateNet 8 (by decide) [] ["10.1.0.0/16"] "10.1.2.3:443"
      (.v4 (arrayOf 4 [10, 1, 2, 3])) (by decide +kernel) (remoteEvent [10, 1, 2, 3])
      "ko_remote_addr" 1 0 rfl [10, 1, 2, 3] rfl (Or.inl rfl) (by decide +kernel)).mpr
    have covered : "10.1.0.0/16" ∈ [] ++ ["10.1.0.0/16"] := List.mem_cons_self
    exact Or.inr ⟨⟨_, covered, by decide +kernel⟩, fun _ => ⟨_, covered, by decide +kernel⟩⟩

end KoAgent.MappedPrefixes
