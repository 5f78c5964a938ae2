import KoAgent.NetAddress

/-!
# Printed addresses parse back

Every address that `net.IP.String` prints is read back by `netip.ParseAddr` as
the same address, an IPv4-mapped one as IPv4. The IPv6 case follows the shape of
the text: the groups before and after the compressed run are read one by one,
and the run itself is what the parser fills in.
-/

namespace KoAgent.NetAddressRoundtrip

open KoAgent.ByteWords KoAgent.NumeralText KoAgent.NetAddress

set_option autoImplicit false

theorem map_m_map {Item Field Value : Type} (read : Field → Option Value) (write : Item → Field)
    (value : Item → Value) (items : List Item)
    (roundtrip : ∀ item ∈ items, read (write item) = some (value item)) :
    (items.map write).mapM read = some (items.map value) := by
  induction items with
  | nil => rfl
  | cons item items induction =>
      have rest := induction fun other member => roundtrip other (List.mem_cons_of_mem _ member)
      simp [List.mapM_cons, roundtrip item List.mem_cons_self, rest]

theorem map_byte_at_range (bytes : List Byte) :
    (List.range bytes.length).map (byteAt bytes) = bytes := by
  apply List.ext_getElem
  · simp
  · intro index leftBound rightBound
    rw [List.getElem_map, List.getElem_range, byteAt]
    exact List.getD_eq_getElem _ _ rightBound

theorem array_of_ofFn {count : Nat} (bytes : Fin count → Byte) :
    arrayOf count (List.ofFn bytes) = bytes := by
  funext index
  simp [arrayOf, byteAt, List.getD_eq_getElem?_getD]

theorem ofFn_array_of (count : Nat) (bytes : List Byte) (length : bytes.length = count) :
    List.ofFn (arrayOf count bytes) = bytes := by
  subst length
  rw [List.ofFn_eq_map]
  conv_rhs => rw [← map_byte_at_range bytes]
  rw [← List.map_coe_finRange_eq_range, List.map_map]
  rfl

theorem parse_decimal_decimal (bound number : Nat) (small : number ≤ bound) :
    parseDecimal bound (decimal number) = some number := by
  have canonical : ¬(1 < (decimal number).length ∧ (decimal number).head? = some '0') := by
    rintro ⟨long, leading⟩
    have zero := to_digits_leading_zero 10 number (by decide) leading
    subst zero
    simp [decimal] at long
  rw [parseDecimal, if_neg canonical, decimal,
    read_numeral_to_digits 10 number (by decide) (by decide)]
  simp [Option.filter, small]

theorem parse_ipv4_fields_string4 (bytes : Fin 4 → Byte) :
    parseIPv4Fields (string4 bytes) = some (List.ofFn bytes) := by
  have split : (string4 bytes).splitOn '.' =
      (List.ofFn bytes).map fun byte => decimal byte.toNat := by
    apply List.splitOn_intercalate
    · intro field member
      obtain ⟨byte, _, rfl⟩ := List.mem_map.mp member
      exact separator_not_in_digits 10 _ (by decide) (by decide) '.' (by decide)
    · simp
  have fields := map_m_map (parseDecimal 255) (fun byte : Byte => decimal byte.toNat)
    BitVec.toNat (List.ofFn bytes) (by
      intro byte member
      exact parse_decimal_decimal 255 byte.toNat (by have := byte.isLt; omega))
  simp only [parseIPv4Fields, split, fields]
  simp

/-- When a text consists of digits and one kind of separator, that separator
is the symbol that decides the address family. -/
theorem find_family (separator : Char) (text : Text)
    (special : separator = '.' ∨ separator = ':')
    (symbols : ∀ symbol ∈ text, (∃ digit, digit < 16 ∧ symbol = digit.digitChar) ∨
      symbol = separator)
    (present : separator ∈ text) :
    (text.find? fun symbol => symbol = '.' ∨ symbol = ':' ∨ symbol = '%') = some separator := by
  induction text with
  | nil => simp at present
  | cons symbol rest induction =>
      rcases symbols symbol List.mem_cons_self with ⟨digit, small, rfl⟩ | rfl
      · have plain : ∀ value : Fin 16, ¬(value.val.digitChar = '.' ∨ value.val.digitChar = ':' ∨
            value.val.digitChar = '%') := by decide
        have different : separator ≠ digit.digitChar := by
          intro same
          apply plain ⟨digit, small⟩
          rcases special with dot | colon
          · exact Or.inl (same ▸ dot)
          · exact Or.inr (Or.inl (same ▸ colon))
        rw [List.find?_cons_of_neg (by simp)]
        apply induction
        · intro other member
          exact symbols other (List.mem_cons_of_mem _ member)
        · exact (List.mem_cons.mp present).resolve_left different
      · rw [List.find?_cons_of_pos]
        rcases special with rfl | rfl <;> decide

theorem intercalate_symbols (separator : Char) (fields : List Text) (symbol : Char)
    (member : symbol ∈ [separator].intercalate fields) :
    (∃ field ∈ fields, symbol ∈ field) ∨ symbol = separator := by
  induction fields with
  | nil => simp at member
  | cons field rest induction =>
      cases rest with
      | nil => exact Or.inl ⟨field, List.mem_cons_self, by simpa using member⟩
      | cons next rest =>
          rw [List.intercalate_cons_cons, List.mem_append, List.mem_append] at member
          rcases member with (here | here) | later
          · exact Or.inl ⟨field, List.mem_cons_self, here⟩
          · exact Or.inr (List.mem_singleton.mp here)
          · rcases induction later with ⟨other, inside, found⟩ | same
            · exact Or.inl ⟨other, List.mem_cons_of_mem _ inside, found⟩
            · exact Or.inr same

theorem separator_in_intercalate (separator : Char) (first second : Text) (rest : List Text) :
    separator ∈ [separator].intercalate (first :: second :: rest) := by
  rw [List.intercalate_cons_cons]
  simp

theorem string4_symbols (bytes : Fin 4 → Byte) (symbol : Char) (member : symbol ∈ string4 bytes) :
    (∃ digit, digit < 16 ∧ symbol = digit.digitChar) ∨ symbol = '.' := by
  rcases intercalate_symbols '.' _ symbol member with ⟨field, inside, found⟩ | same
  · obtain ⟨byte, _, rfl⟩ := List.mem_map.mp inside
    obtain ⟨digit, small, rfl⟩ := to_digits_symbols 10 _ (by decide) symbol found
    exact Or.inl ⟨digit, by omega, rfl⟩
  · exact Or.inr same

theorem parse_addr_string4 (bytes : Fin 4 → Byte) :
    parseAddr (string4 bytes) = some (.v4 bytes) := by
  have dot : '.' ∈ string4 bytes := by
    simp only [string4, List.ofFn_succ, List.map_cons]
    exact separator_in_intercalate _ _ _ _
  have family := find_family '.' (string4 bytes) (Or.inl rfl) (string4_symbols bytes) dot
  rw [parseAddr, family]
  simp only [parseIPv4, parse_ipv4_fields_string4, Option.map_some, array_of_ofFn]

def groupBytes (group : Nat) : List Byte := [BitVec.ofNat 8 (group / 256), BitVec.ofNat 8 group]

theorem parse_group_to_digits (group : Nat) (small : group < 65536) :
    parseGroup (Nat.toDigits 16 group) = some (groupBytes group) := by
  have short : (Nat.toDigits 16 group).length ≤ 4 :=
    (Nat.length_toDigits_le_iff (by decide) (by decide)).mpr (by simpa using small)
  rw [parseGroup, if_neg (by omega), read_numeral_to_digits 16 group (by decide) (by decide)]
  rfl

theorem parse_fields_to_digits (fields : List Nat) (small : ∀ group ∈ fields, group < 65536) :
    parseFields (fields.map (Nat.toDigits 16)) = some (fields.flatMap groupBytes) := by
  induction fields with
  | nil => rfl
  | cons group rest induction =>
      have head := parse_group_to_digits group (small group List.mem_cons_self)
      have tail := induction fun other member => small other (List.mem_cons_of_mem _ member)
      cases rest with
      | nil =>
          have noDot := separator_not_in_digits 16 group (by decide) (by decide) '.' (by decide)
          simp [parseFields, noDot, head]
      | cons next rest =>
          simp only [List.map_cons] at tail
          simp [parseFields, head, tail]

theorem join_groups_split (fields : List Nat) (nonempty : fields ≠ []) :
    (joinGroups fields).splitOn ':' = fields.map (Nat.toDigits 16) := by
  apply List.splitOn_intercalate
  · intro field member
    obtain ⟨group, _, rfl⟩ := List.mem_map.mp member
    exact separator_not_in_digits 16 _ (by decide) (by decide) ':' (by decide)
  · simpa using nonempty

theorem join_groups_head (group : Nat) (rest : List Nat) :
    ∃ digit tail, digit < 16 ∧ joinGroups (group :: rest) = digit.digitChar :: tail := by
  obtain ⟨symbol, tail, shape⟩ := List.exists_cons_of_ne_nil (Nat.toDigits_ne_nil (n := group) (b := 16))
  obtain ⟨digit, small, rfl⟩ := to_digits_symbols 16 group (by decide) symbol (by simp [shape])
  cases rest with
  | nil => exact ⟨digit, tail, small, by simp [joinGroups, shape]⟩
  | cons next rest =>
      exact ⟨digit, tail ++ [':'] ++ joinGroups (next :: rest), small, by
        simp [joinGroups, List.intercalate_cons_cons, shape]⟩

theorem parse_side_join_groups (fields : List Nat) (small : ∀ group ∈ fields, group < 65536) :
    parseSide (joinGroups fields) = some (fields.flatMap groupBytes) := by
  cases fields with
  | nil => rfl
  | cons group rest =>
      obtain ⟨digit, tail, _, shape⟩ := join_groups_head group rest
      rw [parseSide, if_neg (by simp [shape]), join_groups_split _ (by simp)]
      exact parse_fields_to_digits _ small

theorem cut_ellipsis_plain (run rest : Text) (plain : ':' ∉ run) :
    cutEllipsis (run ++ rest) =
      (cutEllipsis rest).map fun parts => (run ++ parts.1, parts.2) := by
  induction run with
  | nil => simp
  | cons symbol run induction =>
      simp only [List.mem_cons, not_or] at plain
      rw [List.cons_append, cutEllipsis, induction plain.2]
      · simp [Option.map_map, Function.comp_def]
      · intro other shape
        exact absurd shape (Ne.symm plain.1)

theorem cut_ellipsis_single_colon (rest : Text) (single : rest.head? ≠ some ':') :
    cutEllipsis (':' :: rest) = (cutEllipsis rest).map fun parts => (':' :: parts.1, parts.2) := by
  rw [cutEllipsis]
  rintro other _ rfl
  exact single rfl

/-- The first `::` is never inside joined groups. -/
theorem cut_ellipsis_join_groups (fields : List Nat) (rest : Text) :
    cutEllipsis (joinGroups fields ++ rest) =
      (cutEllipsis rest).map fun parts => (joinGroups fields ++ parts.1, parts.2) := by
  induction fields with
  | nil => simp [joinGroups]
  | cons group fields induction =>
      have plain := separator_not_in_digits 16 group (by decide) (by decide) ':' (by decide)
      cases fields with
      | nil => simpa [joinGroups] using cut_ellipsis_plain (Nat.toDigits 16 group) rest plain
      | cons next fields =>
          obtain ⟨digit, tail, small, shape⟩ := join_groups_head next fields
          have single : (joinGroups (next :: fields) ++ rest).head? ≠ some ':' := by
            rw [shape, List.cons_append, List.head?_cons]
            have none : ∀ value : Fin 16, some value.val.digitChar ≠ some ':' := by decide
            exact none ⟨digit, small⟩
          have unfolded : joinGroups (group :: next :: fields) =
              Nat.toDigits 16 group ++ ':' :: joinGroups (next :: fields) := by
            simp [joinGroups, List.intercalate_cons_cons]
          rw [unfolded, List.append_assoc, cut_ellipsis_plain _ _ plain, List.cons_append,
            cut_ellipsis_single_colon _ single, induction]
          simp [Option.map_map, Function.comp_def]

theorem groups_length (bytes : Fin 16 → Byte) : (groups bytes).length = 8 := by
  simp [groups]

theorem groups_small (bytes : Fin 16 → Byte) (group : Nat) (member : group ∈ groups bytes) :
    group < 65536 := by
  obtain ⟨index, _, rfl⟩ := List.mem_map.mp member
  have high := (byteAt (List.ofFn bytes) (2 * index)).isLt
  have low := (byteAt (List.ofFn bytes) (2 * index + 1)).isLt
  omega

theorem group_bytes_pair (high low : Byte) :
    groupBytes (256 * high.toNat + low.toNat) = [high, low] := by
  have bound := low.isLt
  have quotient : (256 * high.toNat + low.toNat) / 256 = high.toNat := by omega
  rw [groupBytes, quotient]
  congr 1
  · simp
  · congr 1
    apply BitVec.eq_of_toNat_eq
    simp only [BitVec.toNat_ofNat]
    omega

theorem groups_bytes (bytes : Fin 16 → Byte) :
    (groups bytes).flatMap groupBytes = List.ofFn bytes := by
  have pairs : (groups bytes).flatMap groupBytes =
      (List.range 8).flatMap fun index =>
        [byteAt (List.ofFn bytes) (2 * index), byteAt (List.ofFn bytes) (2 * index + 1)] := by
    simp only [groups, List.flatMap_map, group_bytes_pair]
  have flat : ((List.range 8).flatMap fun index =>
        [byteAt (List.ofFn bytes) (2 * index), byteAt (List.ofFn bytes) (2 * index + 1)]) =
      (List.range 16).map (byteAt (List.ofFn bytes)) := rfl
  rw [pairs, flat]
  simpa only [List.length_ofFn] using map_byte_at_range (List.ofFn bytes)

/-- A run of zero groups inside the eight groups of an address. -/
def ZeroRun (fields : List Nat) (start stop : Nat) : Prop :=
  stop ≤ 8 ∧ ∀ index, start ≤ index → index < stop → fields.getD index 1 = 0

theorem zero_run_end_spec (fields : List Nat) (fuel start : Nat) (inside : start ≤ 8) :
    start ≤ zeroRunEnd fields fuel start ∧
      ZeroRun fields start (zeroRunEnd fields fuel start) := by
  induction fuel generalizing start with
  | zero =>
      refine ⟨Nat.le_refl _, inside, ?_⟩
      intro index lower upper
      simp only [zeroRunEnd] at upper
      omega
  | succ fuel induction =>
      unfold zeroRunEnd
      split_ifs with zero
      · obtain ⟨further, bound, zeros⟩ := induction (start + 1) (by omega)
        refine ⟨by omega, bound, ?_⟩
        intro index lower upper
        by_cases first : index = start
        · rw [first]
          exact zero.2
        · exact zeros index (by omega) upper
      · refine ⟨Nat.le_refl _, inside, ?_⟩
        intro index lower upper
        omega

theorem longest_zero_run_spec (fields : List Nat) (start stop : Nat)
    (chosen : longestZeroRun fields = some (start, stop)) :
    start < stop ∧ ZeroRun fields start stop := by
  have invariant : ∀ (starts : List Nat) (best : Option (Nat × Nat)),
      (∀ index ∈ starts, index ≤ 8) →
      (∀ run, best = some run → run.1 < run.2 ∧ ZeroRun fields run.1 run.2) →
      ∀ run, starts.foldl
        (fun best start =>
          let stop := zeroRunEnd fields 8 start
          let length := best.elim 0 fun run => run.2 - run.1
          if 2 ≤ stop - start ∧ length < stop - start then some (start, stop) else best)
        best = some run → run.1 < run.2 ∧ ZeroRun fields run.1 run.2 := by
    intro starts
    induction starts with
    | nil =>
        intro best _ good run same
        exact good run same
    | cons first rest induction =>
        intro best bounded good run same
        rw [List.foldl_cons] at same
        apply induction _ (fun index member => bounded index (List.mem_cons_of_mem _ member)) _ run same
        intro candidate updated
        dsimp only at updated
        split_ifs at updated with longer
        · obtain rfl := Option.some.inj updated
          have source := zero_run_end_spec fields 8 first (bounded first List.mem_cons_self)
          exact ⟨by dsimp only; omega, source.2⟩
        · exact good candidate updated
  apply invariant (List.range 8) none _ (by simp) (start, stop) chosen
  intro index member
  have := List.mem_range.mp member
  omega

/-- A zero run is what the ellipsis stands for. -/
theorem zero_run_split (fields : List Nat) (start stop : Nat) (length : fields.length = 8)
    (order : start < stop) (run : ZeroRun fields start stop) :
    fields = fields.take start ++ List.replicate (stop - start) 0 ++ fields.drop stop := by
  have bound := run.1
  apply List.ext_getElem
  · simp only [List.length_append, List.length_take, List.length_replicate, List.length_drop]
    omega
  · intro index leftBound rightBound
    by_cases early : index < start
    · rw [List.getElem_append_left (by simp; omega), List.getElem_append_left (by simp; omega),
        List.getElem_take]
    · by_cases inner : index < stop
      · rw [List.getElem_append_left (by simp; omega), List.getElem_append_right (by simp; omega),
          List.getElem_replicate]
        rw [← run.2 index (by omega) inner, List.getD_eq_getElem _ _ leftBound]
      · rw [List.getElem_append_right (by simp; omega), List.getElem_drop]
        congr 1
        simp only [List.length_append, List.length_take, List.length_replicate]
        omega

theorem flat_map_group_bytes_length (fields : List Nat) :
    (fields.flatMap groupBytes).length = 2 * fields.length := by
  induction fields with
  | nil => rfl
  | cons group rest induction =>
      simp only [List.flatMap_cons, List.length_append, induction, List.length_cons, groupBytes,
        List.length_nil]
      omega

theorem flat_map_group_bytes_zero (count : Nat) :
    (List.replicate count 0).flatMap groupBytes = List.replicate (2 * count) 0 := by
  induction count with
  | zero => rfl
  | succ count induction =>
      rw [List.replicate_succ, List.flatMap_cons, induction,
        show 2 * (count + 1) = 2 * count + 1 + 1 by omega, List.replicate_succ, List.replicate_succ]
      rfl

theorem join_groups_symbols (fields : List Nat) (symbol : Char)
    (member : symbol ∈ joinGroups fields) :
    (∃ digit, digit < 16 ∧ symbol = digit.digitChar) ∨ symbol = ':' := by
  rcases intercalate_symbols ':' _ symbol member with ⟨field, inside, found⟩ | same
  · obtain ⟨group, _, rfl⟩ := List.mem_map.mp inside
    exact Or.inl (to_digits_symbols 16 _ (by decide) symbol found)
  · exact Or.inr same

theorem dot_not_in_join_groups (fields : List Nat) : '.' ∉ joinGroups fields := by
  intro member
  rcases join_groups_symbols fields '.' member with ⟨digit, small, same⟩ | same
  · have none : ∀ value : Fin 16, '.' ≠ value.val.digitChar := by decide
    exact none ⟨digit, small⟩ same
  · exact absurd same (by decide)

theorem parse_body_string6 (bytes : Fin 16 → Byte) :
    parseIPv6Body (string6 bytes) = some (List.ofFn bytes) := by
  have small := groups_small bytes
  unfold string6
  cases chosen : longestZeroRun (groups bytes) with
  | none =>
      have uncut : cutEllipsis (joinGroups (groups bytes)) = none := by
        simpa [cutEllipsis] using cut_ellipsis_join_groups (groups bytes) []
      have nonempty : groups bytes ≠ [] := by
        intro empty
        simpa [empty] using groups_length bytes
      simp only [parseIPv6Body, uncut, join_groups_split _ nonempty,
        parse_fields_to_digits _ small, groups_bytes]
      simp [Option.filter]
  | some run =>
      obtain ⟨start, stop⟩ := run
      obtain ⟨order, zeros⟩ := longest_zero_run_spec _ _ _ chosen
      have bound := zeros.1
      have cut : cutEllipsis (joinGroups ((groups bytes).take start) ++ [':', ':'] ++
          joinGroups ((groups bytes).drop stop)) =
            some (joinGroups ((groups bytes).take start), joinGroups ((groups bytes).drop stop)) := by
        rw [List.append_assoc, cut_ellipsis_join_groups]
        simp [cutEllipsis]
      have head := parse_side_join_groups ((groups bytes).take start)
        fun group member => small group (List.mem_of_mem_take member)
      have tail := parse_side_join_groups ((groups bytes).drop stop)
        fun group member => small group (List.mem_of_mem_drop member)
      have whole := congrArg (List.flatMap groupBytes)
        (zero_run_split (groups bytes) start stop (groups_length bytes) order zeros)
      rw [List.flatMap_append, List.flatMap_append, groups_bytes, flat_map_group_bytes_zero] at whole
      have headLength : (((groups bytes).take start).flatMap groupBytes).length = 2 * start := by
        rw [flat_map_group_bytes_length, List.length_take, groups_length]
        omega
      have tailLength : (((groups bytes).drop stop).flatMap groupBytes).length = 2 * (8 - stop) := by
        rw [flat_map_group_bytes_length, List.length_drop, groups_length]
      simp only [parseIPv6Body, cut, head, tail, dot_not_in_join_groups, if_false,
        Option.bind_eq_bind, Option.bind_some, headLength, tailLength]
      rw [if_pos (by omega), whole]
      congr 4
      omega

theorem string6_symbols (bytes : Fin 16 → Byte) (symbol : Char) (member : symbol ∈ string6 bytes) :
    (∃ digit, digit < 16 ∧ symbol = digit.digitChar) ∨ symbol = ':' := by
  unfold string6 at member
  cases chosen : longestZeroRun (groups bytes) with
  | none =>
      simp only [chosen] at member
      exact join_groups_symbols _ symbol member
  | some run =>
      simp only [chosen, List.mem_append] at member
      rcases member with (before | colon) | after
      · exact join_groups_symbols _ symbol before
      · exact Or.inr (by simpa using colon)
      · exact join_groups_symbols _ symbol after

theorem colon_in_string6 (bytes : Fin 16 → Byte) : ':' ∈ string6 bytes := by
  unfold string6
  cases longestZeroRun (groups bytes) with
  | none => exact separator_in_intercalate _ _ _ _
  | some run => simp

theorem parse_addr_string6 (bytes : Fin 16 → Byte) :
    parseAddr (string6 bytes) = some (.v6 bytes []) := by
  have family := find_family ':' (string6 bytes) (Or.inr rfl) (string6_symbols bytes)
    (colon_in_string6 bytes)
  have noZone : '%' ∉ string6 bytes := by
    intro member
    rcases string6_symbols bytes '%' member with ⟨digit, small, same⟩ | same
    · have none : ∀ value : Fin 16, '%' ≠ value.val.digitChar := by decide
      exact none ⟨digit, small⟩ same
    · exact absurd same (by decide)
  rw [parseAddr, family]
  simp only [parseIPv6, cut_first_absent '%' _ noZone, parse_body_string6, Option.map_some,
    array_of_ofFn]

/-- The address a 4- or 16-byte `net.IP` denotes, IPv4-mapped ones as IPv4. -/
def addrOfIP (ip : IP) : Addr :=
  match to4 ip with
  | some four => .v4 (arrayOf 4 four)
  | none => .v6 (arrayOf 16 ip) []

theorem parse_addr_ip_to_string (ip : IP) (shape : ip.length = 4 ∨ ip.length = 16) :
    (parseAddr (ipToString ip)).map Addr.unmap = some (addrOfIP ip) := by
  have present : ip ≠ [] := by
    rintro rfl
    simp at shape
  rw [ipToString, if_neg present, addrOfIP]
  cases four : to4 ip with
  | some bytes =>
      dsimp only
      rw [parse_addr_string4]
      rfl
  | none =>
      have long : ip.length = 16 := by
        rcases shape with short | long
        · simp [to4, short] at four
        · exact long
      have unmapped : Addr.mappedBytes ip = false := by
        simpa [to4, long] using four
      dsimp only
      rw [if_pos long, parse_addr_string6, Option.map_some, Addr.unmap, ofFn_array_of 16 ip long,
        unmapped]
      rfl

theorem split_host_port_join (host port : Text) (open_ : '[' ∉ host) (close : ']' ∉ host)
    (portOpen : '[' ∉ port) (portClose : ']' ∉ port) (portColon : ':' ∉ port) :
    splitHostPort (joinHostPort host port) = some (host, port) := by
  by_cases colon : ':' ∈ host
  · have text : joinHostPort host port = ('[' :: host ++ [']']) ++ ':' :: port := by
      simp [joinHostPort, colon]
    have bracketed : ('[' :: host ++ [']']).head? = some '[' := rfl
    rw [text, splitHostPort, cut_last_append ':' _ _ portColon, Option.bind_some,
      if_pos bracketed, bracketedHost]
    simp [cut_first_append ']' host [] close, open_, portOpen, portClose]
  · have text : joinHostPort host port = host ++ ':' :: port := by
      simp [joinHostPort, colon]
    have plain : host.head? ≠ some '[' := fun first => open_ (List.mem_of_mem_head? first)
    rw [text, splitHostPort, cut_last_append ':' _ _ portColon, Option.bind_some, if_neg plain]
    simp [colon, open_, close, portOpen, portClose]

end KoAgent.NetAddressRoundtrip
