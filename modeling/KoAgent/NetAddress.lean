import KoAgent.ByteWords
import KoAgent.NumeralText
import Mathlib.Data.Fintype.Pi

/-!
# `net.IP`, `netip.Addr` and `netip.Prefix`

The parts of Go's `net` and `net/netip` that the filter package calls, as
functions on byte lists and on characters. A `net.IP` is a byte slice whose nil
value is the empty list. The parsers accept what the documentation of
`ParseAddr` and `ParsePrefix` accepts: dotted decimal without leading zeros,
colon-separated hexadecimal groups with at most one `::`, an optional embedded
IPv4 tail and an optional zone; a prefix has no zone and a plain decimal length.
-/

namespace KoAgent.NetAddress

open KoAgent.ByteWords KoAgent.NumeralText

set_option autoImplicit false

inductive Addr where
  | v4 (bytes : Fin 4 → Byte)
  | v6 (bytes : Fin 16 → Byte) (zone : Text)
  deriving DecidableEq

/-- `bits` is -1 in an invalid prefix, as `Prefix.Bits` reports it. -/
structure Prefix where
  addr : Addr
  bits : Int
  deriving DecidableEq

abbrev IP := List Byte

def arrayOf (count : Nat) (bytes : List Byte) : Fin count → Byte := fun index => byteAt bytes index

namespace Addr

def bitLen : Addr → Nat
  | .v4 _ => 32
  | .v6 _ _ => 128

def is4 : Addr → Bool
  | .v4 _ => true
  | .v6 _ _ => false

def hasZone : Addr → Bool
  | .v4 _ => false
  | .v6 _ zone => !zone.isEmpty

def withoutZone : Addr → Addr
  | .v4 bytes => .v4 bytes
  | .v6 bytes _ => .v6 bytes []

def mappedBytes (bytes : List Byte) : Bool :=
  bytes.take 12 == List.replicate 10 0 ++ [0xff, 0xff]

def is4In6 : Addr → Bool
  | .v4 _ => false
  | .v6 bytes _ => mappedBytes (List.ofFn bytes)

/-- An IPv4-mapped IPv6 address as IPv4; every other address unchanged. -/
def unmap : Addr → Addr
  | .v4 bytes => .v4 bytes
  | .v6 bytes zone =>
      if mappedBytes (List.ofFn bytes) then .v4 (arrayOf 4 ((List.ofFn bytes).drop 12))
      else .v6 bytes zone

/-- The bytes of an address, `As4` or `As16` by its family. -/
def asSlice : Addr → List Byte
  | .v4 bytes => List.ofFn bytes
  | .v6 bytes _ => List.ofFn bytes

end Addr

/-- Bits beyond the address length, or below zero, make the prefix invalid. -/
def prefixFrom (addr : Addr) (bits : Int) : Prefix where
  addr := addr.withoutZone
  bits := if 0 ≤ bits ∧ bits ≤ addr.bitLen then bits else -1

namespace Prefix

def isValid (p : Prefix) : Bool := 0 ≤ p.bits

/-- The compared bits are the top ones of the big-endian address words; an
address of the other family is never contained. -/
def contains (p : Prefix) (ip : Addr) : Bool :=
  p.isValid && !ip.hasZone &&
    match p.addr, ip with
    | .v4 network, .v4 address =>
        (wordBE 32 (List.ofFn address) ^^^ wordBE 32 (List.ofFn network)) >>>
          (32 - p.bits.toNat) == 0
    | .v6 network _, .v6 address _ =>
        (wordBE 128 (List.ofFn address) ^^^ wordBE 128 (List.ofFn network)) >>>
          (128 - p.bits.toNat) == 0
    | _, _ => false

end Prefix

def decimal (number : Nat) : Text := Nat.toDigits 10 number

/-- A decimal field without a leading zero whose value is at most `bound`. -/
def parseDecimal (bound : Nat) (text : Text) : Option Nat :=
  if 1 < text.length ∧ text.head? = some '0' then none
  else (readNumeral 10 text).filter (· ≤ bound)

def string4 (bytes : Fin 4 → Byte) : Text :=
  ['.'].intercalate ((List.ofFn bytes).map fun byte => decimal byte.toNat)

def parseIPv4Fields (text : Text) : Option (List Byte) := do
  let fields ← (text.splitOn '.').mapM (parseDecimal 255)
  if fields.length = 4 then some (fields.map (BitVec.ofNat 8)) else none

def parseIPv4 (text : Text) : Option Addr :=
  (parseIPv4Fields text).map fun fields => .v4 (arrayOf 4 fields)

/-- The eight 16-bit groups of an IPv6 address. -/
def groups (bytes : Fin 16 → Byte) : List Nat :=
  (List.range 8).map fun group =>
    256 * (byteAt (List.ofFn bytes) (2 * group)).toNat +
      (byteAt (List.ofFn bytes) (2 * group + 1)).toNat

/-- The end of the run of zero groups that starts at `start`. -/
def zeroRunEnd (fields : List Nat) : Nat → Nat → Nat
  | 0, start => start
  | fuel + 1, start =>
      if start < 8 ∧ fields.getD start 1 = 0 then zeroRunEnd fields fuel (start + 1) else start

/-- The leftmost longest run of at least two zero groups. -/
def longestZeroRun (fields : List Nat) : Option (Nat × Nat) :=
  (List.range 8).foldl
    (fun best start =>
      let stop := zeroRunEnd fields 8 start
      let length := best.elim 0 fun run => run.2 - run.1
      if 2 ≤ stop - start ∧ length < stop - start then some (start, stop) else best)
    none

def joinGroups (fields : List Nat) : Text := [':'].intercalate (fields.map (Nat.toDigits 16))

def string6 (bytes : Fin 16 → Byte) : Text :=
  match longestZeroRun (groups bytes) with
  | none => joinGroups (groups bytes)
  | some (start, stop) =>
      joinGroups ((groups bytes).take start) ++ [':', ':'] ++ joinGroups ((groups bytes).drop stop)

/-- The parts before and after the first `::`. -/
def cutEllipsis : Text → Option (Text × Text)
  | [] => none
  | ':' :: ':' :: rest => some ([], rest)
  | symbol :: rest => (cutEllipsis rest).map fun parts => (symbol :: parts.1, parts.2)

def parseGroup (text : Text) : Option (List Byte) :=
  if 4 < text.length then none
  else (readNumeral 16 text).map fun value => [BitVec.ofNat 8 (value / 256), BitVec.ofNat 8 value]

/-- Colon-separated groups; only the last field may be dotted decimal. -/
def parseFields : List Text → Option (List Byte)
  | [] => some []
  | [last] => if '.' ∈ last then parseIPv4Fields last else parseGroup last
  | field :: next :: rest => do
      let head ← parseGroup field
      let tail ← parseFields (next :: rest)
      some (head ++ tail)

def parseSide (text : Text) : Option (List Byte) :=
  if text = [] then some [] else parseFields (text.splitOn ':')

def parseIPv6Body (text : Text) : Option (List Byte) :=
  match cutEllipsis text with
  | none => (parseFields (text.splitOn ':')).filter (·.length = 16)
  | some (before, after) =>
      if '.' ∈ before then none
      else do
        let head ← parseSide before
        let tail ← parseSide after
        if head.length + tail.length < 16 then
          some (head ++ List.replicate (16 - (head.length + tail.length)) 0 ++ tail)
        else none

def parseIPv6 (text : Text) : Option Addr :=
  match cutFirst '%' text with
  | none => (parseIPv6Body text).map fun bytes => .v6 (arrayOf 16 bytes) []
  | some (body, zone) =>
      if zone = [] then none
      else (parseIPv6Body body).map fun bytes => .v6 (arrayOf 16 bytes) zone

/-- The first of `.`, `:` and `%` in the text decides its family. -/
def parseAddr (text : Text) : Option Addr :=
  match text.find? fun symbol => symbol = '.' ∨ symbol = ':' ∨ symbol = '%' with
  | some '.' => parseIPv4 text
  | some ':' => parseIPv6 text
  | _ => none

def parsePrefix (text : Text) : Option Prefix := do
  let (address, length) ← cutLast '/' text
  let addr ← parseAddr address
  if addr.hasZone then none
  else do
    let bits ← parseDecimal addr.bitLen length
    some (prefixFrom addr bits)

def to4 (ip : IP) : Option IP :=
  if ip.length = 4 then some ip
  else if ip.length = 16 ∧ Addr.mappedBytes ip then some (ip.drop 12)
  else none

def to16 (ip : IP) : Option IP :=
  if ip.length = 4 then some (List.replicate 10 0 ++ [0xff, 0xff] ++ ip)
  else if ip.length = 16 then some ip
  else none

def hexBytes (ip : IP) : Text :=
  ip.flatMap fun byte => [(byte.toNat / 16).digitChar, (byte.toNat % 16).digitChar]

def ipToString (ip : IP) : Text :=
  if ip = [] then "<nil>".toList
  else match to4 ip with
    | some four => string4 (arrayOf 4 four)
    | none => if ip.length = 16 then string6 (arrayOf 16 ip) else '?' :: hexBytes ip

def joinHostPort (host port : Text) : Text :=
  if ':' ∈ host then '[' :: host ++ [']', ':'] ++ port else host ++ ':' :: port

def bracketedHost (rest port : Text) : Option (Text × Text) :=
  match cutFirst ']' rest with
  | some (host, []) => if '[' ∈ host ∨ '[' ∈ port ∨ ']' ∈ port then none else some (host, port)
  | _ => none

/-- `net.SplitHostPort`; an error is `none`. A bracketed host must end right
before the last colon, an unbracketed one contains no colon, and no further
bracket may follow. -/
def splitHostPort (text : Text) : Option (Text × Text) :=
  (cutLast ':' text).bind fun parts =>
    if parts.1.head? = some '[' then bracketedHost parts.1.tail parts.2
    else if ':' ∈ parts.1 ∨ '[' ∈ text ∨ ']' ∈ text then none
    else some parts

end KoAgent.NetAddress
