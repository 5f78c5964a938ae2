import Mathlib.Data.Char
import Mathlib.Data.List.Lex
import KoAgent.FilterModel
import KoAgent.NetAddressRoundtrip

/-!
# Checked CEL expressions and their evaluation

The expression tree is the one `cel-go` hands to the compiler: operators are
calls of named functions. The CEL library itself is not part of the repository,
so parsing, program construction and evaluation are the fields of `Cel`, and
`Lawful` states the documented meaning of the constructs the filters use. The
one function the repository adds, `ip_in`, is transcribed here and bound by the
last law.
-/

namespace KoAgent.CelExpression

open KoAgent.ByteWords KoAgent.NumeralText KoAgent.NetAddress KoAgent.FilterModel

set_option autoImplicit false

/-- Function names of call nodes, with CEL's spelling in the order below: `_&&_`,
`!_`, `_==_`, `_!=_`, `_<_`, `_<=_`, `_>_`, `_>=_`, `@in`, `ip_in`. -/
inductive Function where
  | logicalAnd
  | logicalNot
  | equals
  | notEquals
  | less
  | lessEquals
  | greater
  | greaterEquals
  | inList
  | ipIn
  | other (name : String)
  deriving DecidableEq

/-- CEL integers are `int64`, kept as their 64 bits. -/
inductive Literal where
  | int (value : U64)
  | string (value : String)
  | bool (value : Bool)
  | other (text : String)
  deriving DecidableEq

inductive Expr where
  | ident (name : String)
  | literal (value : Literal)
  | list (elements : List Expr)
  | call (function : Function) (args : List Expr)
  | other (text : String)

inductive Value where
  | bool (value : Bool)
  | int (value : U64)
  | string (value : String)
  | list (values : List Value)
  | other (text : String)

abbrev Activation := String → Option Value

abbrev Outcome := Except String Value

abbrev Program := Activation → Outcome

structure Cel where
  parse : String → Except String Expr
  check : Expr → Except String Expr
  program : Expr → Except String Program
  eval : Expr → Program

def stringValues : List Value → Option (List String)
  | [] => some []
  | .string value :: rest => (stringValues rest).map fun values => value :: values
  | _ :: _ => none

/-- One CIDR of `AddrInCIDRs`; an unparsable one is skipped. -/
def cidrContains (ip : Addr) (cidr : String) : Bool :=
  match parsePrefix cidr.toList with
  | none => false
  | some p =>
      let network := if p.addr.is4In6 then prefixFrom p.addr.unmap p.bits else p
      network.contains ip

def addrInCIDRs (addr : String) (cidrs : List String) : Bool :=
  let host := match splitHostPort addr.toList with
    | some (host, _) => host
    | none => addr.toList
  match parseAddr host with
  | none => false
  | some ip => cidrs.any (cidrContains ip.unmap)

/-- The binding of `ip_in`. -/
def ipInVal : Value → Value → Outcome
  | .string addr, .list values =>
      match stringValues values with
      | some cidrs => .ok (.bool (addrInCIDRs addr cidrs))
      | none => .error "ip_in: cidrs must be strings"
  | .string _, _ => .error "ip_in: invalid cidr list"
  | _, _ => .error "ip_in: invalid address"

/-- The comparison operators on two `int64` values. -/
def intCompare : Function → Option (U64 → U64 → Bool)
  | .equals => some fun left right => left == right
  | .notEquals => some fun left right => left != right
  | .less => some fun left right => left.slt right
  | .lessEquals => some fun left right => left.sle right
  | .greater => some fun left right => right.slt left
  | .greaterEquals => some fun left right => right.sle left
  | _ => none

/-- The comparison operators on two strings, ordered by code points. -/
def stringCompare : Function → Option (String → String → Bool)
  | .equals => some fun left right => left == right
  | .notEquals => some fun left right => left != right
  | .less => some fun left right => left.toList < right.toList
  | .lessEquals => some fun left right => left.toList ≤ right.toList
  | .greater => some fun left right => right.toList < left.toList
  | .greaterEquals => some fun left right => right.toList ≤ left.toList
  | _ => none

/-- What the filters rely on of CEL: a program runs its expression, an identifier
is looked up in the activation, literals and lists denote themselves, the logical
operators act on booleans, comparisons are those of the values, `@in` is list
membership, and `ip_in` calls its binding. -/
structure Cel.Lawful (cel : Cel) : Prop where
  program_eval : ∀ e prg, cel.program e = .ok prg → prg = cel.eval e
  ident : ∀ name act value, act name = some value → cel.eval (.ident name) act = .ok value
  int : ∀ value act, cel.eval (.literal (.int value)) act = .ok (.int value)
  string : ∀ value act, cel.eval (.literal (.string value)) act = .ok (.string value)
  list : ∀ elements values act,
    List.Forall₂ (fun e value => cel.eval e act = .ok value) elements values →
      cel.eval (.list elements) act = .ok (.list values)
  logicalAnd : ∀ l r left right act, cel.eval l act = .ok (.bool left) →
    cel.eval r act = .ok (.bool right) →
      cel.eval (.call .logicalAnd [l, r]) act = .ok (.bool (left && right))
  logicalNot : ∀ e value act, cel.eval e act = .ok (.bool value) →
    cel.eval (.call .logicalNot [e]) act = .ok (.bool !value)
  intCompare : ∀ function compare l r left right act, intCompare function = some compare →
    cel.eval l act = .ok (.int left) → cel.eval r act = .ok (.int right) →
      cel.eval (.call function [l, r]) act = .ok (.bool (compare left right))
  stringCompare : ∀ function compare l r left right act, stringCompare function = some compare →
    cel.eval l act = .ok (.string left) → cel.eval r act = .ok (.string right) →
      cel.eval (.call function [l, r]) act = .ok (.bool (compare left right))
  inList : ∀ l r value (values : List String) act, cel.eval l act = .ok (.string value) →
    cel.eval r act = .ok (.list (values.map Value.string)) →
      cel.eval (.call .inList [l, r]) act = .ok (.bool (values.contains value))
  ipIn : ∀ l r left right act, cel.eval l act = .ok left → cel.eval r act = .ok right →
    cel.eval (.call .ipIn [l, r]) act = ipInVal left right

end KoAgent.CelExpression
