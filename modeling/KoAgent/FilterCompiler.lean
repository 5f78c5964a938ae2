import KoAgent.CelExpression

/-!
# The push-down compiler of `pkg/filter/compile.go`

`conj` turns a checked expression into a flat conjunction of predicates, or
refuses it. The compiler state is passed explicitly and is returned on a refusal
too: atoms interned before a later sibling is refused stay in the state, exactly
as the source's pointer receiver leaves them. An empty predicate list and a
refusal are different results, as they are for the callers in the source.
-/

namespace KoAgent.FilterCompiler

open KoAgent.ByteWords KoAgent.NetAddress KoAgent.FilterModel KoAgent.CelExpression

set_option autoImplicit false

structure AtomKey where
  field : U8
  op : U8
  vals : String
  deriving DecidableEq

structure Compiler where
  atoms : List Atom
  atomIdx : AtomKey → Option Nat

def Compiler.empty : Compiler where
  atoms := []
  atomIdx := fun _ => none

abbrev Compiled := Option (List Pred) × Compiler

def statsFields (name : String) : Option U8 :=
  if name = "ko_rtt_us" then some fldRTT
  else if name = "ko_life_us" then some fldLife
  else if name = "ko_retransmits" then some fldRetrans
  else if name = "ko_segs_out" then some fldSegs
  else if name = "ko_error" then some fldErrno
  else none

def attrFields (name : String) : Option U8 :=
  if name = "ko_namespace" then some attrNamespace
  else if name = "ko_container" then some attrContainer
  else if name = "ko_pod" then some attrPod
  else none

def loopbackCIDRs : List String := ["127.0.0.0/8", "::1/128"]

def privateCIDRs : List String := ["10.0.0.0/8", "172.16.0.0/12", "192.168.0.0/16", "fd00::/8"]

def builtinLists (name : String) : Option (List String) :=
  if name = "ko_loopback_cidrs" then some loopbackCIDRs
  else if name = "ko_private_cidrs" then some privateCIDRs
  else none

def typeConsts (name : String) : Option EventType :=
  if name = "ko_type_conn_failed" then some evtConnFailed
  else if name = "ko_type_conn_closed" then some evtConnClosed
  else if name = "ko_type_retransmit" then some evtRetransmit
  else if name = "ko_type_probe" then some evtProbe
  else none

def typesByName (name : String) : Option EventType :=
  if name = eventTypeName evtConnFailed then some evtConnFailed
  else if name = eventTypeName evtConnClosed then some evtConnClosed
  else if name = eventTypeName evtRetransmit then some evtRetransmit
  else if name = eventTypeName evtProbe then some evtProbe
  else none

def typeBit (type : EventType) : U64 := (1 : U64) <<< type.toNat

def typeBitOf : Expr → Option U64
  | .ident name => (typeConsts name).map typeBit
  | .literal (.string value) => (typesByName value).map typeBit
  | _ => none

def typeMaskLoop : U64 → List Expr → Option U64
  | mask, [] => some mask
  | mask, el :: rest =>
      match typeBitOf el with
      | none => none
      | some bit => typeMaskLoop (mask ||| bit) rest

def typeMaskOf : Expr → Option U64
  | .list [] => none
  | .list elements => typeMaskLoop 0 elements
  | _ => none

def identOf : Expr → Option String
  | .ident name => some name
  | _ => none

def literalOf : Expr → Option Literal
  | .literal value => some value
  | _ => none

def literalStrings : List Expr → Except String (List String)
  | [] => .ok []
  | el :: rest =>
      match literalOf el with
      | none => .error "list elements must be constants"
      | some (.string value) => (literalStrings rest).map fun values => value :: values
      | some _ => .error "list elements must be strings"

def listOfStrings : Expr → Except String (List String)
  | .ident name =>
      match builtinLists name with
      | some values => .ok values
      | none => .error "unknown list"
  | .list elements => literalStrings elements
  | _ => .error "expected a list"

def cmpKind : Function → U8
  | .equals => cmpEq
  | .notEquals => cmpNeq
  | .less => cmpLt
  | .lessEquals => cmpLe
  | .greater => cmpGt
  | .greaterEquals => cmpGe
  | _ => cmpEq

def isComparison : Function → Bool
  | .equals | .notEquals | .less | .lessEquals | .greater | .greaterEquals => true
  | _ => false

def flipCmp (kind : U8) : U8 :=
  if kind = cmpEq then cmpNeq
  else if kind = cmpNeq then cmpEq
  else if kind = cmpLt then cmpGe
  else if kind = cmpLe then cmpGt
  else if kind = cmpGt then cmpLe
  else if kind = cmpGe then cmpLt
  else kind

def typePreds (kind : U8) (bit : U64) : List Pred :=
  if kind = cmpEq then [{ kind := predCmp, a := fldType, b := cmpIn, val := bit }]
  else if kind = cmpNeq then [{ kind := predCmp, a := fldType, b := cmpNotIn, val := bit }]
  else []

/-- `fmt.Sprint` of a string slice: the elements as they are, one blank apart. -/
def sprint (values : List String) : String :=
  String.ofList ('[' :: [' '].intercalate (values.map String.toList) ++ [']'])

def attrPred (field op : U8) (values : List String) (neg : U8) (c : Compiler) : Pred × Compiler :=
  let key : AtomKey := { field := field, op := op, vals := sprint values }
  match c.atomIdx key with
  | some id => ({ kind := predAttr, a := BitVec.ofNat 8 id, b := neg }, c)
  | none =>
      let id := c.atoms.length
      ({ kind := predAttr, a := BitVec.ofNat 8 id, b := neg },
        { atoms := c.atoms ++ [{ field := field, op := op, values := values }]
          atomIdx := fun other => if other = key then some id else c.atomIdx other })

def attrPredOne (field op : U8) (values : List String) (neg : U8) (c : Compiler) : Compiled :=
  let result := attrPred field op values neg c
  (some [result.1], result.2)

def cmpField (name : String) (kind : U8) (v : Literal) (c : Compiler) : Compiled :=
  match statsFields name with
  | some f =>
      match v with
      | .int value => (some [{ kind := predCmp, a := f, b := kind, val := value }], c)
      | _ => (none, c)
  | none =>
      match attrFields name with
      | some f =>
          match v with
          | .string value =>
              if kind = cmpEq then attrPredOne f attrEq [value] 0 c
              else if kind = cmpNeq then attrPredOne f attrEq [value] 1 c
              else (none, c)
          | _ => (none, c)
      | none => (none, c)

/-- One orientation of `cmpPreds`: the field `name` against `operand`. -/
def cmpOperand (name : String) (kind : U8) (operand : Expr) (c : Compiler) : Compiled :=
  match typeBitOf operand, decide (name = "ko_type") with
  | some bit, true => (some (typePreds kind bit), c)
  | _, _ =>
      match literalOf operand with
      | none => (none, c)
      | some v => cmpField name kind v c

def cmpPreds (args : List Expr) (kind : U8) (c : Compiler) : Compiled :=
  match args with
  | [left, right] =>
      match identOf left with
      | some name => cmpOperand name kind right c
      | none =>
          match identOf right with
          | some name => cmpOperand name (flipCmp kind) left c
          | none => (none, c)
  | _ => (none, c)

def inPreds (args : List Expr) (c : Compiler) : Compiled :=
  match args with
  | [left, right] =>
      match identOf left with
      | none => (none, c)
      | some name =>
          if name = "ko_type" then
            match typeMaskOf right with
            | none => (none, c)
            | some mask => (some [{ kind := predCmp, a := fldType, b := cmpIn, val := mask }], c)
          else
            match attrFields name with
            | none => (none, c)
            | some f =>
                match listOfStrings right with
                | .error _ => (none, c)
                | .ok [] => (none, c)
                | .ok values => attrPredOne f attrIn values 0 c
  | _ => (none, c)

def negAttrPreds (field : U8) : List String → Compiler → List Pred × Compiler
  | [], c => ([], c)
  | value :: rest, c =>
      let first := attrPred field attrEq [value] 1 c
      let others := negAttrPreds field rest first.2
      (first.1 :: others.1, others.2)

def negInPreds (args : List Expr) (c : Compiler) : Compiled :=
  match args with
  | [left, right] =>
      match identOf left with
      | none => (none, c)
      | some name =>
          if name = "ko_type" then
            match typeMaskOf right with
            | none => (none, c)
            | some mask => (some [{ kind := predCmp, a := fldType, b := cmpNotIn, val := mask }], c)
          else
            match attrFields name with
            | none => (none, c)
            | some f =>
                match listOfStrings right with
                | .error _ => (none, c)
                | .ok [] => (none, c)
                | .ok values =>
                    let result := negAttrPreds f values c
                    (some result.1, result.2)
  | _ => (none, c)

def whichOf (name : String) : Option U8 :=
  if name = "ko_local_addr" then some 0
  else if name = "ko_remote_addr" then some 1
  else none

/-- Entry `i` of the three prefix arrays; the address bytes are copied over the
front of the zeroed 16-byte slot. -/
def setPrefix (p : Pred) (i : Nat) (pfx : Prefix) : Pred :=
  { p with
    plen := fun slot => if slot.val = i then BitVec.ofInt 16 pfx.bits else p.plen slot
    fam := fun slot => if slot.val = i then (if pfx.addr.is4 then 4 else 6) else p.fam slot
    addr := fun slot byte =>
      if slot.val = i ∧ byte.val < pfx.addr.asSlice.length then byteAt pfx.addr.asSlice byte
      else p.addr slot byte }

def fillPrefixes : Pred → Nat → List String → Option Pred
  | p, _, [] => some p
  | p, i, value :: rest =>
      match parsePrefix value.toList with
      | none => none
      | some pfx => fillPrefixes (setPrefix p i pfx) (i + 1) rest

def ipSetPred (which neg : U8) (values : List String) : Option Pred :=
  if values.length > maxIPSet then none
  else fillPrefixes
    { kind := predIPSet, a := which, b := neg, n := BitVec.ofNat 8 values.length } 0 values

def ipInPreds (args : List Expr) (neg : U8) : Option (List Pred) :=
  match args with
  | [left, right] =>
      match identOf left with
      | none => none
      | some name =>
          match whichOf name with
          | none => none
          | some which =>
              match listOfStrings right with
              | .error _ => none
              | .ok [] =>
                  if neg = 0 then none else some [{ kind := predIPSet, a := which, b := neg }]
              | .ok values => (ipSetPred which neg values).map fun p => [p]
  | _ => none

mutual

def conj : Expr → Compiler → Compiled
  | .call .logicalAnd (l :: r :: _), c =>
      match conj l c with
      | (none, c) => (none, c)
      | (some left, c) =>
          match conj r c with
          | (none, c) => (none, c)
          | (some right, c) => (some (left ++ right), c)
  | .call .logicalNot (e :: _), c => negConj e c
  | .call .inList args, c => inPreds args c
  | .call .ipIn args, c => (ipInPreds args 0, c)
  | .call function args, c =>
      if isComparison function then cmpPreds args (cmpKind function) c else (none, c)
  | _, c => (none, c)

def negConj : Expr → Compiler → Compiled
  | .call .logicalNot (e :: _), c => conj e c
  | .call .inList args, c => negInPreds args c
  | .call .ipIn args, c => (ipInPreds args 1, c)
  | .call function args, c =>
      if isComparison function then cmpPreds args (flipCmp (cmpKind function)) c else (none, c)
  | _, c => (none, c)

end

end KoAgent.FilterCompiler
