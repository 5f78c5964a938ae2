import KoAgent.FilterCompiler
import KoAgent.NotInRewrite
import KoAgent.PredicateMachine

/-!
# `Compile`, `BPFProg` and `Evaluate` of `pkg/filter/filter.go`

`compileFilter` is one iteration of the loop of `Compile`; the size check runs
inside the branch of a pushed-down filter, as in the source. `flatStream` is the
later loop that lays the predicates out with one END marker for every filter.
The CEL environment of `newEnv` has fixed declarations; its construction and the
quoting of names in error texts are the only parts of `Compile` left out.
-/

namespace KoAgent.FilterSets

open KoAgent.NumeralText KoAgent.NetAddress KoAgent.FilterModel KoAgent.CelExpression
open KoAgent.FilterCompiler KoAgent.NotInRewrite KoAgent.PredicateMachine

set_option autoImplicit false

inductive CompileError where
  | noFilters
  | tooManyFilters (count : Nat)
  | emptyName
  | duplicateName (name : String)
  | expression (name text : String)
  | programTooLarge (name : String) (count : Nat)
  | tooManyAtoms (count : Nat)
  | celProgram (text : String)
  deriving DecidableEq

/-- The text of the returned error; `quote` is Go's `%q`. -/
def CompileError.message (quote : String → String) : CompileError → String
  | .noFilters => "no filters"
  | .tooManyFilters count =>
      "too many filters: " ++ toString count ++ ", max " ++ toString maxFilters
  | .emptyName => "filter with empty name"
  | .duplicateName name => "duplicate filter name " ++ quote name
  | .expression name text => "filter " ++ quote name ++ ": " ++ text
  | .programTooLarge name count =>
      "filter " ++ quote name ++ ": program too large: " ++ toString count ++
        " predicates, max " ++ toString maxPreds
  | .tooManyAtoms count => "too many attribute predicates: " ++ toString count ++ ", max 64"
  | .celProgram text => "cel program: " ++ text

def parseCheck (cel : Cel) (expr : String) : Except String Expr :=
  match cel.parse (rewriteNotIn expr) with
  | .error text => .error ("parse: " ++ text)
  | .ok parsed =>
      match cel.check parsed with
      | .error text => .error ("check: " ++ text)
      | .ok checked => .ok checked

/-- The local variables of the loop in `Compile`. -/
structure CompileState where
  compiler : Compiler
  seen : List String
  npreds : Nat
  names : List String
  asts : List Expr
  preds : List (List Pred)
  userspace : List Bool

def CompileState.start : CompileState where
  compiler := Compiler.empty
  seen := []
  npreds := 0
  names := []
  asts := []
  preds := []
  userspace := []

def compileFilter (cel : Cel) (st : CompileState) (f : Config) :
    Except CompileError CompileState :=
  if f.name = "" then .error .emptyName
  else if f.name ∈ st.seen then .error (.duplicateName f.name)
  else
    match parseCheck cel f.expr with
    | .error text => .error (.expression f.name text)
    | .ok parsed =>
        match conj parsed st.compiler with
        | (some preds, c) =>
            if st.npreds + preds.length + 1 > maxPreds then
              .error (.programTooLarge f.name (st.npreds + preds.length + 1))
            else
              .ok { compiler := c
                    seen := f.name :: st.seen
                    npreds := st.npreds + (preds.length + 1)
                    names := st.names ++ [f.name]
                    asts := st.asts ++ [parsed]
                    preds := st.preds ++ [preds]
                    userspace := st.userspace ++ [false] }
        | (none, c) =>
            .ok { compiler := c
                  seen := f.name :: st.seen
                  npreds := st.npreds
                  names := st.names ++ [f.name]
                  asts := st.asts ++ [parsed]
                  preds := st.preds ++ [[]]
                  userspace := st.userspace ++ [true] }

def compileFilters (cel : Cel) : CompileState → List Config → Except CompileError CompileState
  | st, [] => .ok st
  | st, f :: rest =>
      match compileFilter cel st f with
      | .error problem => .error problem
      | .ok next => compileFilters cel next rest

def endMarker (i : Nat) (userspace : Bool) : Pred :=
  { kind := predEnd, a := BitVec.ofNat 8 i, b := if userspace then 1 else 0 }

def flatStream : Nat → List (List Pred) → List Bool → List Pred
  | i, preds :: morePreds, userspace :: moreUserspace =>
      preds ++ endMarker i userspace :: flatStream (i + 1) morePreds moreUserspace
  | _, _, _ => []

def celPrograms (cel : Cel) : List Expr → Except CompileError (List Program)
  | [] => .ok []
  | e :: rest =>
      match cel.program e with
      | .error text => .error (.celProgram text)
      | .ok prg => (celPrograms cel rest).map fun progs => prg :: progs

structure FilterSet where
  names : List String
  asts : List Expr
  progs : List Program
  atoms : List Atom
  preds : List (List Pred)
  flat : List Pred
  userspace : List Bool

def compile (cel : Cel) (cfg : List Config) : Except CompileError FilterSet :=
  if cfg.length = 0 then .error .noFilters
  else if cfg.length > maxFilters then .error (.tooManyFilters cfg.length)
  else
    match compileFilters cel CompileState.start cfg with
    | .error problem => .error problem
    | .ok st =>
        if st.compiler.atoms.length > 64 then .error (.tooManyAtoms st.compiler.atoms.length)
        else
          match celPrograms cel st.asts with
          | .error problem => .error problem
          | .ok progs =>
              .ok { names := st.names
                    asts := st.asts
                    progs := progs
                    atoms := st.compiler.atoms
                    preds := st.preds
                    flat := flatStream 0 st.preds st.userspace
                    userspace := st.userspace }

def FilterSet.bpfProg (s : FilterSet) : Prog where
  nFilters := BitVec.ofNat 32 s.names.length
  nPreds := BitVec.ofNat 32 s.flat.length
  preds := fun k => s.flat.getD k {}

def ipString (ip : IP) : Text := if ip = [] then [] else ipToString ip

def hostPort (ip : IP) (port : U16) : String :=
  String.ofList (joinHostPort (ipString ip) (decimal port.toNat))

def activation (ev : Event) : Activation := fun name =>
  if name = "ko_type" then some (.string (eventTypeName ev.type))
  else if name = "ko_type_conn_failed" then some (.string (eventTypeName evtConnFailed))
  else if name = "ko_type_conn_closed" then some (.string (eventTypeName evtConnClosed))
  else if name = "ko_type_retransmit" then some (.string (eventTypeName evtRetransmit))
  else if name = "ko_type_probe" then some (.string (eventTypeName evtProbe))
  else if name = "ko_namespace" then some (.string ev.namespaceName)
  else if name = "ko_container" then some (.string ev.container)
  else if name = "ko_pod" then some (.string ev.pod)
  else if name = "ko_rtt_us" then some (.int (ev.rttUS.setWidth 64))
  else if name = "ko_life_us" then some (.int ev.lifeUS)
  else if name = "ko_retransmits" then some (.int (ev.retransmits.setWidth 64))
  else if name = "ko_segs_out" then some (.int (ev.segsOut.setWidth 64))
  else if name = "ko_error" then some (.int (ev.errno.setWidth 64))
  else if name = "ko_local_addr" then some (.string (hostPort ev.localIP ev.localPort))
  else if name = "ko_remote_addr" then some (.string (hostPort ev.remoteIP ev.remotePort))
  else if name = "ko_loopback_cidrs" then some (.list (loopbackCIDRs.map .string))
  else if name = "ko_private_cidrs" then some (.list (privateCIDRs.map .string))
  else none

def isTrue : Outcome → Bool
  | .ok (.bool true) => true
  | _ => false

def evaluateFrom (act : Activation) : Nat → List Program → Option Nat
  | _, [] => none
  | i, prg :: rest => if isTrue (prg act) then some i else evaluateFrom act (i + 1) rest

/-- The index of the first matching filter; `none` is the source's `0, false`. -/
def FilterSet.evaluate (s : FilterSet) (ev : Event) : Option Nat :=
  evaluateFrom (activation ev) 0 s.progs

def FilterSet.verdictMask (s : FilterSet) (attrs : CgroupAttrs) : U64 :=
  PredicateMachine.verdictMask s.atoms attrs

def FilterSet.runPreds (s : FilterSet) (ev : Event) (verdict : Option U64) : U16 :=
  PredicateMachine.runPreds s.flat ev verdict

end KoAgent.FilterSets
