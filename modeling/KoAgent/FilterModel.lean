import KoAgent.NetAddress

/-!
# Data of the filter package

The wire form of a predicate keeps the source's numeric codes: user space writes
it into the kernel map and both interpreters switch on the codes, with a default
case for the ones neither of them knows.
-/

namespace KoAgent.FilterModel

open KoAgent.ByteWords KoAgent.NetAddress

set_option autoImplicit false

abbrev U8 := BitVec 8
abbrev U16 := BitVec 16
abbrev U32 := BitVec 32
abbrev U64 := BitVec 64

abbrev EventType := U16

def evtConnFailed : EventType := 1
def evtConnClosed : EventType := 2
def evtRetransmit : EventType := 3
def evtProbe : EventType := 4

def eventTypeName (type : EventType) : String :=
  if type = evtConnFailed then "conn_failed"
  else if type = evtConnClosed then "conn_closed"
  else if type = evtRetransmit then "retransmit"
  else if type = evtProbe then "probe"
  else "unknown(" ++ toString type.toNat ++ ")"

def predCmp : U8 := 1
def predIPSet : U8 := 2
def predAttr : U8 := 4
def predEnd : U8 := 5

def fldRTT : U8 := 0
def fldLife : U8 := 1
def fldRetrans : U8 := 2
def fldSegs : U8 := 3
def fldType : U8 := 4
def fldErrno : U8 := 5

def attrNamespace : U8 := 0
def attrContainer : U8 := 1
def attrPod : U8 := 2

def attrEq : U8 := 0
def attrNeq : U8 := 1
def attrIn : U8 := 2

def cmpEq : U8 := 0
def cmpNeq : U8 := 1
def cmpLt : U8 := 2
def cmpLe : U8 := 3
def cmpGt : U8 := 4
def cmpGe : U8 := 5
def cmpIn : U8 := 6
def cmpNotIn : U8 := 7

/-- The accumulator of the predicate walk: `TriFalse`, `TriTrue`, `TriUnknown`. -/
inductive Tri where
  | triFalse
  | triTrue
  | triUnknown
  deriving DecidableEq

def filterDrop : U16 := 0xfffd
def filterUndecided : U16 := 0xfffe
def filterUnfiltered : U16 := 0xffff

def maxIPSet : Nat := 4
def maxFilters : Nat := 32
def maxPreds : Nat := 32

structure Pred where
  val : U64 := 0
  kind : U8 := 0
  a : U8 := 0
  b : U8 := 0
  n : U8 := 0
  plen : Fin maxIPSet → U16 := fun _ => 0
  fam : Fin maxIPSet → U8 := fun _ => 0
  addr : Fin maxIPSet → Fin 16 → U8 := fun _ _ => 0
  deriving DecidableEq

structure Prog where
  nFilters : U32
  nPreds : U32
  preds : Fin maxPreds → Pred

structure Atom where
  field : U8
  op : U8
  values : List String
  deriving DecidableEq

structure Config where
  name : String
  expr : String

structure CgroupAttrs where
  namespaceName : String := ""
  container : String := ""
  pod : String := ""
  deriving DecidableEq

structure Event where
  type : EventType := 0
  namespaceName : String := ""
  container : String := ""
  pod : String := ""
  rttUS : U32 := 0
  lifeUS : U64 := 0
  retransmits : U32 := 0
  segsOut : U32 := 0
  errno : U32 := 0
  localIP : IP := []
  localPort : U16 := 0
  remoteIP : IP := []
  remotePort : U16 := 0

def Event.attrs (ev : Event) : CgroupAttrs where
  namespaceName := ev.namespaceName
  container := ev.container
  pod := ev.pod

end KoAgent.FilterModel
