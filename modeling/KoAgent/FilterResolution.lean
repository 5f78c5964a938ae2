import KoAgent.ContainerCache
import KoAgent.SocketHandlers

/-!
# `resolveFilter` and `verifyBpfDecision` of `pkg/tracer/cel.go`

What the reader loop computes for one record: the attributes of its cgroup as
`attrSource.Attrs` reports them, the filter that `Evaluate` selects, and the mask
it writes back to the verdict map. A cgroup the container cache does not know
counts as known, with empty attributes.
-/

namespace KoAgent.FilterResolution

open KoAgent.FilterModel KoAgent.FilterSets KoAgent.KernelCidr KoAgent.KernelFilter
open KoAgent.SocketHandlers KoAgent.ContainerCache

set_option autoImplicit false

inductive LookupError where
  | containerNotFound
  | other (text : String)

/-- What `GetContainerInfo` returns after its last lookup. -/
def lookupResult : Option ContainerInfo → Except LookupError ContainerInfo
  | some info => .ok info
  | none => .error .containerNotFound

/-- The attributes, and whether they are known. -/
def sourceAttrs : Except LookupError ContainerInfo → CgroupAttrs × Bool
  | .ok info => (containerAttrs info, true)
  | .error .containerNotFound => ({}, true)
  | .error (.other _) => ({}, false)

def resolvedEvent (raw : ConnEvent) (attrs : CgroupAttrs) : Event where
  type := raw.type
  namespaceName := attrs.namespaceName
  container := attrs.container
  pod := attrs.pod
  rttUS := raw.rttUS
  lifeUS := raw.lifeUS
  retransmits := raw.retransmits
  segsOut := raw.segsOut
  errno := raw.error
  localIP := decodeIP raw.family raw.localIP
  localPort := raw.localPort
  remoteIP := decodeIP raw.family raw.remoteIP
  remotePort := raw.remotePort

/-- The index of the matching filter, and the mask to store. -/
structure Resolution where
  index : Option Nat
  mask : Option U64

def resolveFilter (set : FilterSet) (raw : ConnEvent) (source : CgroupAttrs × Bool) :
    Resolution where
  index := set.evaluate (resolvedEvent raw source.1)
  mask := if source.2 then some (set.verdictMask source.1) else none

/-- `verifyBpfDecision` counts a mismatch. -/
def mismatches (resolution : Resolution) (bpfIdx : U16) : Bool :=
  match resolution.index with
  | none => true
  | some index => BitVec.ofNat 16 index != bpfIdx

/-- The attributes a lookup gives: those of the entry, or empty ones. -/
def entryAttrs (info : Option ContainerInfo) : CgroupAttrs :=
  (info.map containerAttrs).getD {}

theorem source_attrs_lookup (info : Option ContainerInfo) :
    sourceAttrs (lookupResult info) = (entryAttrs info, true) := by
  cases info <;> rfl

theorem resolve_filter_lookup (set : FilterSet) (raw : ConnEvent) (info : Option ContainerInfo) :
    resolveFilter set raw (sourceAttrs (lookupResult info)) =
      { index := set.evaluate (resolvedEvent raw (entryAttrs info))
        mask := some (set.verdictMask (entryAttrs info)) } := by
  rw [source_attrs_lookup]
  rfl

end KoAgent.FilterResolution
