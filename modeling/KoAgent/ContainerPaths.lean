import KoAgent.NumeralText

/-!
# Container ids in cgroup paths

`containerIDFromCgroupPath` of `pkg/kontext/kontext.go`. A text is a Go string,
one character for each byte. The loop runs over the components from the innermost
outwards, so what is left of the reversed list are the component and its
ancestors; the pair of empty strings it returns at the end is `none`.
-/

namespace KoAgent.ContainerPaths

open KoAgent.NumeralText

set_option autoImplicit false

inductive Runtime where
  | docker
  | crio
  | containerd
  | podman
  deriving DecidableEq

def scopeEnding : Text := ".scope".toList
def dockerTag : Text := "docker-".toList
def crioTag : Text := "crio-".toList
def criContainerdTag : Text := "cri-containerd-".toList
def criContainerdMark : Text := ":cri-containerd:".toList
def libpodTag : Text := "libpod-".toList
def dockerName : Text := "docker".toList
def kubepodsName : Text := "kubepods".toList

def trimSuffix (text ending : Text) : Text :=
  if ending.isSuffixOf text then text.take (text.length - ending.length) else text

/-- The text behind the last occurrence of `mark`. -/
def afterLast (mark : Text) : Text → Option Text
  | [] => if mark = [] then some [] else none
  | symbol :: rest =>
      match afterLast mark rest with
      | some found => some found
      | none =>
          if mark.isPrefixOf (symbol :: rest) then some ((symbol :: rest).drop mark.length)
          else none

/-- The switch of the loop: the runtime a component's name states, and the rest of it. -/
def componentRule (part : Text) : Option Runtime × Text :=
  let id := trimSuffix part scopeEnding
  if dockerTag.isPrefixOf id then (some .docker, id.drop dockerTag.length)
  else if crioTag.isPrefixOf id then (some .crio, id.drop crioTag.length)
  else if criContainerdTag.isPrefixOf id then (some .containerd, id.drop criContainerdTag.length)
  else
    match afterLast criContainerdMark part with
    | some id => (some .containerd, id)
    | none =>
        if libpodTag.isPrefixOf id then (some .podman, id.drop libpodTag.length) else (none, id)

def isHexDigit (symbol : Char) : Bool :=
  ('A' ≤ symbol && symbol ≤ 'F') || ('a' ≤ symbol && symbol ≤ 'f') ||
    ('0' ≤ symbol && symbol ≤ '9')

/-- The regular expression `^[A-Fa-f0-9]{64}$`. -/
def containerIDRegex (id : Text) : Bool := id.length == 64 && id.all isHexDigit

def hasAncestor (ancestors : List Text) (name : Text) : Bool := ancestors.contains name

def scanComponents : List Text → Option (Text × Runtime)
  | [] => none
  | part :: outer =>
      if part.length < 28 then scanComponents outer
      else if !containerIDRegex (componentRule part).2 then scanComponents outer
      else
        match (componentRule part).1 with
        | some runtime => some ((componentRule part).2, runtime)
        | none =>
            if hasAncestor (part :: outer) dockerName || hasAncestor (part :: outer) kubepodsName
            then some ((componentRule part).2, .docker)
            else scanComponents outer

def containerIDFromCgroupPath (cgroupPath : Text) : Option (Text × Runtime) :=
  scanComponents (cgroupPath.splitOn '/').reverse

end KoAgent.ContainerPaths
