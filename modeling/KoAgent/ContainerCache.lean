import KoAgent.ContainerPaths
import KoAgent.FilterModel
import KoAgent.KeyedTables

/-!
# The container cache of `pkg/kontext/kontext.go`

`World` is what `Sync` reads of the node: the cgroup directories in the order of
`WalkDir` and the running containers of the CRI. `syncEntries` is the loop that
joins the two into the map `byCgroup`. A published map carries, besides its
entries, the two worlds its `Sync` read them from.
-/

namespace KoAgent.ContainerCache

open KoAgent.NumeralText KoAgent.FilterModel KoAgent.ContainerPaths KoAgent.KeyedTables

set_option autoImplicit false

def podNamespaceLabel : String := "io.kubernetes.pod.namespace"
def podNameLabel : String := "io.kubernetes.pod.name"
def podUIDLabel : String := "io.kubernetes.pod.uid"
def containerNameLabel : String := "io.kubernetes.container.name"

structure Directory where
  ino : U64
  path : Text

structure CriContainer where
  id : Text
  labels : String → Option String

structure ContainerInfo where
  cgroupID : U64
  containerID : Text
  runtime : Runtime
  containerName : String := ""
  podName : String := ""
  podNamespace : String := ""
  podUID : String := ""
  deriving DecidableEq

/-- Reading a missing key of a Go map gives the empty string. -/
def CriContainer.label (container : CriContainer) (name : String) : String :=
  (container.labels name).getD ""

/-- The low 32 bits of an inode number, the key `walkCgroups` uses. -/
def cgroupKey (ino : U64) : U64 := ino &&& 0xFFFFFFFF

def walkCgroups (dirs : List Directory) : U64 → Option Text :=
  fill (fun dir => cgroupKey dir.ino) Directory.path dirs

def criByID (containers : List CriContainer) : Text → Option CriContainer :=
  fill CriContainer.id id containers

def containerInfo (cri : Text → Option CriContainer) (cgroupID : U64) (path : Text) :
    Option ContainerInfo :=
  match containerIDFromCgroupPath path with
  | none => none
  | some (containerID, runtime) =>
      match cri containerID with
      | none => some { cgroupID := cgroupID, containerID := containerID, runtime := runtime }
      | some container =>
          some
            { cgroupID := cgroupID
              containerID := containerID
              runtime := runtime
              containerName := container.label containerNameLabel
              podName := container.label podNameLabel
              podNamespace := container.label podNamespaceLabel
              podUID := container.label podUIDLabel }

def syncEntries (paths : U64 → Option Text) (cri : Text → Option CriContainer) :
    U64 → Option ContainerInfo :=
  fun cgroupID => (paths cgroupID).bind (containerInfo cri cgroupID)

def containerAttrs (info : ContainerInfo) : CgroupAttrs where
  namespaceName := info.podNamespace
  container := info.containerName
  pod := info.podName

/-- Namespace, container and pod as the CRI labels a container. -/
def CriContainer.attrs (container : CriContainer) : CgroupAttrs where
  namespaceName := container.label podNamespaceLabel
  container := container.label containerNameLabel
  pod := container.label podNameLabel

structure World where
  dirs : List Directory
  containers : List CriContainer
  inosDistinct : (dirs.map Directory.ino).Nodup
  idsDistinct : (containers.map CriContainer.id).Nodup

def World.empty : World where
  dirs := []
  containers := []
  inosDistinct := List.nodup_nil
  idsDistinct := List.nodup_nil

theorem insert_nodup {Item Key : Type} (key : Item → Key) (items : List Item) (index : Nat)
    (item : Item) (distinct : (items.map key).Nodup) (fresh : key item ∉ items.map key) :
    ((items.take index ++ item :: items.drop index).map key).Nodup := by
  have moved : (items.take index ++ item :: items.drop index).Perm (item :: items) := by
    refine List.perm_middle.trans ?_
    rw [List.take_append_drop]
  rw [(moved.map key).nodup_iff, List.map_cons]
  exact List.nodup_cons.mpr ⟨fresh, distinct⟩

/-- A new directory appears at its place in the walk. -/
def World.mkdir (w : World) (index : Nat) (dir : Directory) : World :=
  if fresh : dir.ino ∉ w.dirs.map Directory.ino then
    { w with
      dirs := w.dirs.take index ++ dir :: w.dirs.drop index
      inosDistinct := insert_nodup _ _ _ _ w.inosDistinct fresh }
  else w

/-- The CRI starts to list a container as running. -/
def World.start (w : World) (index : Nat) (container : CriContainer) : World :=
  if fresh : container.id ∉ w.containers.map CriContainer.id then
    { w with
      containers := w.containers.take index ++ container :: w.containers.drop index
      idsDistinct := insert_nodup _ _ _ _ w.idsDistinct fresh }
  else w

/-- Everything of `w` exists in `later` too. -/
structure World.Within (w later : World) : Prop where
  dirs : w.dirs ⊆ later.dirs
  containers : w.containers ⊆ later.containers

theorem World.Within.refl (w : World) : w.Within w := ⟨fun _ => id, fun _ => id⟩

theorem World.Within.trans {first second third : World} (early : first.Within second)
    (late : second.Within third) : first.Within third :=
  ⟨fun _ member => late.dirs (early.dirs member),
    fun _ member => late.containers (early.containers member)⟩

theorem subset_insert {Item : Type} (items : List Item) (index : Nat) (item : Item) :
    items ⊆ items.take index ++ item :: items.drop index := by
  intro other member
  rw [← List.take_append_drop index items, List.mem_append] at member
  rw [List.mem_append, List.mem_cons]
  rcases member with before | after
  · exact Or.inl before
  · exact Or.inr (Or.inr after)

theorem within_mkdir (w : World) (index : Nat) (dir : Directory) :
    w.Within (w.mkdir index dir) := by
  unfold World.mkdir
  split_ifs
  · exact .refl w
  · exact ⟨subset_insert _ _ _, fun _ => id⟩

theorem within_start (w : World) (index : Nat) (container : CriContainer) :
    w.Within (w.start index container) := by
  unfold World.start
  split_ifs
  · exact .refl w
  · exact ⟨fun _ => id, subset_insert _ _ _⟩

/-- `container` runs in the cgroup directory with this inode number. -/
def InCgroup (dirs : List Directory) (containers : List CriContainer) (cgroupID : U64)
    (container : CriContainer) : Prop :=
  container ∈ containers ∧ ∃ dir ∈ dirs, dir.ino = cgroupID ∧
    ∃ runtime, containerIDFromCgroupPath dir.path = some (container.id, runtime)

/-- The id is its own key, and no other directory has that key. -/
def OwnKey (dirs : List Directory) (cgroupID : U64) : Prop :=
  cgroupKey cgroupID = cgroupID ∧
    ∀ dir ∈ dirs, cgroupKey dir.ino = cgroupID → dir.ino = cgroupID

/-- A walk that saw the container's directory and a listing that had the container
give its cgroup the container's own attributes. -/
theorem sync_entries_attrs (walked listed : World) (cgroupID : U64) (container : CriContainer)
    (inside : InCgroup walked.dirs listed.containers cgroupID container)
    (own : OwnKey walked.dirs cgroupID) :
    (syncEntries (walkCgroups walked.dirs) (criByID listed.containers) cgroupID).map
      containerAttrs = some container.attrs := by
  obtain ⟨member, dir, walkedDir, rfl, runtime, decoded⟩ := inside
  obtain ⟨key, alone⟩ := own
  have path : walkCgroups walked.dirs dir.ino = some dir.path := by
    have found := fill_of_member (fun dir => cgroupKey dir.ino) Directory.path walked.dirs dir
      walkedDir (by
        intro other inside same
        rw [key] at same
        rw [List.inj_on_of_nodup_map walked.inosDistinct inside walkedDir
          (alone other inside same)])
    rw [key] at found
    exact found
  have record : criByID listed.containers container.id = some container :=
    fill_of_member CriContainer.id id listed.containers container member (by
      intro other inside same
      exact List.inj_on_of_nodup_map listed.idsDistinct inside member same)
  simp only [syncEntries, path, Option.bind_some, containerInfo, decoded, record, Option.map_some]
  rfl

end KoAgent.ContainerCache
