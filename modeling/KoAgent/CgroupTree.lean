import KoAgent.ContainerCache

/-!
# Cgroup ids of a whole tree

One `Sync` over a cgroup tree, looked up with the ids the kernel reports. The
walk stores a path under the low 32 bits of its inode number and a later
directory with the same low bits replaces it, while a lookup uses the whole
number. `Found` is the condition under which a directory is found under its own
id all the same.
-/

namespace KoAgent.CgroupTree

open KoAgent.NumeralText KoAgent.FilterModel KoAgent.ContainerPaths KoAgent.KeyedTables
open KoAgent.ContainerCache

set_option autoImplicit false

/-- A directory with the directories in it, in the order `ReadDir` lists them. -/
inductive Tree where
  | dir (ino : U64) (name : Text) (children : List Tree)

def Tree.name : Tree → Text
  | .dir _ name _ => name

mutual

/-- The directories `WalkDir` visits from `path` on, each before what is in it. -/
def walkDir (path : Text) : Tree → List Directory
  | .dir ino _ children => { ino := ino, path := path } :: walkDirs path children

def walkDirs (path : Text) : List Tree → List Directory
  | [] => []
  | child :: rest => walkDir (path ++ '/' :: child.name) child ++ walkDirs path rest

end

/-- The cache after one `Sync`. -/
def synced (root : Text) (tree : Tree) (containers : List CriContainer) :
    U64 → Option ContainerInfo :=
  syncEntries (walkCgroups (walkDir root tree)) (criByID containers)

/-- The labels are those of a listed container with this id, or there is none. -/
def Labelled (containers : List CriContainer) (containerID : Text) (info : ContainerInfo) : Prop :=
  (∃ container ∈ containers, container.id = containerID ∧
      info.containerName = container.label containerNameLabel ∧
      info.podName = container.label podNameLabel ∧
      info.podNamespace = container.label podNamespaceLabel ∧
      info.podUID = container.label podUIDLabel) ∨
    ((∀ container ∈ containers, container.id ≠ containerID) ∧
      info.containerName = "" ∧ info.podName = "" ∧ info.podNamespace = "" ∧ info.podUID = "")

/-- The id of the directory resolves to the container its path states, and the
directory's path is still the one stored. -/
structure ResolvesOwn (root : Text) (tree : Tree) (containers : List CriContainer)
    (d : Directory) : Prop where
  entry : (synced root tree containers d.ino).isSome = (containerIDFromCgroupPath d.path).isSome
  own : ∀ info, synced root tree containers d.ino = some info →
    containerIDFromCgroupPath d.path = some (info.containerID, info.runtime) ∧
      Labelled containers info.containerID info
  kept : (containerIDFromCgroupPath d.path).isSome →
    walkCgroups (walkDir root tree) d.ino = some d.path

/-- The last directory of the walk with the low 32 bits of `d`. -/
def lastSharing (dirs : List Directory) (d : Directory) : Option Directory :=
  dirs.reverse.find? fun other => decide (cgroupKey other.ino = cgroupKey d.ino)

/-- A container directory has a 32-bit inode number that no later directory shares
in its low bits; a directory without container has a longer one, or the last
directory that shares the low bits has no container either. -/
def Found (dirs : List Directory) (d : Directory) : Prop :=
  if (containerIDFromCgroupPath d.path).isSome then
    d.ino.toNat < 2 ^ 32 ∧ ∀ last, lastSharing dirs d = some last → last.path = d.path
  else
    2 ^ 32 ≤ d.ino.toNat ∨
      ∀ last, lastSharing dirs d = some last → containerIDFromCgroupPath last.path = none

theorem cgroup_key_value (ino : U64) : (cgroupKey ino).toNat = ino.toNat % 2 ^ 32 := by
  rw [cgroupKey, BitVec.toNat_and]
  exact Nat.and_two_pow_sub_one_eq_mod ino.toNat 32

theorem cgroup_key_small (ino : U64) (small : ino.toNat < 2 ^ 32) : cgroupKey ino = ino := by
  apply BitVec.eq_of_toNat_eq
  rw [cgroup_key_value, Nat.mod_eq_of_lt small]

theorem walk_cgroups_small (dirs : List Directory) (d : Directory)
    (small : d.ino.toNat < 2 ^ 32) :
    walkCgroups dirs d.ino = (lastSharing dirs d).map Directory.path := by
  rw [walkCgroups, fill_last, lastSharing, cgroup_key_small d.ino small]

theorem walk_cgroups_large (dirs : List Directory) (ino : U64) (large : 2 ^ 32 ≤ ino.toNat) :
    walkCgroups dirs ino = none := by
  rw [walkCgroups, fill_last, Option.map_eq_none_iff, List.find?_eq_none]
  intro other _
  have below : (cgroupKey other.ino).toNat < 2 ^ 32 := by
    rw [cgroup_key_value]
    exact Nat.mod_lt _ (by decide)
  intro same
  rw [of_decide_eq_true same] at below
  omega

theorem last_sharing_exists (dirs : List Directory) (d : Directory) (member : d ∈ dirs) :
    ∃ last, lastSharing dirs d = some last := by
  apply Option.isSome_iff_exists.mp
  rw [lastSharing, List.find?_isSome]
  exact ⟨d, List.mem_reverse.mpr member, by simp⟩

theorem container_info_some (containers : List CriContainer) (cgroupID : U64) (path : Text) :
    (containerInfo (criByID containers) cgroupID path).isSome =
      (containerIDFromCgroupPath path).isSome := by
  unfold containerInfo
  cases containerIDFromCgroupPath path with
  | none => rfl
  | some decoded =>
      dsimp only
      cases criByID containers decoded.1 <;> rfl

/-- What one path contributes: its id and runtime, with the labels of that id. -/
theorem container_info_own (containers : List CriContainer) (cgroupID : U64) (path : Text)
    (info : ContainerInfo) (made : containerInfo (criByID containers) cgroupID path = some info) :
    containerIDFromCgroupPath path = some (info.containerID, info.runtime) ∧
      Labelled containers info.containerID info := by
  unfold containerInfo at made
  cases decoded : containerIDFromCgroupPath path with
  | none => simp [decoded] at made
  | some pair =>
      obtain ⟨containerID, runtime⟩ := pair
      simp only [decoded] at made
      rcases fill_from_cases CriContainer.id id containers (fun _ => none) containerID with
        ⟨container, member, same, entry⟩ | ⟨absent, entry⟩
      · have record : criByID containers containerID = some container := entry
        simp only [record, Option.some.injEq] at made
        subst made
        exact ⟨rfl, Or.inl ⟨container, member, same, rfl, rfl, rfl, rfl⟩⟩
      · have record : criByID containers containerID = none := entry
        simp only [record, Option.some.injEq] at made
        subst made
        exact ⟨rfl, Or.inr ⟨absent, rfl, rfl, rfl, rfl⟩⟩

section Directory

variable (root : Text) (tree : Tree) (containers : List CriContainer) (d : Directory)

/-- A number beyond 32 bits is no key of the walk. -/
theorem resolves_large (large : 2 ^ 32 ≤ d.ino.toNat) :
    ResolvesOwn root tree containers d ↔ containerIDFromCgroupPath d.path = none := by
  have missing : synced root tree containers d.ino = none := by
    rw [synced, syncEntries, walk_cgroups_large _ d.ino large, Option.bind_none]
  constructor
  · intro resolves
    have entry := resolves.entry
    rw [missing] at entry
    exact Option.isNone_iff_eq_none.mp (by simpa using entry.symm)
  · intro undecoded
    refine ⟨by rw [missing, undecoded]; rfl, ?_, ?_⟩
    · intro info found
      rw [missing] at found
      cases found
    · intro isSome
      rw [undecoded] at isSome
      cases isSome

/-- A number of 32 bits finds what the last directory with its low bits stored. -/
theorem resolves_small (small : d.ino.toNat < 2 ^ 32) (last : Directory)
    (shares : lastSharing (walkDir root tree) d = some last) :
    ResolvesOwn root tree containers d ↔
      if (containerIDFromCgroupPath d.path).isSome then last.path = d.path
      else containerIDFromCgroupPath last.path = none := by
  have stored : walkCgroups (walkDir root tree) d.ino = some last.path := by
    rw [walk_cgroups_small _ d small, shares, Option.map_some]
  have found : synced root tree containers d.ino =
      containerInfo (criByID containers) d.ino last.path := by
    rw [synced, syncEntries, stored, Option.bind_some]
  have decodes := container_info_some containers d.ino last.path
  cases decoded : (containerIDFromCgroupPath d.path).isSome with
  | true =>
      rw [if_pos rfl]
      constructor
      · intro resolves
        exact Option.some.inj (stored.symm.trans (resolves.kept decoded))
      · intro same
        rw [same] at found stored decodes
        refine ⟨by rw [found, decodes], ?_, fun _ => stored⟩
        intro info entry
        rw [found] at entry
        exact container_info_own containers d.ino d.path info entry
  | false =>
      rw [if_neg Bool.false_ne_true, ← Option.not_isSome_iff_eq_none, ← decodes, ← found]
      constructor
      · intro resolves
        rw [resolves.entry, decoded]
        exact Bool.false_ne_true
      · intro missing
        refine ⟨by rw [decoded]; simpa using missing, ?_, ?_⟩
        · intro info entry
          rw [entry] at missing
          exact absurd rfl missing
        · intro isSome
          rw [decoded] at isSome
          cases isSome

theorem cgroup_id_resolves_iff (member : d ∈ walkDir root tree) :
    ResolvesOwn root tree containers d ↔ Found (walkDir root tree) d := by
  obtain ⟨last, shares⟩ := last_sharing_exists (walkDir root tree) d member
  unfold Found
  rw [shares]
  simp only [Option.some.injEq, forall_eq']
  rcases Nat.lt_or_ge d.ino.toNat (2 ^ 32) with small | large
  · rw [resolves_small root tree containers d small last shares]
    split_ifs
    · exact ⟨fun same => ⟨small, same⟩, And.right⟩
    · exact ⟨Or.inr, fun either => either.resolve_left (by omega)⟩
  · rw [resolves_large root tree containers d large]
    split_ifs with decoded
    · constructor
      · intro undecoded
        rw [undecoded] at decoded
        cases decoded
      · rintro ⟨small, _⟩
        omega
    · exact ⟨fun _ => Or.inl large, fun _ => Option.not_isSome_iff_eq_none.mp decoded⟩

end Directory

def scopeName : Text := "cri-containerd-".toList ++ List.replicate 64 'a' ++ ".scope".toList

/-- A pod container under the root of the hierarchy, in a cgroup with this number. -/
def podTree (ino : U64) : Tree :=
  .dir 1 [] [.dir 2 "kubepods".toList [.dir ino scopeName []]]

def cgroupRoot : Text := "/sys/fs/cgroup".toList

def podDirectory (ino : U64) : Directory where
  ino := ino
  path := cgroupRoot ++ "/kubepods/".toList ++ scopeName

/-- The cgroup with the number `2^32 + 7` is stored under 7 and looked up under its
own number. -/
theorem cgroup_id_beyond_32_bits_lost :
    ((walkDir cgroupRoot (podTree 0x100000007)).map Directory.ino).Nodup ∧
      podDirectory 0x100000007 ∈ walkDir cgroupRoot (podTree 0x100000007) ∧
      containerIDFromCgroupPath (podDirectory 0x100000007).path =
        some (List.replicate 64 'a', .containerd) ∧
      synced cgroupRoot (podTree 0x100000007) [] 0x100000007 = none ∧
      ¬ResolvesOwn cgroupRoot (podTree 0x100000007) [] (podDirectory 0x100000007) := by
  have missing : synced cgroupRoot (podTree 0x100000007) [] 0x100000007 = none := by decide +kernel
  have decoded : containerIDFromCgroupPath (podDirectory 0x100000007).path =
      some (List.replicate 64 'a', .containerd) := by decide +kernel
  refine ⟨by decide +kernel, ?_, decoded, missing, ?_⟩
  · exact List.mem_cons_of_mem _ (List.mem_cons_of_mem _ List.mem_cons_self)
  · intro resolves
    have entry := resolves.entry
    rw [decoded, show (podDirectory 0x100000007).ino = 0x100000007 from rfl, missing] at entry
    cases entry

theorem cgroup_id_resolves_pod :
    ResolvesOwn cgroupRoot (podTree 7) [] (podDirectory 7) := by
  apply (cgroup_id_resolves_iff cgroupRoot (podTree 7) [] (podDirectory 7)
    (List.mem_cons_of_mem _ (List.mem_cons_of_mem _ List.mem_cons_self))).mpr
  have decoded : (containerIDFromCgroupPath (podDirectory 7).path).isSome = true := by
    decide +kernel
  rw [Found, if_pos decoded]
  refine ⟨by decide, ?_⟩
  intro last shares
  obtain rfl := Option.some.inj (show some (podDirectory 7) = some last from shares)
  rfl

end KoAgent.CgroupTree
