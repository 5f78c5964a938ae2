import KoAgent.ContainerPaths
import Mathlib.Data.List.Basic

/-!
# The container a cgroup path names

The forms of a container's own directory, as the runtimes write them, and what
the scan of `containerIDFromCgroupPath` makes of them below any ancestors and
above any further directories. The converse needs no form: whatever the scan
returns, it has read off the end of one component.
-/

namespace KoAgent.CgroupNames

open KoAgent.NumeralText KoAgent.ContainerPaths

set_option autoImplicit false

/-- One component of a path. -/
structure Component where
  text : Text
  slashFree : '/' ∉ text

structure ContainerId where
  text : Text
  wellFormed : containerIDRegex text = true

def joinComponents (parts : List Component) : Text :=
  ['/'].intercalate (parts.map Component.text)

inductive Tag where
  | docker
  | crio
  | criContainerd
  | libpod
  deriving DecidableEq

namespace Tag

def text : Tag → Text
  | .docker => dockerTag
  | .crio => crioTag
  | .criContainerd => criContainerdTag
  | .libpod => libpodTag

def runtime : Tag → Runtime
  | .docker => .docker
  | .crio => .crio
  | .criContainerd => .containerd
  | .libpod => .podman

end Tag

/-- The name of a container's directory around the id. -/
inductive LeafName where
  | tagged (tag : Tag) (scope : Bool)
  | marked (front : Component)
  | bare

def leafText (id : Text) : LeafName → Text
  | .tagged tag true => tag.text ++ id ++ scopeEnding
  | .tagged tag false => tag.text ++ id
  | .marked front => front.text ++ (criContainerdMark ++ id)
  | .bare => id

def leafRuntime : LeafName → Runtime
  | .tagged tag _ => tag.runtime
  | .marked _ => .containerd
  | .bare => .docker

/-- A mark counts only behind a front that states no runtime of its own, a bare id
only below one of the two directories that hold nothing but containers. -/
def LeafAllowed (ancestors : List Component) : LeafName → Prop
  | .tagged _ _ => True
  | .marked front => ∀ tag : Tag, ¬ tag.text <+: front.text
  | .bare => ∃ part ∈ ancestors, part.text = dockerName ∨ part.text = kubepodsName

def runtimeText : Runtime → Text
  | .docker => "docker".toList
  | .crio => "crio".toList
  | .containerd => "containerd".toList
  | .podman => "podman".toList

/-- The pair of strings the function returns. -/
def returned : Option (Text × Runtime) → Text × Text
  | some (id, runtime) => (id, runtimeText runtime)
  | none => ([], [])

/-! ## Ids -/

theorem id_length (id : ContainerId) : id.text.length = 64 := by
  have wellFormed := id.wellFormed
  simp only [containerIDRegex, Bool.and_eq_true, beq_iff_eq] at wellFormed
  exact wellFormed.1

theorem symbol_not_in_id (id : ContainerId) (symbol : Char) (noDigit : isHexDigit symbol = false) :
    symbol ∉ id.text := by
  intro member
  have wellFormed := id.wellFormed
  simp only [containerIDRegex, Bool.and_eq_true, List.all_eq_true] at wellFormed
  have digit := wellFormed.2 symbol member
  rw [noDigit] at digit
  cases digit

/-! ## Suffixes and marks -/

theorem trim_suffix_append (text ending : Text) : trimSuffix (text ++ ending) ending = text := by
  rw [trimSuffix, if_pos (List.isSuffixOf_iff_suffix.mpr (List.suffix_append text ending))]
  simp

theorem trim_suffix_other (text ending : Text) (other : ¬ ending <:+ text) :
    trimSuffix text ending = text := by
  rw [trimSuffix, if_neg]
  intro found
  exact other (List.isSuffixOf_iff_suffix.mp found)

theorem trim_suffix_split (text ending : Text) :
    trimSuffix text ending = text ∨ trimSuffix text ending ++ ending = text := by
  by_cases found : ending <:+ text
  · right
    rcases found with ⟨front, rfl⟩
    rw [trim_suffix_append]
  · left
    exact trim_suffix_other text ending found

/-- What ends in an id does not end in `.scope`. -/
theorem trim_scope_behind_id (front : Text) (id : ContainerId) :
    trimSuffix (front ++ id.text) scopeEnding = front ++ id.text := by
  apply trim_suffix_other
  intro found
  have short : scopeEnding.length ≤ id.text.length := by
    rw [id_length]
    decide
  have inside := List.suffix_of_suffix_length_le found (List.suffix_append front id.text) short
  have member : 's' ∈ id.text := inside.subset (by decide)
  exact symbol_not_in_id id 's' (by decide) member

/-- A mark does not occur in a text that has too few of one of its symbols. -/
theorem after_last_rare (mark text : Text) (symbol : Char)
    (rare : text.count symbol < mark.count symbol) : afterLast mark text = none := by
  induction text with
  | nil =>
      have filled : mark ≠ [] := by
        intro empty
        simp [empty] at rare
      rw [afterLast, if_neg filled]
  | cons first rest induction =>
      have fewer : rest.count symbol ≤ (first :: rest).count symbol :=
        List.count_le_count_cons
      have absent : mark.isPrefixOf (first :: rest) = false := by
        rw [Bool.eq_false_iff]
        intro found
        have more := (List.isPrefixOf_iff_prefix.mp found).sublist.count_le symbol
        omega
      rw [afterLast, induction (by omega)]
      simp [absent]

theorem after_last_append (mark front text found : Text)
    (last : afterLast mark text = some found) : afterLast mark (front ++ text) = some found := by
  induction front with
  | nil => exact last
  | cons first rest induction =>
      rw [List.cons_append, afterLast, induction]

theorem after_last_suffix (mark text found : Text) (last : afterLast mark text = some found) :
    found <:+ text := by
  induction text with
  | nil =>
      rw [afterLast] at last
      split_ifs at last
      cases last
      exact List.suffix_rfl
  | cons first rest induction =>
      rw [afterLast] at last
      cases inner : afterLast mark rest with
      | some deeper =>
          rw [inner] at last
          cases last
          exact (induction inner).trans (List.suffix_cons first rest)
      | none =>
          rw [inner] at last
          dsimp only at last
          split_ifs at last
          cases last
          exact List.drop_suffix mark.length (first :: rest)

theorem after_mark_of_id (id : ContainerId) :
    afterLast criContainerdMark (criContainerdMark ++ id.text) = some id.text := by
  have colons : id.text.count ':' = 0 :=
    List.count_eq_zero.mpr (symbol_not_in_id id ':' (by decide))
  have rest : afterLast criContainerdMark ("cri-containerd:".toList ++ id.text) = none := by
    apply after_last_rare criContainerdMark _ ':'
    rw [List.count_append, colons]
    decide
  have split : criContainerdMark ++ id.text = ':' :: ("cri-containerd:".toList ++ id.text) := rfl
  have found : criContainerdMark.isPrefixOf (criContainerdMark ++ id.text) = true :=
    List.isPrefixOf_iff_prefix.mpr (List.prefix_append _ _)
  rw [split, afterLast, rest, ← split]
  dsimp only
  rw [if_pos found, List.drop_left]

/-- A tag does not reach beyond a symbol it does not have. -/
theorem prefix_before_symbol (tag front rest : Text) (symbol : Char) (absent : symbol ∉ tag)
    (found : tag <+: front ++ symbol :: rest) : tag <+: front := by
  have whole : front ++ symbol :: rest = (front ++ [symbol]) ++ rest := by simp
  by_cases short : tag.length ≤ front.length
  · exact List.prefix_of_prefix_length_le found (List.prefix_append front _) short
  · exfalso
    have longer : (front ++ [symbol]).length ≤ tag.length := by
      rw [List.length_append, List.length_singleton]
      omega
    rw [whole] at found
    have inside := List.prefix_of_prefix_length_le (List.prefix_append _ rest) found longer
    exact absent (inside.subset (by simp))

/-! ## The rule on each form -/

theorem tag_dash (tag : Tag) : '-' ∈ tag.text := by
  cases tag <;> decide

theorem tag_colon_free (tag : Tag) : ':' ∉ tag.text := by
  cases tag <;> decide

theorem tag_not_prefix_of_id (tag : Tag) (id : ContainerId) : ¬ tag.text <+: id.text := by
  intro found
  exact symbol_not_in_id id '-' (by decide) (found.subset (tag_dash tag))

theorem tag_not_prefix_of_marked (tag : Tag) (front : Text) (id : ContainerId)
    (plain : ¬ tag.text <+: front) : ¬ tag.text <+: front ++ (criContainerdMark ++ id.text) := by
  intro found
  exact plain (prefix_before_symbol tag.text front _ ':' (tag_colon_free tag) found)

/-- Where no tag is stated, the mark decides. -/
theorem rule_untagged (part : Text) (kept : trimSuffix part scopeEnding = part)
    (untagged : ∀ tag : Tag, ¬ tag.text <+: part) :
    componentRule part =
      match afterLast criContainerdMark part with
      | some id => (some .containerd, id)
      | none => (none, part) := by
  have absent : ∀ tag : Tag, tag.text.isPrefixOf part = false := by
    intro tag
    rw [Bool.eq_false_iff]
    intro found
    exact untagged tag (List.isPrefixOf_iff_prefix.mp found)
  have docker : dockerTag.isPrefixOf part = false := absent .docker
  have crio : crioTag.isPrefixOf part = false := absent .crio
  have criContainerd : criContainerdTag.isPrefixOf part = false := absent .criContainerd
  have libpod : libpodTag.isPrefixOf part = false := absent .libpod
  rw [componentRule]
  simp only [kept, docker, crio, criContainerd, libpod]
  cases afterLast criContainerdMark part with
  | some id => rfl
  | none => rfl

theorem rule_tagged (part : Text) (tag : Tag) (id : ContainerId)
    (trimmed : trimSuffix part scopeEnding = tag.text ++ id.text)
    (unmarked : part.count ':' = 0) : componentRule part = (some tag.runtime, id.text) := by
  have noMark : afterLast criContainerdMark part = none := by
    apply after_last_rare criContainerdMark part ':'
    rw [unmarked]
    decide
  rw [componentRule]
  simp only [trimmed, noMark]
  cases tag with
  | docker => rfl
  | crio => rfl
  | criContainerd => rfl
  | libpod => rfl

def statedRuntime : LeafName → Option Runtime
  | .bare => none
  | leaf => some (leafRuntime leaf)

theorem tagged_colon_free (tag : Tag) (id : ContainerId) : (tag.text ++ id.text).count ':' = 0 := by
  rw [List.count_append, List.count_eq_zero.mpr (tag_colon_free tag),
    List.count_eq_zero.mpr (symbol_not_in_id id ':' (by decide))]

theorem rule_leaf (ancestors : List Component) (id : ContainerId) (leaf : LeafName)
    (allowed : LeafAllowed ancestors leaf) :
    componentRule (leafText id.text leaf) = (statedRuntime leaf, id.text) := by
  cases leaf with
  | tagged tag scope =>
      cases scope with
      | true =>
          apply rule_tagged _ tag id (trim_suffix_append _ _)
          rw [List.count_append, tagged_colon_free]
          decide
      | false =>
          exact rule_tagged _ tag id (trim_scope_behind_id _ id) (tagged_colon_free tag id)
  | marked front =>
      have kept : trimSuffix (front.text ++ (criContainerdMark ++ id.text)) scopeEnding =
          front.text ++ (criContainerdMark ++ id.text) := by
        rw [← List.append_assoc]
        exact trim_scope_behind_id _ id
      have untagged : ∀ tag : Tag, ¬ tag.text <+: front.text ++ (criContainerdMark ++ id.text) :=
        fun tag => tag_not_prefix_of_marked tag front.text id (allowed tag)
      have last := after_last_append _ front.text _ _ (after_mark_of_id id)
      rw [leafText, rule_untagged _ kept untagged, last]
      rfl
  | bare =>
      have noMark : afterLast criContainerdMark id.text = none := by
        apply after_last_rare criContainerdMark id.text ':'
        rw [List.count_eq_zero.mpr (symbol_not_in_id id ':' (by decide))]
        decide
      have kept : trimSuffix id.text scopeEnding = id.text := trim_scope_behind_id [] id
      rw [leafText, rule_untagged _ kept (fun tag => tag_not_prefix_of_id tag id), noMark]
      rfl

/-! ## The scan -/

theorem scan_skips (nested outer : List Text)
    (foreign : ∀ part ∈ nested, containerIDRegex (componentRule part).2 = false) :
    scanComponents (nested ++ outer) = scanComponents outer := by
  induction nested with
  | nil => rfl
  | cons part rest induction =>
      have skipped := foreign part List.mem_cons_self
      have deeper := induction fun other member => foreign other (List.mem_cons_of_mem part member)
      rw [List.cons_append, scanComponents]
      by_cases short : part.length < 28
      · rw [if_pos short, deeper]
      · rw [if_neg short]
        simp [skipped, deeper]

theorem leaf_length (id : ContainerId) (leaf : LeafName) : 28 ≤ (leafText id.text leaf).length := by
  have size := id_length id
  cases leaf with
  | tagged tag scope => cases scope <;> simp only [leafText, List.length_append] <;> omega
  | marked front =>
      simp only [leafText, List.length_append]
      omega
  | bare =>
      rw [leafText]
      omega

/-- The scan stops at the leaf, whatever is above it. -/
theorem scan_leaf (ancestors : List Component) (id : ContainerId) (leaf : LeafName)
    (allowed : LeafAllowed ancestors leaf) :
    scanComponents (leafText id.text leaf :: (ancestors.map Component.text).reverse) =
      some (id.text, leafRuntime leaf) := by
  have rule := rule_leaf ancestors id leaf allowed
  have long : ¬ (leafText id.text leaf).length < 28 := Nat.not_lt.mpr (leaf_length id leaf)
  rw [scanComponents, if_neg long, rule]
  simp only [id.wellFormed, Bool.not_true, Bool.false_eq_true, if_false]
  cases leaf with
  | tagged tag scope => rfl
  | marked front => rfl
  | bare =>
      rcases allowed with ⟨part, member, named⟩
      have above : part.text ∈ id.text :: (ancestors.map Component.text).reverse := by
        apply List.mem_cons_of_mem
        rw [List.mem_reverse]
        exact List.mem_map_of_mem member
      have found : (hasAncestor (id.text :: (ancestors.map Component.text).reverse) dockerName ||
          hasAncestor (id.text :: (ancestors.map Component.text).reverse) kubepodsName) = true := by
        simp only [hasAncestor, Bool.or_eq_true, List.contains_iff_mem]
        rcases named with docker | kubepods
        · left
          rwa [docker] at above
        · right
          rwa [kubepods] at above
      change (if _ then _ else _) = _
      rw [leafText, found, if_pos rfl]
      rfl

/-- An id that is the end of one of the components, up to `.scope`. -/
def ReadOff (parts : List Text) (id : Text) : Prop :=
  ∃ part ∈ parts, id <:+ part ∨ id ++ scopeEnding <:+ part

theorem component_rule_suffix (part : Text) :
    (componentRule part).2 <:+ part ∨ (componentRule part).2 ++ scopeEnding <:+ part := by
  have trimmed : ∀ count, (trimSuffix part scopeEnding).drop count <:+ part ∨
      (trimSuffix part scopeEnding).drop count ++ scopeEnding <:+ part := by
    intro count
    have dropped := List.drop_suffix count (trimSuffix part scopeEnding)
    rcases trim_suffix_split part scopeEnding with whole | cut
    · left
      rwa [whole] at dropped ⊢
    · right
      rcases dropped with ⟨front, split⟩
      have whole : front ++ ((trimSuffix part scopeEnding).drop count ++ scopeEnding) = part := by
        rw [← List.append_assoc, split, cut]
      exact ⟨front, whole⟩
  rw [componentRule]
  split_ifs
  · exact trimmed _
  · exact trimmed _
  · exact trimmed _
  · cases last : afterLast criContainerdMark part with
    | some id => exact Or.inl (after_last_suffix criContainerdMark part id last)
    | none => exact trimmed _
  · cases last : afterLast criContainerdMark part with
    | some id => exact Or.inl (after_last_suffix criContainerdMark part id last)
    | none => exact trimmed 0

theorem scan_reads_component (parts : List Text) (id : Text) (runtime : Runtime)
    (found : scanComponents parts = some (id, runtime)) :
    containerIDRegex id = true ∧ ReadOff parts id := by
  induction parts with
  | nil => cases found
  | cons part outer induction =>
      have deeper : scanComponents outer = some (id, runtime) →
          containerIDRegex id = true ∧ ReadOff (part :: outer) id := by
        intro further
        rcases induction further with ⟨wellFormed, inner, member, suffix⟩
        exact ⟨wellFormed, inner, List.mem_cons_of_mem part member, suffix⟩
      have here : containerIDRegex (componentRule part).2 = true → id = (componentRule part).2 →
          containerIDRegex id = true ∧ ReadOff (part :: outer) id := by
        intro wellFormed same
        rw [same]
        exact ⟨wellFormed, part, List.mem_cons_self, component_rule_suffix part⟩
      rw [scanComponents] at found
      by_cases short : part.length < 28
      · rw [if_pos short] at found
        exact deeper found
      · rw [if_neg short] at found
        cases wellFormed : containerIDRegex (componentRule part).2 with
        | false =>
            simp only [wellFormed, Bool.not_false, if_true] at found
            exact deeper found
        | true =>
            simp only [wellFormed, Bool.not_true, Bool.false_eq_true, if_false] at found
            split at found
            · cases found
              exact here wellFormed rfl
            · split_ifs at found
              · cases found
                exact here wellFormed rfl
              · exact deeper found

/-! ## Paths -/

theorem leaf_slash_free (id : ContainerId) (leaf : LeafName) : '/' ∉ leafText id.text leaf := by
  have idFree := symbol_not_in_id id '/' (by decide)
  have tagFree : ∀ tag : Tag, '/' ∉ tag.text := by
    intro tag
    cases tag <;> decide
  have markFree : '/' ∉ criContainerdMark := by decide
  have scopeFree : '/' ∉ scopeEnding := by decide
  cases leaf with
  | tagged tag scope =>
      cases scope <;> simp [leafText, tagFree tag, idFree, scopeFree]
  | marked front => simp [leafText, front.slashFree, markFree, idFree]
  | bare => exact idFree

def leafComponent (id : ContainerId) (leaf : LeafName) : Component :=
  ⟨leafText id.text leaf, leaf_slash_free id leaf⟩

theorem split_joined (parts : List Component) (filled : parts ≠ []) :
    (joinComponents parts).splitOn '/' = parts.map Component.text := by
  apply List.splitOn_intercalate
  · intro text member
    rcases List.mem_map.mp member with ⟨part, inside, rfl⟩
    exact part.slashFree
  · simpa using filled

theorem runtime_text_filled (runtime : Runtime) : runtimeText runtime ≠ [] := by
  cases runtime <;> decide

theorem cgroup_path_names_container :
    (∀ (ancestors nested : List Component) (id : ContainerId) (leaf : LeafName),
      LeafAllowed ancestors leaf →
      (∀ part ∈ nested, containerIDRegex (componentRule part.text).2 = false) →
      returned (containerIDFromCgroupPath
          (joinComponents (ancestors ++ leafComponent id leaf :: nested))) =
        (id.text, runtimeText (leafRuntime leaf))) ∧
    ∀ path : Text,
      returned (containerIDFromCgroupPath path) = ([], []) ∨
      (containerIDRegex (returned (containerIDFromCgroupPath path)).1 = true ∧
        ReadOff (path.splitOn '/') (returned (containerIDFromCgroupPath path)).1 ∧
        (returned (containerIDFromCgroupPath path)).2 ≠ []) := by
  constructor
  · intro ancestors nested id leaf allowed foreign
    have order : ((ancestors ++ leafComponent id leaf :: nested).map Component.text).reverse =
        (nested.map Component.text).reverse ++
          leafText id.text leaf :: (ancestors.map Component.text).reverse := by
      simp [leafComponent]
    have skipped : ∀ part ∈ (nested.map Component.text).reverse,
        containerIDRegex (componentRule part).2 = false := by
      intro part member
      rcases List.mem_map.mp (List.mem_reverse.mp member) with ⟨inner, inside, rfl⟩
      exact foreign inner inside
    rw [containerIDFromCgroupPath, split_joined _ (by simp), order, scan_skips _ _ skipped,
      scan_leaf ancestors id leaf allowed]
    rfl
  · intro path
    cases found : containerIDFromCgroupPath path with
    | none =>
        left
        rfl
    | some result =>
        right
        rcases scan_reads_component _ result.1 result.2 found with
          ⟨wellFormed, part, member, suffix⟩
        exact ⟨wellFormed, ⟨part, List.mem_reverse.mp member, suffix⟩,
          runtime_text_filled result.2⟩

def sampleId : ContainerId :=
  ⟨"0ea0d452a34368ae62b2f6e976bcbff616e86190bd8e0d26faebc1a875c1e2ba".toList, by decide⟩

/-- A bare id below `kubepods`, with an `init.scope` of its own inside. -/
theorem kubepods_path_names_container :
    returned (containerIDFromCgroupPath (joinComponents
        [⟨[], by decide⟩, ⟨"kubepods".toList, by decide⟩, ⟨"pod1234".toList, by decide⟩,
          leafComponent sampleId .bare, ⟨"init.scope".toList, by decide⟩])) =
      (sampleId.text, "docker".toList) := by
  apply cgroup_path_names_container.1
    [⟨[], by decide⟩, ⟨"kubepods".toList, by decide⟩, ⟨"pod1234".toList, by decide⟩]
    [⟨"init.scope".toList, by decide⟩] sampleId .bare
  · exact ⟨⟨"kubepods".toList, by decide⟩, by simp, Or.inr rfl⟩
  · intro part member
    cases List.mem_singleton.mp member
    decide

end KoAgent.CgroupNames
