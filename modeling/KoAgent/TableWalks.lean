import Mathlib.Algebra.BigOperators.Group.List.Basic
import Mathlib.Algebra.GroupWithZero.Nat
import Mathlib.Data.List.Nodup
import Mathlib.Logic.Embedding.Basic
import KoAgent.KeyedTables

/-!
# Tables in a fixed order, and walks that delete

A table keeps its entries in the order of the slots of their keys. A walk asks for
the key behind its cursor again and again; when the cursor's own key has been
deleted, it is sent back to the first key. The steps such a walk needs to delete
every key of a kind are counted exactly.
-/

namespace KoAgent.TableWalks

open KoAgent.KeyedTables

set_option autoImplicit false

section Tables

variable {Key Value : Type} [DecidableEq Key] {slot : Key ↪ Nat}

structure Table (Value : Type) (slot : Key ↪ Nat) where
  entries : List (Key × Value)
  ordered : entries.Pairwise fun left right => slot left.1 < slot right.1

def place (slot : Key ↪ Nat) (key : Key) (value : Value) : List (Key × Value) → List (Key × Value)
  | [] => [(key, value)]
  | entry :: rest =>
      if key = entry.1 then (key, value) :: rest
      else if slot key < slot entry.1 then (key, value) :: entry :: rest
      else entry :: place slot key value rest

theorem mem_place (key : Key) (value : Value) (entries : List (Key × Value))
    (ordered : entries.Pairwise fun left right => slot left.1 < slot right.1)
    (entry : Key × Value) :
    entry ∈ place slot key value entries ↔
      entry = (key, value) ∨ (entry.1 ≠ key ∧ entry ∈ entries) := by
  induction entries with
  | nil => simp [place]
  | cons first rest induction =>
      rw [List.pairwise_cons] at ordered
      have later : ∀ other ∈ rest, slot key ≤ slot first.1 → other.1 ≠ key := by
        intro other member least same
        have above := ordered.1 other member
        rw [same] at above
        omega
      rw [place]
      split_ifs with same less
      · subst same
        constructor
        · intro member
          rcases List.mem_cons.mp member with here | further
          · exact Or.inl here
          · exact Or.inr ⟨later entry further (Nat.le_refl _), List.mem_cons_of_mem first further⟩
        · intro either
          rcases either with here | ⟨other, member⟩
          · exact List.mem_cons.mpr (Or.inl here)
          · rcases List.mem_cons.mp member with rfl | further
            · exact absurd rfl other
            · exact List.mem_cons_of_mem _ further
      · constructor
        · intro member
          rcases List.mem_cons.mp member with here | further
          · exact Or.inl here
          · right
            rcases List.mem_cons.mp further with rfl | deeper
            · exact ⟨Ne.symm same, further⟩
            · exact ⟨later entry deeper (Nat.le_of_lt less), further⟩
        · intro either
          rcases either with here | ⟨_, member⟩
          · exact List.mem_cons.mpr (Or.inl here)
          · exact List.mem_cons_of_mem _ member
      · rw [List.mem_cons, List.mem_cons, induction ordered.2]
        constructor
        · intro either
          rcases either with rfl | here | ⟨other, member⟩
          · exact Or.inr ⟨Ne.symm same, Or.inl rfl⟩
          · exact Or.inl here
          · exact Or.inr ⟨other, Or.inr member⟩
        · intro either
          rcases either with here | ⟨other, first | member⟩
          · exact Or.inr (Or.inl here)
          · exact Or.inl first
          · exact Or.inr (Or.inr ⟨other, member⟩)

theorem place_ordered (key : Key) (value : Value) (entries : List (Key × Value))
    (ordered : entries.Pairwise fun left right => slot left.1 < slot right.1) :
    (place slot key value entries).Pairwise fun left right => slot left.1 < slot right.1 := by
  induction entries with
  | nil => exact List.pairwise_singleton _ _
  | cons first rest induction =>
      have tail := (List.pairwise_cons.mp ordered).2
      have above := (List.pairwise_cons.mp ordered).1
      rw [place]
      split_ifs with same less
      · subst same
        exact List.pairwise_cons.mpr ⟨above, tail⟩
      · apply List.pairwise_cons.mpr
        constructor
        · intro other member
          rcases List.mem_cons.mp member with rfl | further
          · exact less
          · exact Nat.lt_trans less (above other further)
        · exact ordered
      · have greater : slot first.1 < slot key := by
          have apart : slot key ≠ slot first.1 := fun equal => same (slot.injective equal)
          omega
        apply List.pairwise_cons.mpr
        constructor
        · intro other member
          rcases (mem_place key value rest tail other).mp member with rfl | ⟨_, further⟩
          · exact greater
          · exact above other further
        · exact induction tail

namespace Table

def empty : Table Value slot where
  entries := []
  ordered := List.Pairwise.nil

def keys (table : Table Value slot) : List Key := table.entries.map Prod.fst

def lookup (table : Table Value slot) (key : Key) : Option Value := table.entries.lookup key

def insert (table : Table Value slot) (key : Key) (value : Value) : Table Value slot where
  entries := place slot key value table.entries
  ordered := place_ordered key value table.entries table.ordered

def erase (table : Table Value slot) (key : Key) : Table Value slot where
  entries := table.entries.filter fun entry => entry.1 ≠ key
  ordered := table.ordered.filter _

omit [DecidableEq Key] in
theorem distinct (table : Table Value slot) : table.keys.Nodup := by
  apply ascending_nodup slot
  rw [keys, List.pairwise_map]
  exact table.ordered

theorem mem_insert (table : Table Value slot) (key : Key) (value : Value) (entry : Key × Value) :
    entry ∈ (table.insert key value).entries ↔
      entry = (key, value) ∨ (entry.1 ≠ key ∧ entry ∈ table.entries) :=
  mem_place key value table.entries table.ordered entry

theorem mem_erase (table : Table Value slot) (key : Key) (entry : Key × Value) :
    entry ∈ (table.erase key).entries ↔ entry ∈ table.entries ∧ entry.1 ≠ key := by
  rw [erase, List.mem_filter, decide_eq_true_eq]

theorem lookup_iff (table : Table Value slot) (key : Key) (value : Value) :
    table.lookup key = some value ↔ (key, value) ∈ table.entries :=
  lookup_some_iff table.entries table.distinct key value

theorem lookup_none_iff (table : Table Value slot) (key : Key) :
    table.lookup key = none ↔ ∀ value, (key, value) ∉ table.entries := by
  rw [Option.eq_none_iff_forall_ne_some]
  simp only [ne_eq, lookup_iff]

/-- The key behind the cursor; the first key when the cursor has no key, or one that
is no longer in the table. -/
def next (table : Table Value slot) : Option Key → Option Key
  | none => table.keys.head?
  | some cursor =>
      if cursor ∈ table.keys then table.keys.find? fun key => slot cursor < slot key
      else table.keys.head?

/-- A walk of at most so many steps that deletes each key it meets of the kind `drops`. -/
def walk (drops : Key → Bool) : Nat → Option Key → Table Value slot → Table Value slot
  | 0, _, table => table
  | steps + 1, cursor, table =>
      match table.next cursor with
      | none => table
      | some key => walk drops steps (some key) (if drops key then table.erase key else table)

end Table

end Tables

section Walks

variable {Key Value : Type} [DecidableEq Key] {slot : Key ↪ Nat} (drops : Key → Bool)

open Table

theorem walk_mem (steps : Nat) (cursor : Option Key) (table : Table Value slot)
    (entry : Key × Value) (member : entry ∈ (table.walk drops steps cursor).entries) :
    entry ∈ table.entries := by
  induction steps generalizing cursor table with
  | zero => exact member
  | succ steps induction =>
      rw [walk] at member
      cases met : table.next cursor with
      | none =>
          rw [met] at member
          exact member
      | some key =>
          rw [met] at member
          have deeper := induction _ _ member
          split_ifs at deeper
          · exact ((mem_erase table key entry).mp deeper).1
          · exact deeper

theorem walk_keeps (steps : Nat) (cursor : Option Key) (table : Table Value slot)
    (entry : Key × Value) (member : entry ∈ table.entries) (kept : drops entry.1 = false) :
    entry ∈ (table.walk drops steps cursor).entries := by
  induction steps generalizing cursor table with
  | zero => exact member
  | succ steps induction =>
      rw [walk]
      cases met : table.next cursor with
      | none => exact member
      | some key =>
          apply induction
          split_ifs with dropped
          · have other : entry.1 ≠ key := by
              intro same
              rw [same, dropped] at kept
              cases kept
            exact (mem_erase table key entry).mpr ⟨member, other⟩
          · exact member

/-- Where a walk stands: what is before its cursor, and what is still ahead. -/
inductive Stands : Option Key → List (Key × Value) → List (Key × Value) → Prop
  | start (cursor : Option Key) (ahead : List (Key × Value))
      (gone : ∀ key ∈ cursor, key ∉ ahead.map Prod.fst) : Stands cursor [] ahead
  | behind (front : List (Key × Value)) (entry : Key × Value) (ahead : List (Key × Value)) :
      Stands (some entry.1) (front ++ [entry]) ahead

theorem next_ahead (table : Table Value slot) (cursor : Option Key)
    (seen ahead : List (Key × Value)) (split : table.entries = seen ++ ahead)
    (stands : Stands cursor seen ahead) : table.next cursor = (ahead.map Prod.fst).head? := by
  cases stands with
  | start cursor ahead gone =>
      have keys : table.keys = ahead.map Prod.fst := by rw [keys, split, List.nil_append]
      cases cursor with
      | none => rw [next, keys]
      | some cursor =>
          rw [next, keys, if_neg (gone cursor rfl)]
  | behind front entry ahead =>
      have keys : table.keys = front.map Prod.fst ++ entry.1 :: ahead.map Prod.fst := by
        rw [keys, split]
        simp
      have ordered := table.ordered
      rw [split, List.append_assoc, List.singleton_append, List.pairwise_append,
        List.pairwise_cons] at ordered
      rcases ordered with ⟨_, ⟨above, _⟩, below⟩
      have passed : (front.map Prod.fst).find? (fun key => slot entry.1 < slot key) = none := by
        rw [List.find?_eq_none]
        intro key member
        rcases List.mem_map.mp member with ⟨earlier, inside, rfl⟩
        have less := below earlier inside entry List.mem_cons_self
        simp only [decide_eq_true_eq]
        omega
      have present : entry.1 ∈ table.keys := by
        rw [keys]
        simp
      rw [next, if_pos present, keys, List.find?_append, passed, Option.none_or,
        List.find?_cons_of_neg (by simp)]
      cases ahead with
      | nil => rfl
      | cons first rest =>
          have less : slot entry.1 < slot first.1 := above first List.mem_cons_self
          rw [List.map_cons, List.find?_cons_of_pos (by simpa using less), List.head?_cons]

/-- The steps to delete everything of the kind: each such entry is reached from the
start, over the entries before it that stay. -/
def work : Nat → List (Key × Value) → Nat
  | _, [] => 0
  | kept, entry :: rest =>
      if drops entry.1 then kept + 1 + work kept rest else work (kept + 1) rest

omit [DecidableEq Key] in
theorem work_append_kept (kept : Nat) (seen rest : List (Key × Value))
    (stay : ∀ entry ∈ seen, drops entry.1 = false) :
    work drops kept (seen ++ rest) = work drops (kept + seen.length) rest := by
  induction seen generalizing kept with
  | nil => rfl
  | cons first others induction =>
      have tail := induction (kept + 1) fun entry member =>
        stay entry (List.mem_cons_of_mem first member)
      rw [List.cons_append, work, stay first List.mem_cons_self, tail, List.length_cons]
      simp only [Bool.false_eq_true, if_false]
      congr 1
      omega

omit [DecidableEq Key] in
/-- Within the steps of the entries it has already passed, a walk deletes nothing. -/
theorem work_le_kept_iff (kept : Nat) (rest : List (Key × Value)) :
    work drops kept rest ≤ kept ↔ ∀ entry ∈ rest, drops entry.1 = false := by
  have none : ∀ (entries : List (Key × Value)) (kept : Nat),
      (∀ entry ∈ entries, drops entry.1 = false) → work drops kept entries = 0 := by
    intro entries kept stay
    have whole := work_append_kept drops kept entries [] stay
    rw [List.append_nil] at whole
    rw [whole, work]
  have some : ∀ (entries : List (Key × Value)) (kept : Nat),
      work drops kept entries ≤ kept → ∀ entry ∈ entries, drops entry.1 = false := by
    intro entries
    induction entries with
    | nil => simp
    | cons first others induction =>
        intro kept small entry member
        rw [work] at small
        split_ifs at small with dropped
        · omega
        · have stays : drops first.1 = false := by simpa using dropped
          rcases List.mem_cons.mp member with rfl | further
          · exact stays
          · exact induction (kept + 1) (by omega) entry further
  constructor
  · exact some rest kept
  · intro stay
    rw [none rest kept stay]
    exact Nat.zero_le kept

omit [DecidableEq Key] in
theorem key_between (table : Table Value slot) (seen : List (Key × Value)) (entry : Key × Value)
    (ahead : List (Key × Value)) (split : table.entries = seen ++ entry :: ahead) :
    entry.1 ∉ (seen ++ ahead).map Prod.fst := by
  have distinct := table.distinct
  rw [keys, split, List.map_append, List.map_cons, List.nodup_middle, List.nodup_cons,
    ← List.map_append] at distinct
  exact distinct.1

theorem erase_between (table : Table Value slot) (seen : List (Key × Value)) (entry : Key × Value)
    (ahead : List (Key × Value)) (split : table.entries = seen ++ entry :: ahead) :
    (table.erase entry.1).entries = seen ++ ahead := by
  have others : ∀ other ∈ seen ++ ahead, other.1 ≠ entry.1 := by
    intro other member same
    apply key_between table seen entry ahead split
    rw [← same]
    exact List.mem_map.mpr ⟨other, member, rfl⟩
  change table.entries.filter (fun other => other.1 ≠ entry.1) = seen ++ ahead
  rw [split, List.filter_append, List.filter_cons_of_neg (by simp), ← List.filter_append]
  apply List.filter_eq_self.mpr
  intro other member
  simpa using others other member

/-- The walk has deleted everything of the kind exactly when it had the steps for it:
those ahead of it count from the start, less the way it has already come. -/
theorem walk_clears_from (steps : Nat) (cursor : Option Key) (table : Table Value slot)
    (seen ahead : List (Key × Value)) (split : table.entries = seen ++ ahead)
    (stands : Stands cursor seen ahead) (stay : ∀ entry ∈ seen, drops entry.1 = false) :
    (∀ entry ∈ (table.walk drops steps cursor).entries, drops entry.1 = false) ↔
      work drops seen.length ahead ≤ steps + seen.length := by
  induction steps generalizing cursor table seen ahead with
  | zero =>
      rw [walk, split, Nat.zero_add, work_le_kept_iff]
      constructor
      · intro cleared entry member
        exact cleared entry (List.mem_append_right seen member)
      · intro cleared entry member
        rcases List.mem_append.mp member with early | late
        · exact stay entry early
        · exact cleared entry late
  | succ steps induction =>
      have met := next_ahead table cursor seen ahead split stands
      cases ahead with
      | nil =>
          rw [List.map_nil, List.head?_nil] at met
          rw [List.append_nil] at split
          rw [walk, met, work]
          dsimp only
          rw [split]
          simp only [Nat.zero_le, iff_true]
          exact stay
      | cons entry rest =>
          rw [List.map_cons, List.head?_cons] at met
          rw [walk, met, work]
          dsimp only
          by_cases dropped : drops entry.1 = true
          · -- The cursor's key is gone, so the walk starts again at the first key.
            have remaining := erase_between table seen entry rest split
            have again : Stands (some entry.1) [] (seen ++ rest) := by
              apply Stands.start
              intro key same
              cases same
              exact key_between table seen entry rest split
            have restarted := induction (some entry.1) (table.erase entry.1) [] (seen ++ rest)
              remaining again (by simp)
            rw [List.length_nil, work_append_kept drops 0 seen rest stay, Nat.zero_add] at restarted
            rw [if_pos dropped, if_pos dropped, restarted]
            omega
          · have stays : drops entry.1 = false := by simpa using dropped
            have further := induction (some entry.1) table (seen ++ [entry]) rest (by simp [split])
              (Stands.behind seen entry rest) (by
                intro other member
                rcases List.mem_append.mp member with early | here
                · exact stay other early
                · rw [List.mem_singleton.mp here]
                  exact stays)
            rw [List.length_append, List.length_singleton] at further
            rw [if_neg dropped, if_neg dropped, further]
            omega

omit [DecidableEq Key] in
/-- The steps without the walk: for each entry to delete, one and the entries at
smaller slots that stay. -/
theorem work_sum (kept : Nat) (entries : List (Key × Value))
    (ordered : entries.Pairwise fun left right => slot left.1 < slot right.1) :
    work drops kept entries =
      (((entries.map Prod.fst).filter drops).map fun key => kept + 1 +
        ((entries.map Prod.fst).filter fun other => !drops other).countP
          fun other => slot other < slot key).sum := by
  induction entries generalizing kept with
  | nil => rfl
  | cons first rest induction =>
      rw [List.pairwise_cons] at ordered
      have above : ∀ key ∈ (rest.map Prod.fst).filter drops, slot first.1 < slot key := by
        intro key member
        rcases List.mem_map.mp (List.mem_of_mem_filter member) with ⟨entry, inside, rfl⟩
        exact ordered.1 entry inside
      have least : ((rest.map Prod.fst).filter fun other => !drops other).countP
          (fun other => slot other < slot first.1) = 0 := by
        rw [List.countP_eq_zero]
        intro other member
        rcases List.mem_map.mp (List.mem_of_mem_filter member) with ⟨entry, inside, rfl⟩
        have greater := ordered.1 entry inside
        simp only [decide_eq_true_eq]
        omega
      rw [work, List.map_cons]
      by_cases dropped : drops first.1 = true
      · have passed : ((first.1 :: rest.map Prod.fst).filter fun other => !drops other) =
            (rest.map Prod.fst).filter fun other => !drops other :=
          List.filter_cons_of_neg (by simp [dropped])
        rw [if_pos dropped, List.filter_cons_of_pos dropped, passed, List.map_cons, List.sum_cons,
          induction kept ordered.2, least]
      · have stays : ((first.1 :: rest.map Prod.fst).filter fun other => !drops other) =
            first.1 :: (rest.map Prod.fst).filter fun other => !drops other :=
          List.filter_cons_of_pos (by simp [dropped])
        rw [if_neg dropped, List.filter_cons_of_neg dropped, stays, induction (kept + 1) ordered.2]
        congr 1
        apply List.map_congr_left
        intro key member
        rw [List.countP_cons_of_pos (by simpa using above key member)]
        omega

theorem walk_clears_iff (steps : Nat) (table : Table Value slot) :
    (∀ entry ∈ (table.walk drops steps none).entries, drops entry.1 = false) ↔
      work drops 0 table.entries ≤ steps :=
  walk_clears_from drops steps none table [] table.entries rfl
    (Stands.start none table.entries (by simp)) (by simp)

/-- How many entries of the list are of the kind. -/
def kindCount (kind : Key → Bool) (entries : List (Key × Value)) : Nat :=
  entries.countP fun entry => kind entry.1

omit [DecidableEq Key] in
theorem seen_length_le (seen ahead : List (Key × Value))
    (stay : ∀ entry ∈ seen, drops entry.1 = false) :
    seen.length ≤ kindCount (fun key => !drops key) (seen ++ ahead) := by
  have whole : seen.countP (fun entry => !drops entry.1) = seen.length := by
    apply List.countP_eq_length.mpr
    intro entry member
    rw [stay entry member]
    rfl
  rw [kindCount, List.countP_append]
  omega

/-- A walk that leaves something to delete has used up its steps: it was sent back
once for every deletion, each time over no more than the entries that stay. -/
theorem walk_deletes_from (steps : Nat) (cursor : Option Key) (table : Table Value slot)
    (seen ahead : List (Key × Value)) (split : table.entries = seen ++ ahead)
    (stands : Stands cursor seen ahead) (stay : ∀ entry ∈ seen, drops entry.1 = false)
    (stays : Nat) (count : kindCount (fun key => !drops key) table.entries = stays) :
    ∃ deleted, kindCount drops table.entries =
        kindCount drops (table.walk drops steps cursor).entries + deleted ∧
      (0 < kindCount drops (table.walk drops steps cursor).entries →
        steps + seen.length < (deleted + 1) * (stays + 1)) := by
  have passed := seen_length_le drops seen ahead stay
  rw [← split, count] at passed
  induction steps generalizing cursor table seen ahead with
  | zero =>
      refine ⟨0, rfl, ?_⟩
      intro left
      omega
  | succ steps induction =>
      have met := next_ahead table cursor seen ahead split stands
      cases ahead with
      | nil =>
          have none : kindCount drops table.entries = 0 := by
            rw [split, List.append_nil, kindCount]
            apply List.countP_eq_zero.mpr
            intro entry member
            rw [stay entry member]
            decide
          rw [List.map_nil, List.head?_nil] at met
          rw [walk, met]
          refine ⟨0, rfl, ?_⟩
          intro left
          exact absurd none (Nat.ne_of_gt left)
      | cons entry rest =>
          rw [List.map_cons, List.head?_cons] at met
          rw [walk, met]
          dsimp only
          by_cases dropped : drops entry.1 = true
          · have remaining := erase_between table seen entry rest split
            have again : Stands (some entry.1) [] (seen ++ rest) := by
              apply Stands.start
              intro key same
              cases same
              exact key_between table seen entry rest split
            have fewer : kindCount drops table.entries =
                kindCount drops (table.erase entry.1).entries + 1 := by
              rw [split, remaining, kindCount, kindCount, List.countP_append, List.countP_append,
                List.countP_cons_of_pos (by exact dropped)]
              omega
            have same : kindCount (fun key => !drops key) (table.erase entry.1).entries = stays := by
              rw [← count, split, remaining, kindCount, kindCount, List.countP_append,
                List.countP_append, List.countP_cons_of_neg (by rw [dropped]; decide)]
            rcases induction (some entry.1) (table.erase entry.1) [] (seen ++ rest) remaining again
              (by simp) same (Nat.zero_le _) with ⟨deleted, total, used⟩
            rw [if_pos dropped]
            refine ⟨deleted + 1, by omega, ?_⟩
            intro left
            have enough := used left
            rw [List.length_nil] at enough
            rw [Nat.succ_mul (deleted + 1)]
            omega
          · have kept : drops entry.1 = false := by simpa using dropped
            have longer : ∀ other ∈ seen ++ [entry], drops other.1 = false := by
              intro other member
              rcases List.mem_append.mp member with early | here
              · exact stay other early
              · rw [List.mem_singleton.mp here]
                exact kept
            have more : table.entries = (seen ++ [entry]) ++ rest := by simp [split]
            have counted := seen_length_le drops (seen ++ [entry]) rest longer
            rw [← more, count] at counted
            rcases induction (some entry.1) table (seen ++ [entry]) rest more
              (Stands.behind seen entry rest) longer count counted with ⟨deleted, total, used⟩
            rw [if_neg dropped]
            refine ⟨deleted, total, ?_⟩
            intro left
            have enough := used left
            rw [List.length_append, List.length_singleton] at enough
            omega

/-- A walk deletes everything of the kind, or one entry for each turn over all the
entries that stay. -/
theorem walk_deletes (steps : Nat) (table : Table Value slot) :
    kindCount drops (table.walk drops steps none).entries ≤
      kindCount drops table.entries -
        steps / (kindCount (fun key => !drops key) table.entries + 1) := by
  rcases walk_deletes_from drops steps none table [] table.entries rfl
    (Stands.start none table.entries (by simp)) (by simp) _ rfl with ⟨deleted, total, used⟩
  by_cases left : 0 < kindCount drops (table.walk drops steps none).entries
  · have enough := used left
    rw [List.length_nil, Nat.add_zero] at enough
    have turns : steps / (kindCount (fun key => !drops key) table.entries + 1) < deleted + 1 :=
      (Nat.div_lt_iff_lt_mul (Nat.succ_pos _)).mpr enough
    omega
  · omega

end Walks

end KoAgent.TableWalks
