import Mathlib.Data.Finset.Card
import Mathlib.Data.List.Nodup

/-!
# Recency

An ordered map that holds at most so many entries. The least recently used
entries stand first and are the first to go, so an entry stays as long as fewer
distinct other keys have been used since its own last use than the map may hold.
-/

set_option autoImplicit false

namespace Recency

universe u v
variable {κ : Type u} {β : Type v} [DecidableEq κ]

def keys (entries : List (κ × β)) : List κ := entries.map Prod.fst

def find (k : κ) (entries : List (κ × β)) : Option β :=
  (entries.find? fun e => decide (e.1 = k)).map Prod.snd

def remove (k : κ) (entries : List (κ × β)) : List (κ × β) :=
  entries.filter fun e => decide (e.1 ≠ k)

/-- Change the value of a key where it stands. -/
def assign (k : κ) (v : β) (entries : List (κ × β)) : List (κ × β) :=
  entries.map fun e => if e.1 = k then (e.1, v) else e

def moveToEnd (k : κ) (entries : List (κ × β)) : List (κ × β) :=
  remove k entries ++ entries.filter fun e => decide (e.1 = k)

/-- Pop the first entry while there are too many. -/
def evict (size : Nat) : List (κ × β) → List (κ × β)
  | [] => []
  | e :: entries => if size < entries.length + 1 then evict size entries else e :: entries

/-- Use a key: its entry becomes the last one. -/
def use (size : Nat) (k : κ) (v : β) (entries : List (κ × β)) : List (κ × β) :=
  evict size (remove k entries ++ [(k, v)])

variable {k k' : κ} {v v' : β} {size : Nat} {entries : List (κ × β)} {others : Finset κ}

omit [DecidableEq κ] in
theorem evict_eq_drop (size : Nat) (entries : List (κ × β)) :
    evict size entries = entries.drop (entries.length - size) := by
  induction entries with
  | nil => exact List.drop_nil.symm
  | cons e entries ih =>
    rw [evict, List.length_cons]
    split
    · rename_i over_full
      rw [ih, show entries.length + 1 - size = entries.length - size + 1 by omega,
        List.drop_succ_cons]
    · rename_i fits
      rw [show entries.length + 1 - size = 0 by omega, List.drop_zero]

omit [DecidableEq κ] in
theorem length_evict_le (size : Nat) (entries : List (κ × β)) :
    (evict size entries).length ≤ size := by
  rw [evict_eq_drop, List.length_drop]
  omega

omit [DecidableEq κ] in
theorem evict_of_length_le (h : entries.length ≤ size) : evict size entries = entries := by
  rw [evict_eq_drop, Nat.sub_eq_zero_of_le h, List.drop_zero]

omit [DecidableEq κ] in
/-- What is evicted stands before everything that still fits. -/
theorem evict_append {older newer : List (κ × β)} (h : newer.length ≤ size) :
    evict size (older ++ newer) =
      older.drop (older.length + newer.length - size) ++ newer := by
  rw [evict_eq_drop, List.length_append, List.drop_append_of_le_length (by omega)]

theorem find_eq_none : find k entries = none ↔ k ∉ keys entries := by
  simp only [find, keys, Option.map_eq_none_iff, List.find?_eq_none, List.mem_map, not_exists,
    decide_eq_true_eq, not_and]

theorem find_append_of_notMem {older newer : List (κ × β)} (h : k ∉ keys older) :
    find k (older ++ (k, v) :: newer) = some v := by
  have before : (older.find? fun e => decide (e.1 = k)) = none :=
    Option.map_eq_none_iff.mp (find_eq_none.mpr h)
  rw [find, List.find?_append, before, Option.none_or, List.find?_cons_of_pos (by simp)]
  rfl

theorem remove_of_notMem (h : k ∉ keys entries) : remove k entries = entries := by
  refine List.filter_eq_self.mpr fun e he => decide_eq_true ?_
  rintro rfl
  exact h (List.mem_map_of_mem he)

theorem assign_of_notMem (h : k ∉ keys entries) : assign k v entries = entries := by
  refine (List.map_congr_left fun e he => if_neg ?_).trans (List.map_id entries)
  rintro rfl
  exact h (List.mem_map_of_mem he)

theorem notMem_remove (k : κ) (entries : List (κ × β)) : k ∉ keys (remove k entries) := by
  intro h
  obtain ⟨e, he, rfl⟩ := List.mem_map.mp h
  exact of_decide_eq_true (List.mem_filter.mp he).2 rfl

theorem nodup_remove_append (h : (keys entries).Nodup) :
    (keys (remove k entries ++ [(k, v)])).Nodup := by
  rw [keys, List.map_append, List.nodup_append]
  refine ⟨h.sublist (List.filter_sublist.map _), List.nodup_singleton _, ?_⟩
  rintro a ha b hb rfl
  rw [List.mem_singleton.mp hb] at ha
  exact notMem_remove k entries ha

theorem nodup_use (h : (keys entries).Nodup) : (keys (use size k v entries)).Nodup := by
  rw [use, evict_eq_drop]
  exact (nodup_remove_append h).sublist ((List.drop_sublist _ _).map _)

/-- A new key is put last and the first entries go; its value may change afterwards. -/
theorem use_new (h : k ∉ keys entries) :
    use size k v' entries = assign k v' (evict size (entries ++ [(k, v)])) := by
  rw [use, remove_of_notMem h, evict_eq_drop, evict_eq_drop, assign, List.map_drop,
    List.map_append, ← assign, assign_of_notMem h]
  simp

theorem filter_eq_singleton (h : (keys entries).Nodup) (found : find k entries = some v) :
    (entries.filter fun e => decide (e.1 = k)) = [(k, v)] := by
  induction entries with
  | nil => simp [find] at found
  | cons e entries ih =>
    obtain ⟨fresh, rest⟩ := List.nodup_cons.mp h
    by_cases same : e.1 = k
    · obtain rfl : e.2 = v := by simpa [find, same] using found
      have none_left : (entries.filter fun e => decide (e.1 = k)) = [] := by
        refine List.filter_eq_nil_iff.mpr fun d hd => ?_
        simp only [decide_eq_true_eq]
        rintro rfl
        exact fresh (same ▸ List.mem_map_of_mem hd)
      rw [List.filter_cons_of_pos (by simpa using same), none_left, ← same]
    · rw [List.filter_cons_of_neg (by simpa using same)]
      exact ih rest (by simpa [find, same] using found)

/-- A key that is there is moved to the end; nothing has to go for it. -/
theorem use_known (h : (keys entries).Nodup) (found : find k entries = some v)
    (fits : entries.length ≤ size) :
    use size k v' entries = assign k v' (moveToEnd k entries) := by
  have one := filter_eq_singleton h found
  have count : (remove k entries).length + 1 = entries.length := by
    have := List.length_eq_length_filter_add (fun e : κ × β => decide (e.1 = k)) (l := entries)
    simp only [one, List.length_singleton] at this
    simp only [remove, ne_eq, decide_not]
    omega
  rw [use, evict_of_length_le (by simp; omega), moveToEnd, one, assign, List.map_append, ← assign,
    assign_of_notMem (notMem_remove k entries)]
  simp

theorem mem_use {e : κ × β} (h : e ∈ use size k v entries) :
    e = (k, v) ∨ (e ∈ entries ∧ e.1 ≠ k) := by
  rw [use, evict_eq_drop] at h
  rcases List.mem_append.mp (List.mem_of_mem_drop h) with h | h
  · exact Or.inr ⟨(List.mem_filter.mp h).1, of_decide_eq_true (List.mem_filter.mp h).2⟩
  · exact Or.inl (List.mem_singleton.mp h)

theorem find_eq_some (h : (keys entries).Nodup) : find k entries = some v ↔ (k, v) ∈ entries := by
  constructor
  · intro found
    have one : (k, v) ∈ entries.filter fun e => decide (e.1 = k) := by
      rw [filter_eq_singleton h found]
      exact List.mem_singleton_self _
    exact (List.mem_filter.mp one).1
  · intro mem
    rcases found : find k entries with _ | w
    · exact absurd (List.mem_map_of_mem mem) (find_eq_none.mp found)
    · have one : (k, v) ∈ [(k, w)] := by
        rw [← filter_eq_singleton h found]
        exact List.mem_filter.mpr ⟨mem, decide_eq_true rfl⟩
      rw [(Prod.mk.inj (List.mem_singleton.mp one)).2]

theorem find_use_self (h : (keys entries).Nodup) :
    find k (use size k v entries) = none ∨ find k (use size k v entries) = some v := by
  rcases found : find k (use size k v entries) with _ | w
  · exact Or.inl rfl
  · rcases mem_use ((find_eq_some (nodup_use h)).mp found) with same | ⟨-, ne⟩
    · exact Or.inr (congrArg some (Prod.mk.inj same).2)
    · exact absurd rfl ne

/-- The use of another key leaves an entry as it is, if it leaves it. -/
theorem find_use_other (h : (keys entries).Nodup) (ne : k' ≠ k) :
    find k (use size k' v' entries) = none ∨
      find k (use size k' v' entries) = find k entries := by
  rcases found : find k (use size k' v' entries) with _ | v
  · exact Or.inl rfl
  · rcases mem_use ((find_eq_some (nodup_use h)).mp found) with same | ⟨mem, -⟩
    · exact absurd (Prod.mk.inj same).1.symm ne
    · exact Or.inr ((find_eq_some h).mpr mem).symm

/-- The entry of a key, with only keys of `others` used after it. -/
def Since (k : κ) (v : β) (others : Finset κ) (entries : List (κ × β)) : Prop :=
  ∃ older newer, entries = older ++ (k, v) :: newer ∧ k ∉ keys older ∧ ∀ e ∈ newer, e.1 ∈ others

namespace Since

theorem find (h : Since k v others entries) : find k entries = some v := by
  obtain ⟨older, newer, rfl, before, -⟩ := h
  exact find_append_of_notMem before

theorem of_use (room : 0 < size) : Since k v ∅ (use size k v entries) := by
  refine ⟨(remove k entries).drop ((remove k entries).length + 1 - size), [], ?_, ?_, ?_⟩
  · exact evict_append room
  · intro h
    exact notMem_remove k entries (((List.drop_sublist _ _).map _).subset h)
  · intro e he
    cases he

/-- The use of another key leaves the entry as long as the keys since then all fit. -/
theorem use_other (h : Since k v others entries) (nodup : (keys entries).Nodup) (ne : k' ≠ k)
    (room : (insert k' others).card < size) :
    Since k v (insert k' others) (use size k' v' entries) := by
  obtain ⟨older, newer, rfl, before, since⟩ := h
  have keep : remove k' (older ++ (k, v) :: newer) =
      remove k' older ++ (k, v) :: remove k' newer := by
    simp only [remove, List.filter_append, List.filter_cons, decide_eq_true ne.symm, if_true]
  set after := remove k' newer ++ [(k', v')] with hafter
  have used : ∀ e ∈ after, e.1 ∈ insert k' others := by
    intro e he
    rcases List.mem_append.mp he with he | he
    · exact Finset.mem_insert_of_mem (since e (List.mem_filter.mp he).1)
    · rw [List.mem_singleton.mp he]
      exact Finset.mem_insert_self _ _
  have distinct : (keys after).Nodup := by
    refine nodup_remove_append (nodup.sublist (List.Sublist.map _ ?_))
    exact (List.sublist_cons_self _ _).trans (List.sublist_append_right _ _)
  have few : after.length < size := by
    have : after.length ≤ (insert k' others).card := by
      rw [← List.length_map Prod.fst]
      refine (List.toFinset_card_of_nodup distinct).symm.le.trans (Finset.card_le_card ?_)
      intro x hx
      obtain ⟨e, he, rfl⟩ := List.mem_map.mp (List.mem_toFinset.mp hx)
      exact used e he
    omega
  refine ⟨(remove k' older).drop
    ((remove k' older).length + ((k, v) :: after).length - size), after, ?_, ?_, used⟩
  · rw [use, keep, List.append_assoc, List.cons_append]
    exact evict_append few
  · intro h
    exact before (((List.drop_sublist _ _).trans List.filter_sublist).map _ |>.subset h)

end Since

end Recency
