import Mathlib.Data.List.Nodup
import Mathlib.Data.List.Perm.Subperm

/-!
# Jobs in rounds

Jobs that begin one after the other, at most `c` of them busy at a time. Where
`c` are busy, one of them began `c` places before the next; where fewer are, one
of the last `c` is done. So the job in place `i` belongs to round `i / c`.
-/

set_option autoImplicit false

namespace Rounds

/-- The rounds of `n` jobs. -/
def rounds (n c : Nat) : Nat := (n + c - 1) / c

variable {α : Type} {busy : α → Bool} {begun : List α} {n c : Nat}

theorem rounds_zero (hc : 0 < c) : rounds 0 c = 0 := Nat.div_eq_of_lt (by omega)

theorem rounds_succ (n : Nat) (hc : 0 < c) : rounds (n + 1) c = n / c + 1 := by
  have h : n + 1 + c - 1 = n + c := by omega
  rw [rounds, h, Nat.add_div_right n hc]

theorem rounds_mono {m : Nat} (h : m ≤ n) : rounds m c ≤ rounds n c :=
  Nat.div_le_div_right (by omega)

theorem div_lt_rounds {i : Nat} (hc : 0 < c) (h : i < n) : i / c + 1 ≤ rounds n c := by
  obtain ⟨m, rfl⟩ : ∃ m, n = m + 1 := ⟨n - 1, by omega⟩
  rw [rounds_succ m hc]
  exact Nat.succ_le_succ (Nat.div_le_div_right (by omega))

theorem exists_early (hc : 0 < c) (h : c ≤ begun.countP busy) :
    ∃ i x, begun[i]? = some x ∧ busy x = true ∧ i + c ≤ begun.length := by
  have hlen := Nat.le_trans h List.countP_le_length
  have split : begun.countP busy = (begun.take (begun.length - c + 1)).countP busy +
      (begun.drop (begun.length - c + 1)).countP busy := by
    rw [← List.countP_append, List.take_append_drop]
  have last : (begun.drop (begun.length - c + 1)).countP busy ≤ c - 1 := by
    refine Nat.le_trans List.countP_le_length ?_
    rw [List.length_drop]
    omega
  have first : 0 < (begun.take (begun.length - c + 1)).countP busy := by omega
  obtain ⟨x, hx, hbusy⟩ := List.countP_pos_iff.mp first
  obtain ⟨i, hi⟩ := List.mem_iff_getElem?.mp hx
  rw [List.getElem?_take] at hi
  split at hi
  · exact ⟨i, x, hi, hbusy, by omega⟩
  · cases hi

theorem exists_late (h : begun.countP busy < c) (hlen : c ≤ begun.length) :
    ∃ i x, begun[i]? = some x ∧ busy x = false ∧ begun.length ≤ i + c := by
  have fewer : (begun.drop (begun.length - c)).countP busy < c :=
    Nat.lt_of_le_of_lt (List.drop_sublist _ _).countP_le h
  have length : (begun.drop (begun.length - c)).length = c := by
    rw [List.length_drop]
    omega
  have done : ¬ ∀ x ∈ begun.drop (begun.length - c), busy x = true := by
    intro all
    have := List.countP_eq_length.mpr all
    omega
  push Not at done
  obtain ⟨x, hx, idle⟩ := done
  obtain ⟨i, hi⟩ := List.mem_iff_getElem?.mp hx
  rw [List.getElem?_drop] at hi
  exact ⟨begun.length - c + i, x, hi, Bool.eq_false_iff.mpr idle, by omega⟩

theorem getElem?_concat_eq_some {l : List α} {a b : α} {i : Nat} :
    (l ++ [a])[i]? = some b ↔ l[i]? = some b ∨ i = l.length ∧ b = a := by
  rcases Nat.lt_trichotomy i l.length with h | rfl | h
  · rw [List.getElem?_append_left h]
    simp [Nat.ne_of_lt h]
  · rw [List.getElem?_concat_length]
    simp [eq_comm]
  · rw [List.getElem?_append_right (Nat.le_of_lt h), List.getElem?_eq_none (Nat.le_of_lt h)]
    simp [Nat.ne_of_gt h, Nat.sub_ne_zero_of_lt h]

theorem countP_eq_range (p : α → Bool) (l : List α) :
    l.countP p = (List.range l.length).countP fun k => l[k]?.any p := by
  induction l with
  | nil => rfl
  | cons a l ih =>
    rw [List.length_cons, List.range_succ_eq_map, List.countP_cons, List.countP_cons, ih,
      List.countP_map]
    rfl

theorem filterMap_range {β : Type} (f : α → β) (l : List α) :
    (List.range l.length).filterMap (fun k => l[k]?.map f) = l.map f := by
  induction l with
  | nil => rfl
  | cons a l ih =>
    rw [List.length_cons, List.range_succ_eq_map, List.filterMap_cons, List.filterMap_map,
      List.map_cons, ← ih]
    rfl

/-- The busy jobs, counted in the order in which they began. -/
theorem countP_begun {jobs : List α} {begun : List Nat} (nodup : begun.Nodup)
    (all : ∀ k x, jobs[k]? = some x → busy x = true → k ∈ begun) :
    begun.countP (fun k => jobs[k]?.any busy) = jobs.countP busy := by
  rw [countP_eq_range busy jobs, List.countP_eq_length_filter, List.countP_eq_length_filter]
  refine List.Perm.length_eq ?_
  rw [List.perm_ext_iff_of_nodup (nodup.filter _) (List.nodup_range.filter _)]
  intro k
  rw [List.mem_filter, List.mem_filter, List.mem_range]
  constructor
  · rintro ⟨_, hk⟩
    obtain ⟨x, hx, _⟩ := (Option.any_eq_true _ _).mp hk
    exact ⟨(List.getElem?_eq_some_iff.mp hx).1, hk⟩
  · rintro ⟨_, hk⟩
    obtain ⟨x, hx, hbusy⟩ := (Option.any_eq_true _ _).mp hk
    exact ⟨all k x hx hbusy, hk⟩

section Places
variable {begun : List Nat} (nodup : begun.Nodup) (bound : ∀ k ∈ begun, k < n)
include nodup bound

theorem subperm_range : begun.Subperm (List.range n) :=
  List.subperm_of_subset nodup fun j hj => List.mem_range.mpr (bound j hj)

theorem length_lt {k : Nat} (hk : k < n) (out : k ∉ begun) : begun.length < n := by
  have all := subperm_range (List.nodup_cons.mpr ⟨out, nodup⟩)
    (List.forall_mem_cons.mpr ⟨hk, bound⟩)
  have := all.length_le
  rwa [List.length_cons, List.length_range] at this

theorem perm_range (all : n ≤ begun.length) : begun.Perm (List.range n) :=
  (subperm_range nodup bound).perm_of_length_le (by rwa [List.length_range])

end Places

theorem exists_not_begun {begun : List Nat} (fewer : begun.length < n) : ∃ k < n, k ∉ begun := by
  by_contra all
  push Not at all
  have sub : (List.range n).Subperm begun :=
    List.subperm_of_subset List.nodup_range fun j hj => all j (List.mem_range.mp hj)
  have := sub.length_le
  rw [List.length_range] at this
  omega

end Rounds
