import Mathlib.Data.List.Infix

/-!
# Blocks of a delimited stream

A stream is split at each occurrence of a delimiter, from the left. What stands
after the last one is the unfinished block, and a reader that keeps it and puts
it before the next chunk splits the whole stream the same way.
-/

set_option autoImplicit false

namespace Blocks

universe u
variable {α : Type u} [DecidableEq α]

/-- Where a pattern first stands. -/
def indexOf (pattern : List α) : List α → Option Nat
  | [] => if pattern = [] then some 0 else none
  | c :: s => if pattern <+: c :: s then some 0 else (indexOf pattern s).map (· + 1)

section IndexOf
variable {d s t : List α} {i : Nat}

theorem indexOf_of_prefix (h : d <+: s) : indexOf d s = some 0 := by
  cases s with
  | nil => exact if_pos (List.prefix_nil.mp h)
  | cons c s => exact if_pos h

theorem indexOf_cons (c : α) (h : ¬ d <+: c :: s) :
    indexOf d (c :: s) = (indexOf d s).map (· + 1) :=
  if_neg h

/-- The list before the pattern, the pattern and the list after it. -/
theorem indexOf_spec (h : indexOf d s = some i) : s = s.take i ++ d ++ s.drop (i + d.length) := by
  induction s generalizing i with
  | nil =>
    simp only [indexOf] at h
    split at h
    · rename_i hd
      simp [hd]
    · cases h
  | cons c s ih =>
    simp only [indexOf] at h
    split at h
    · rename_i hp
      cases h
      obtain ⟨t, ht⟩ := hp
      rw [← ht]
      simp
    · obtain ⟨j, hj, rfl⟩ := Option.map_eq_some_iff.mp h
      rw [Nat.add_right_comm, List.take_succ_cons, List.drop_succ_cons, List.cons_append,
        List.cons_append, ← ih hj]

theorem indexOf_le (h : indexOf d s = some i) : i + d.length ≤ s.length := by
  induction s generalizing i with
  | nil =>
    simp only [indexOf] at h
    split at h
    · rename_i hd
      cases h
      simp [hd]
    · cases h
  | cons c s ih =>
    simp only [indexOf] at h
    split at h
    · rename_i hp
      cases h
      simpa using hp.length_le
    · obtain ⟨j, hj, rfl⟩ := Option.map_eq_some_iff.mp h
      have := ih hj
      rw [List.length_cons]
      omega

theorem indexOf_append (h : indexOf d s = some i) (t : List α) :
    indexOf d (s ++ t) = some i := by
  induction s generalizing i with
  | nil =>
    simp only [indexOf] at h
    split at h
    · rename_i hd
      cases h
      exact indexOf_of_prefix (hd ▸ List.nil_prefix)
    · cases h
  | cons c s ih =>
    simp only [indexOf] at h
    split at h
    · rename_i hp
      cases h
      exact indexOf_of_prefix (hp.trans (List.prefix_append _ _))
    · rename_i hp
      obtain ⟨j, hj, rfl⟩ := Option.map_eq_some_iff.mp h
      -- the pattern fits into the shorter list, so it starts no earlier in the longer one
      have hlen := indexOf_le hj
      have hp' : ¬ d <+: c :: (s ++ t) := fun h =>
        hp (List.prefix_of_prefix_length_le h (List.prefix_append (c :: s) t)
          (by rw [List.length_cons]; omega))
      rw [List.cons_append, indexOf_cons c hp', ih hj]
      rfl

/-- An occurrence in a longer list is one in the shorter if it ends there. -/
theorem indexOf_of_append (h : indexOf d (s ++ t) = some i) (hi : i + d.length ≤ s.length) :
    indexOf d s = some i := by
  induction s generalizing i with
  | nil =>
    simp only [List.length_nil, Nat.le_zero, Nat.add_eq_zero_iff, List.length_eq_zero_iff] at hi
    simp [indexOf, hi.1, hi.2]
  | cons c s ih =>
    rw [List.cons_append, indexOf] at h
    split at h
    · rename_i hp
      cases h
      refine indexOf_of_prefix (List.prefix_of_prefix_length_le hp
        (List.prefix_append (c :: s) t) ?_)
      omega
    · rename_i hp
      obtain ⟨j, hj, rfl⟩ := Option.map_eq_some_iff.mp h
      have hp' : ¬ d <+: c :: s := fun h => hp (h.trans (List.prefix_append (c :: s) t))
      rw [List.length_cons] at hi
      rw [indexOf_cons c hp', ih hj (by omega)]
      rfl

end IndexOf

/-- The finished blocks, and the unfinished one. -/
def blocks (d : List α) (hd : d ≠ []) (s : List α) : List (List α) × List α :=
  match _h : indexOf d s with
  | none => ([], s)
  | some i =>
    let r := blocks d hd (s.drop (i + d.length))
    (s.take i :: r.1, r.2)
termination_by s.length
decreasing_by
  have := indexOf_le _h
  have := List.length_pos_iff.mpr hd
  rw [List.length_drop]
  omega

/-- A block as it stands in a stream: the delimiter after it is the first one. -/
def IsBlock (d b : List α) : Prop := indexOf d (b ++ d) = some b.length

section Stream
variable {β : Type u} {d : List β} {bs : List (List β)} {s : List β}

/-- A stream of whole blocks. -/
def stream (d : List β) (bs : List (List β)) : List β := (bs.map (· ++ d)).flatten

@[simp] theorem stream_nil : stream d [] = [] := rfl

@[simp] theorem stream_cons (b : List β) (bs : List (List β)) :
    stream d (b :: bs) = b ++ d ++ stream d bs := rfl

/-- Where a beginning of a stream of blocks ends: after some blocks, inside another
with its delimiter, if it is not the whole stream. -/
theorem prefix_stream (h : s <+: stream d bs) :
    ∃ done rest, bs = done ++ rest ∧ ∃ p, s = stream d done ++ p ∧
      ((rest = [] ∧ p = []) ∨ ∃ b bs', rest = b :: bs' ∧ p <+: b ++ d ∧
        p.length < b.length + d.length) := by
  induction bs generalizing s with
  | nil => exact ⟨[], [], rfl, [], List.prefix_nil.mp h, Or.inl ⟨rfl, rfl⟩⟩
  | cons b bs ih =>
    by_cases hlen : s.length < b.length + d.length
    · refine ⟨[], b :: bs, rfl, s, rfl, Or.inr ⟨b, bs, rfl, ?_, hlen⟩⟩
      refine List.prefix_of_prefix_length_le h (List.prefix_append _ _) ?_
      rw [List.length_append]
      omega
    · have hbd : b ++ d <+: s := by
        refine List.prefix_of_prefix_length_le (List.prefix_append _ _) h ?_
        rw [List.length_append]
        omega
      obtain ⟨s', rfl⟩ := hbd
      obtain ⟨done, rest, rfl, p, rfl, hp⟩ := ih ((List.prefix_append_right_inj _).mp h)
      exact ⟨b :: done, rest, rfl, p, by simp [List.append_assoc], hp⟩

end Stream

section Blocks
variable {d : List α} (hd : d ≠ []) {b s t : List α} {bs : List (List α)}

theorem blocks_of_none (h : indexOf d s = none) : blocks d hd s = ([], s) := by
  rw [blocks]
  split
  · rfl
  · rename_i h'
    rw [h] at h'
    cases h'

theorem blocks_of_some {i : Nat} (h : indexOf d s = some i) :
    blocks d hd s = (s.take i :: (blocks d hd (s.drop (i + d.length))).1,
      (blocks d hd (s.drop (i + d.length))).2) := by
  rw [blocks]
  split
  · rename_i h'
    rw [h] at h'
    cases h'
  · rename_i h'
    rw [h] at h'
    cases h'
    rfl

theorem IsBlock.indexOf (h : IsBlock d b) (s : List α) :
    indexOf d (b ++ d ++ s) = some b.length :=
  indexOf_append h s

theorem IsBlock.blocks (h : IsBlock d b) (s : List α) :
    blocks d hd (b ++ d ++ s) = (b :: (blocks d hd s).1, (blocks d hd s).2) := by
  rw [blocks_of_some hd (h.indexOf s)]
  simp [List.append_assoc]

/-- A stream starts with one block at most. -/
theorem IsBlock.unique (h : IsBlock d b) {c : List α} (hc : IsBlock d c)
    (heq : b ++ d ++ s = c ++ d ++ t) : b = c ∧ s = t := by
  have hlen : some b.length = some c.length := by
    rw [← h.indexOf s, heq, hc.indexOf t]
  rw [List.append_assoc, List.append_assoc] at heq
  obtain ⟨hbc, hrest⟩ := List.append_inj heq (Option.some.inj hlen)
  exact ⟨hbc, List.append_cancel_left hrest⟩

/-- A part of a stream that holds no delimiter ends before that of the first block. -/
theorem IsBlock.lt_of_none (h : IsBlock d b) (hs : Blocks.indexOf d s = none)
    {u : List α} (heq : s ++ t = b ++ d ++ u) : s.length < b.length + d.length := by
  by_contra hlen
  have hprefix : b ++ d <+: s := by
    refine List.prefix_of_prefix_length_le (heq ▸ List.prefix_append _ _) (List.prefix_append s t) ?_
    rw [List.length_append]
    omega
  obtain ⟨v, rfl⟩ := hprefix
  rw [h.indexOf v] at hs
  cases hs

theorem indexOf_rest (s : List α) : indexOf d (blocks d hd s).2 = none := by
  fun_induction blocks d hd s with
  | case1 s h => exact h
  | case2 s i h r ih => exact ih

theorem isBlock_take {i : Nat} (h : Blocks.indexOf d s = some i) : IsBlock d (s.take i) := by
  have hle := indexOf_le h
  have hlen : (s.take i).length = i := by
    rw [List.length_take]
    omega
  have hs := indexOf_spec h
  rw [hs] at h
  rw [IsBlock, hlen]
  exact indexOf_of_append h (by rw [List.length_append, hlen])

/-- Joining what a stream is split into. -/
theorem blocks_spec (s : List α) :
    s = stream d (blocks d hd s).1 ++ (blocks d hd s).2 ∧
      ∀ b ∈ (blocks d hd s).1, IsBlock d b := by
  fun_induction blocks d hd s with
  | case1 s h => exact ⟨rfl, List.forall_mem_nil _⟩
  | case2 s i h r ih =>
    refine ⟨?_, List.forall_mem_cons.mpr ⟨isBlock_take h, ih.2⟩⟩
    calc s = s.take i ++ d ++ s.drop (i + d.length) := indexOf_spec h
      _ = s.take i ++ d ++ (stream d r.1 ++ r.2) := by rw [← ih.1]
      _ = stream d (s.take i :: r.1) ++ r.2 := by simp [List.append_assoc]

/-- Splitting a stream in two steps: the unfinished block goes before the rest. -/
theorem blocks_append (s t : List α) :
    blocks d hd (s ++ t) =
      ((blocks d hd s).1 ++ (blocks d hd ((blocks d hd s).2 ++ t)).1,
        (blocks d hd ((blocks d hd s).2 ++ t)).2) := by
  fun_induction blocks d hd s with
  | case1 s h => rfl
  | case2 s i h r ih =>
    have hle := indexOf_le h
    rw [blocks_of_some hd (indexOf_append h t), List.take_append_of_le_length (by omega),
      List.drop_append_of_le_length (by omega), ih]
    rfl

/-- A proper beginning of a block and its delimiter is unfinished. -/
theorem IsBlock.unfinished (h : IsBlock d b) (hs : s <+: b ++ d)
    (hlen : s.length < b.length + d.length) : Blocks.indexOf d s = none := by
  obtain ⟨t, ht⟩ := hs
  cases hi : Blocks.indexOf d s with
  | none => rfl
  | some i =>
    have hle := indexOf_le hi
    have := indexOf_append hi t
    rw [ht, h] at this
    cases this
    omega

theorem blocks_stream (h : ∀ b ∈ bs, IsBlock d b) (s : List α) :
    blocks d hd (stream d bs ++ s) = (bs ++ (blocks d hd s).1, (blocks d hd s).2) := by
  induction bs with
  | nil => rfl
  | cons b bs ih =>
    have hb := h b List.mem_cons_self
    rw [stream_cons, List.append_assoc, hb.blocks, ih fun c hc => h c (List.mem_cons_of_mem _ hc)]
    rfl

end Blocks

end Blocks
