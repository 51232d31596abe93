import Mathlib.Data.List.Basic

/-!
# Interleaved processes over a shared store

A process answers an input with an effect on the store and its next local
state; the store is changed by nothing but effects. A run is any order of
process steps, spawns of fresh processes and effects from outside, subject to a
condition on each step. The rule at the end reduces an invariant of all runs to
obligations about one process and its interference with one other.
-/

set_option autoImplicit false

namespace Interleaving

universe u v

section Runs
variable {γ : Type u} {α : Type v}

/-- The configurations reachable from `start` by steps that all meet `ok`. -/
inductive Run (next : γ → α → Option γ) (ok : γ → α → Prop) (start : γ) : γ → Prop where
  | refl : Run next ok start start
  | step {c c' : γ} {a : α} : Run next ok start c → ok c a → next c a = some c' →
      Run next ok start c'

namespace Run
variable {next : γ → α → Option γ} {ok ok' : γ → α → Prop} {start c : γ}

theorem invariant {Inv : γ → Prop} (h : Run next ok start c) (init : Inv start)
    (keep : ∀ {c c' a}, Inv c → ok c a → next c a = some c' → Inv c') : Inv c := by
  induction h with
  | refl => exact init
  | step _ hok hs ih => exact keep ih hok hs

theorem mono (h : Run next ok start c) (weaken : ∀ c a, ok c a → ok' c a) :
    Run next ok' start c := by
  induction h with
  | refl => exact .refl
  | step _ hok hs ih => exact .step ih (weaken _ _ hok) hs

theorem trans {mid : γ} (h : Run next ok start mid) (h' : Run next ok mid c) :
    Run next ok start c := by
  induction h' with
  | refl => exact h
  | step _ hok hs ih => exact .step ih hok hs

/-- A run, seen through a map that takes every step to a step. -/
theorem map {δ : Type u} {next' : δ → α → Option δ} {okd : δ → α → Prop} {begin last : δ}
    (f : δ → γ) (h : Run next' okd begin last)
    (step : ∀ {d d' a}, okd d a → next' d a = some d' →
      ok (f d) a ∧ next (f d) a = some (f d')) : Run next ok (f begin) (f last) := by
  induction h with
  | refl => exact .refl
  | step _ hok hs ih => exact .step ih (step hok hs).1 (step hok hs).2

/-- What holds along a run may be assumed of every configuration a step leaves. -/
theorem strengthen {Known : γ → Prop} (h : Run next ok start c)
    (known : ∀ {c}, Run next ok start c → Known c) :
    Run next (fun c a => ok c a ∧ Known c) start c := by
  induction h with
  | refl => exact .refl
  | step hr hok hs ih => exact .step ih ⟨hok, known hr⟩ hs

end Run

/-- Execute a list of actions, checking `ok` before each. -/
def execute (next : γ → α → Option γ) (ok : γ → α → Bool) : γ → List α → Option γ
  | c, [] => some c
  | c, a :: as => if ok c a then (next c a).bind fun c' => execute next ok c' as else none

theorem Run.of_execute {next : γ → α → Option γ} {ok : γ → α → Prop} {check : γ → α → Bool}
    (sound : ∀ c a, check c a = true → ok c a) {start c c' : γ} {as : List α}
    (h : Run next ok start c) (he : execute next check c as = some c') :
    Run next ok start c' := by
  induction as generalizing c with
  | nil =>
    simp only [execute, Option.some.injEq] at he
    exact he ▸ h
  | cons a as ih =>
    simp only [execute] at he
    split at he
    · rename_i hc
      obtain ⟨d, hd, hrest⟩ := Option.bind_eq_some_iff.mp he
      exact ih (.step h (sound c a hc) hd) hrest
    · cases he

/-- A checked execution that ends where `p` holds is a run that ends there. -/
theorem exists_run_of_execute (next : γ → α → Option γ) (check : γ → α → Bool) (start : γ)
    (as : List α) (p : γ → Bool) {ok : γ → α → Prop}
    (sound : ∀ c a, check c a = true → ok c a)
    (h : (execute next check start as).any p = true) : ∃ c, Run next ok start c ∧ p c = true := by
  obtain ⟨c, hc, hp⟩ := (Option.any_eq_true p _).mp h
  exact ⟨c, Run.of_execute sound .refl hc, hp⟩

end Runs

/-- A step of one of several programs, seen as a step of their sum. -/
theorem step_of_sum {ε ι κ : Type} {x : Option (ε × ι)} {inj : ι → κ} {e : ε} {q : κ}
    (h : (x.map fun r => (r.1, inj r.2)) = some (e, q)) : ∃ p, x = some (e, p) ∧ q = inj p := by
  obtain ⟨⟨e', p⟩, hx, hr⟩ := Option.map_eq_some_iff.mp h
  obtain ⟨rfl, rfl⟩ := Prod.mk.inj hr
  exact ⟨p, hx, rfl⟩

/-- A program for processes over a store `σ`: local states `ι`, inputs `α`, effects `ε`. -/
structure System (σ ι α ε : Type) where
  step : σ → ι → α → Option (ε × ι)
  apply : σ → ε → σ
  fresh : ι → Bool
  outside : ε → Bool

structure Config (σ ι : Type) where
  store : σ
  procs : List ι

inductive Action (ι α ε : Type) where
  | spawn (p : ι)
  | proc (k : Nat) (a : α)
  | outside (e : ε)

variable {σ ι α ε : Type}

namespace System

def exec (S : System σ ι α ε) (c : Config σ ι) : Action ι α ε → Option (Config σ ι)
  | .spawn p => if S.fresh p then some ⟨c.store, c.procs ++ [p]⟩ else none
  | .proc k a => do
    let p ← c.procs[k]?
    let r ← S.step c.store p a
    return ⟨S.apply c.store r.1, c.procs.set k r.2⟩
  | .outside e => if S.outside e then some ⟨S.apply c.store e, c.procs⟩ else none

/-- What an action does to the store. -/
def effect (S : System σ ι α ε) (c : Config σ ι) : Action ι α ε → Option ε
  | .spawn _ => none
  | .proc k a => (c.procs[k]?).bind fun p => (S.step c.store p a).map Prod.fst
  | .outside e => some e

theorem effect_proc {S : System σ ι α ε} {c : Config σ ι} {k : Nat} {i : α} {p p' : ι} {e : ε}
    (hp : c.procs[k]? = some p) (hs : S.step c.store p i = some (e, p')) :
    S.effect c (.proc k i) = some e := by
  simp [effect, hp, hs]

abbrev Runs (S : System σ ι α ε) (ok : Config σ ι → Action ι α ε → Prop) :=
  Run S.exec ok

/-- What one action can do to a configuration. -/
theorem exec_cases {S : System σ ι α ε} {c c' : Config σ ι} {a : Action ι α ε}
    (h : S.exec c a = some c') :
    (∃ p, a = .spawn p ∧ S.fresh p ∧ c' = ⟨c.store, c.procs ++ [p]⟩) ∨
    (∃ k i p e p', a = .proc k i ∧ c.procs[k]? = some p ∧ S.step c.store p i = some (e, p') ∧
      c' = ⟨S.apply c.store e, c.procs.set k p'⟩) ∨
    (∃ e, a = .outside e ∧ S.outside e ∧ c' = ⟨S.apply c.store e, c.procs⟩) := by
  cases a with
  | spawn p =>
    simp only [exec] at h
    split at h
    · rename_i hf
      cases h
      exact Or.inl ⟨p, rfl, hf, rfl⟩
    · cases h
  | proc k i =>
    simp only [exec, Option.bind_eq_bind, Option.bind_eq_some_iff] at h
    obtain ⟨p, hp, ⟨e, p'⟩, hs, hc⟩ := h
    cases hc
    exact Or.inr (Or.inl ⟨k, i, p, e, p', rfl, hp, hs, rfl⟩)
  | outside e =>
    simp only [exec] at h
    split at h
    · rename_i ho
      cases h
      exact Or.inr (Or.inr ⟨e, rfl, ho, rfl⟩)
    · cases h

theorem exec_of_step {S : System σ ι α ε} {c : Config σ ι} {k : Nat} {i : α} {p p' : ι} {e : ε}
    (hp : c.procs[k]? = some p) (hs : S.step c.store p i = some (e, p')) :
    S.exec c (.proc k i) = some ⟨S.apply c.store e, c.procs.set k p'⟩ := by
  simp [exec, hp, hs]

theorem exec_proc {S : System σ ι α ε} {c c' : Config σ ι} {k : Nat} {i : α} {p : ι}
    (hp : c.procs[k]? = some p) (h : S.exec c (.proc k i) = some c') :
    ∃ e p', S.step c.store p i = some (e, p') ∧ c' = ⟨S.apply c.store e, c.procs.set k p'⟩ := by
  rcases exec_cases h with ⟨_, ha, _⟩ | ⟨l, j, q, e, q', ha, hq, hs, rfl⟩ | ⟨_, ha, _⟩
  · cases ha
  · cases ha
    rw [hp] at hq
    cases hq
    exact ⟨e, q', hs, rfl⟩
  · cases ha

end System

/-- A global invariant in three parts: `I` on the store, `L` on each process
against the store, `C` between any two processes. -/
structure Holds (I : σ → Prop) (L : σ → ι → Prop) (C : ι → ι → Prop) (c : Config σ ι) : Prop where
  store : I c.store
  proc : ∀ p ∈ c.procs, L c.store p
  pair : ∀ {j k : Nat} {p q : ι}, j ≠ k → c.procs[j]? = some p → c.procs[k]? = some q → C p q

/-- The obligations for an invariant in three parts: the step of a process keeps
its own part (`own`) and does not disturb any other process (`other`). -/
structure Inductive (S : System σ ι α ε) (ok : Config σ ι → Action ι α ε → Prop)
    (I : σ → Prop) (L : σ → ι → Prop) (C : ι → ι → Prop) : Prop where
  spawn : ∀ {c p}, Holds I L C c → ok c (.spawn p) → S.fresh p → L c.store p
  spawn_pair : ∀ {c p q}, Holds I L C c → ok c (.spawn p) → S.fresh p → q ∈ c.procs →
    C p q ∧ C q p
  outside : ∀ {c e}, Holds I L C c → ok c (.outside e) → S.outside e →
    I (S.apply c.store e) ∧ ∀ p ∈ c.procs, L (S.apply c.store e) p
  own : ∀ {c k i p e p'}, Holds I L C c → ok c (.proc k i) → c.procs[k]? = some p →
    S.step c.store p i = some (e, p') → I (S.apply c.store e) ∧ L (S.apply c.store e) p'
  other : ∀ {c k i p e p' j q}, Holds I L C c → ok c (.proc k i) → c.procs[k]? = some p →
    S.step c.store p i = some (e, p') → j ≠ k → c.procs[j]? = some q →
    L (S.apply c.store e) q ∧ C p' q ∧ C q p'

namespace Inductive
variable {S : System σ ι α ε} {ok : Config σ ι → Action ι α ε → Prop}
variable {I : σ → Prop} {L : σ → ι → Prop} {C : ι → ι → Prop}

theorem spawn_holds (h : Inductive S ok I L C) {c : Config σ ι} {p : ι}
    (hc : Holds I L C c) (hok : ok c (.spawn p)) (hf : S.fresh p) :
    Holds I L C ⟨c.store, c.procs ++ [p]⟩ := by
  refine ⟨hc.store, ?_, ?_⟩
  · intro q hq
    rcases List.mem_append.mp hq with hq | hq
    · exact hc.proc q hq
    · rw [List.mem_singleton.mp hq]
      change L c.store p
      exact h.spawn hc hok hf
  · intro j k q r hjk hj hk
    rw [List.getElem?_append] at hj hk
    split at hj <;> split at hk
    · exact hc.pair hjk hj hk
    · obtain rfl : p = r := List.mem_singleton.mp (List.mem_of_getElem? hk) |>.symm
      exact (h.spawn_pair hc hok hf (List.mem_of_getElem? hj)).2
    · obtain rfl : p = q := List.mem_singleton.mp (List.mem_of_getElem? hj) |>.symm
      exact (h.spawn_pair hc hok hf (List.mem_of_getElem? hk)).1
    · -- both are the new process, so the indices agree
      have hj' := (List.getElem?_eq_some_iff.mp hj).1
      have hk' := (List.getElem?_eq_some_iff.mp hk).1
      simp only [List.length_singleton] at hj' hk'
      omega

theorem step_holds (h : Inductive S ok I L C) {c : Config σ ι} {k : Nat} {i : α} {p p' : ι} {e : ε}
    (hc : Holds I L C c) (hok : ok c (.proc k i)) (hp : c.procs[k]? = some p)
    (hs : S.step c.store p i = some (e, p')) :
    Holds I L C ⟨S.apply c.store e, c.procs.set k p'⟩ := by
  have hown := h.own hc hok hp hs
  have hother {j : Nat} {q : ι} (hjk : j ≠ k) (hq : c.procs[j]? = some q) :=
    h.other hc hok hp hs hjk hq
  refine ⟨hown.1, ?_, ?_⟩
  · intro q hq
    obtain ⟨j, hj⟩ := List.mem_iff_getElem?.mp hq
    rw [List.getElem?_set] at hj
    split at hj
    · split at hj <;> cases hj
      exact hown.2
    · rename_i hjk
      exact (hother (Ne.symm hjk) hj).1
  · intro j l q r hjl hj hl
    rw [List.getElem?_set] at hj hl
    split at hj <;> split at hl
    · omega
    · rename_i hkj hkl
      split at hj <;> cases hj
      exact (hother (Ne.symm hkl) hl).2.1
    · rename_i hkj hkl
      split at hl <;> cases hl
      exact (hother (Ne.symm hkj) hj).2.2
    · exact hc.pair hjl hj hl

theorem exec_holds (h : Inductive S ok I L C) {c c' : Config σ ι} {a : Action ι α ε}
    (hc : Holds I L C c) (hok : ok c a) (he : S.exec c a = some c') : Holds I L C c' := by
  rcases System.exec_cases he with ⟨p, rfl, hf, rfl⟩ | ⟨k, i, p, e, p', rfl, hp, hs, rfl⟩ |
    ⟨e, rfl, ho, rfl⟩
  · exact h.spawn_holds hc hok hf
  · exact h.step_holds hc hok hp hs
  · obtain ⟨hI, hL⟩ := h.outside hc hok ho
    exact ⟨hI, hL, hc.pair⟩

/-- The rule: an invariant in three parts that meets its obligations holds along every run. -/
theorem holds_of_run (h : Inductive S ok I L C) {start c : Config σ ι}
    (init : Holds I L C start) (hr : S.Runs ok start c) : Holds I L C c :=
  hr.invariant init h.exec_holds

end Inductive

end Interleaving
