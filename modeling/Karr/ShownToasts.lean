import Karr.Frontend.Toast
import Karr.Lib.Interleaving
import Mathlib.Data.List.Nodup

/-!
# Shown toasts

Over every run of the provider: few toasts, none twice, each with one timer; a toast
stays until its timer is due unless the user dismisses it or five newer ones come.
Where the browser lets no timer wait, it is gone after that.
-/

set_option autoImplicit false

namespace Karr.Frontend.Toasts

open JavaScript Interleaving

/-! ## Lists of toasts -/

theorem kept_sublist (toasts : List Toast) : (Provider.kept toasts).Sublist toasts := by
  unfold Provider.kept
  split
  · exact List.drop_sublist _ _
  · exact List.Sublist.refl _

/-- What is not kept is evicted. -/
theorem evicted_append (toasts : List Toast) :
    Provider.evicted toasts ++ Provider.kept toasts = toasts := by
  unfold Provider.evicted Provider.kept
  split
  · rename_i full
    have few : toasts.length - (toasts.drop (toasts.length - maxToasts + 1)).length =
        toasts.length - maxToasts + 1 := by
      rw [List.length_drop]
      unfold maxToasts at full ⊢
      omega
    rw [few, List.take_append_drop]
  · rw [Nat.sub_self, List.take_zero, List.nil_append]

theorem kept_length (toasts : List Toast) : (Provider.kept toasts).length < maxToasts := by
  unfold Provider.kept
  split
  · rename_i full
    rw [List.length_drop]
    unfold maxToasts at full ⊢
    omega
  · omega

/-- Ids that grow take room. -/
theorem room {toasts : List Toast} {t : Toast} {next : Nat}
    (grow : (t :: toasts).Pairwise fun a b => a.id < b.id)
    (below : ∀ a ∈ t :: toasts, a.id < next) : t.id + (t :: toasts).length ≤ next := by
  induction toasts generalizing t with
  | nil => exact below t List.mem_cons_self
  | cons u toasts ih =>
    rw [List.pairwise_cons] at grow
    have here := grow.1 u List.mem_cons_self
    have later := ih grow.2 fun a ha => below a (List.mem_cons_of_mem t ha)
    simp only [List.length_cons] at later ⊢
    omega

/-- Of at most five toasts only the oldest is evicted, and only from five. -/
theorem evicted_old {toasts : List Toast} {next : Nat} (few : toasts.length ≤ maxToasts)
    (grow : toasts.Pairwise fun a b => a.id < b.id) (below : ∀ t ∈ toasts, t.id < next)
    {t : Toast} (ht : t ∈ Provider.evicted toasts) : t.id + maxToasts ≤ next := by
  cases toasts with
  | nil => cases ht
  | cons u toasts =>
    unfold Provider.evicted Provider.kept at ht
    split at ht
    · rename_i full
      have five : (u :: toasts).length = maxToasts := Nat.le_antisymm few full
      rw [five, Nat.sub_self, List.length_drop, five] at ht
      cases List.mem_singleton.mp ht
      exact five ▸ room grow below
    · rw [Nat.sub_self] at ht
      cases ht

/-! ## The invariant -/

/-- The ids of the toasts that have a timer. -/
def timed (p : Provider) : List Nat := p.timers.map Prod.fst

def look (t : Toast) : ToastKind × JsString := (t.kind, t.message)

structure Ok (p : Provider) : Prop where
  few : p.toasts.length ≤ maxToasts
  apart : (p.toasts.map look).Nodup
  grow : p.toasts.Pairwise fun a b => a.id < b.id
  below : ∀ t ∈ p.toasts, t.id < p.next
  shownFew : p.shown.length ≤ maxToasts
  shownApart : (p.shown.map look).Nodup
  shownBelow : ∀ t ∈ p.shown, t.id < p.next
  timer : p.mounted = true → ∀ t ∈ p.toasts, t.id ∈ timed p ∨ .drop t.id ∈ p.updates
  toast : ∀ id ∈ timed p, id ∈ p.toasts.map Toast.id
  once : (timed p).Nodup
  due : ∀ x ∈ p.timers, x.2 ≤ p.now + toastTtlMs
  drops : ∀ id, .drop id ∈ p.updates → id < p.next ∧ id ∉ timed p

theorem mem_timed {p : Provider} {id : Nat} : id ∈ timed p ↔ ∃ time, (id, time) ∈ p.timers := by
  unfold timed
  constructor
  · intro h
    obtain ⟨⟨i, time⟩, hx, rfl⟩ := List.mem_map.mp h
    exact ⟨time, hx⟩
  · rintro ⟨time, hx⟩
    exact List.mem_map.mpr ⟨_, hx, rfl⟩

theorem mem_timed_dismiss {p : Provider} {id i : Nat} :
    i ∈ timed (p.dismiss id) ↔ i ∈ timed p ∧ i ≠ id := by
  simp only [mem_timed, Provider.dismiss, List.mem_filter, decide_eq_true_eq, exists_and_right]

theorem mem_timed_added {p : Provider} {kind : ToastKind} {message : JsString} {i : Nat} :
    i ∈ timed (p.added kind message) ↔
      (i ∈ timed p ∨ i = p.next) ∧ i ∉ (Provider.evicted p.toasts).map Toast.id := by
  simp only [mem_timed, Provider.added, List.mem_filter, List.mem_append, List.mem_singleton,
    Prod.mk.injEq, decide_eq_true_eq, exists_and_right, exists_or, exists_and_left, exists_eq,
    and_true]

/-- The two ways of an addition. -/
theorem run_add (p : Provider) (kind : ToastKind) (message : JsString) :
    p.run (.add kind message) = p ∨
      p.run (.add kind message) = p.added kind message ∧
        ∀ t ∈ p.toasts, look t ≠ (kind, message) := by
  simp only [Provider.run]
  split
  · exact Or.inl rfl
  · rename_i none
    refine Or.inr ⟨rfl, fun t ht same => none ?_⟩
    obtain ⟨rfl, rfl⟩ := Prod.mk.inj same
    exact List.any_eq_true.mpr ⟨t, ht, decide_eq_true ⟨rfl, rfl⟩⟩

theorem timed_filter_nodup {timers : List (Nat × Nat)} (h : (timers.map Prod.fst).Nodup)
    (keep : Nat × Nat → Bool) : ((timers.filter keep).map Prod.fst).Nodup :=
  h.sublist (List.filter_sublist.map _)

namespace Ok
variable {p : Provider}

theorem init : Ok {} where
  few := Nat.zero_le _
  apart := List.nodup_nil
  grow := List.Pairwise.nil
  below _ h := nomatch h
  shownFew := Nat.zero_le _
  shownApart := List.nodup_nil
  shownBelow _ h := nomatch h
  timer _ _ h := nomatch h
  toast _ h := nomatch h
  once := List.nodup_nil
  due _ h := nomatch h
  drops _ h := nomatch h

/-- The id of a timer is that of a toast. -/
theorem known (h : Ok p) {id : Nat} (timer : id ∈ timed p) : id < p.next := by
  obtain ⟨t, ht, rfl⟩ := List.mem_map.mp (h.toast id timer)
  exact h.below t ht

theorem dismiss (h : Ok p) {id : Nat} (known : id < p.next) : Ok (p.dismiss id) where
  few := h.few
  apart := h.apart
  grow := h.grow
  below := h.below
  shownFew := h.shownFew
  shownApart := h.shownApart
  shownBelow := h.shownBelow
  timer on t ht := by
    by_cases same : t.id = id
    · exact Or.inr (List.mem_append_right _ (same ▸ List.mem_cons_self))
    · rcases h.timer on t ht with timer | drop
      · exact Or.inl (mem_timed_dismiss.mpr ⟨timer, same⟩)
      · exact Or.inr (List.mem_append_left _ drop)
  toast i hi := h.toast i (mem_timed_dismiss.mp hi).1
  once := timed_filter_nodup h.once _
  due x hx := h.due x (List.mem_of_mem_filter hx)
  drops i hi := by
    rcases List.mem_append.mp hi with old | new
    · obtain ⟨lt, out⟩ := h.drops i old
      exact ⟨lt, fun inside => out (mem_timed_dismiss.mp inside).1⟩
    · cases List.mem_singleton.mp new
      exact ⟨known, fun inside => (mem_timed_dismiss.mp inside).2 rfl⟩

theorem notify (h : Ok p) (kind : ToastKind) (message : JsString) : Ok (p.notify kind message) where
  few := h.few
  apart := h.apart
  grow := h.grow
  below := h.below
  shownFew := h.shownFew
  shownApart := h.shownApart
  shownBelow := h.shownBelow
  timer on t ht := (h.timer on t ht).imp_right (List.mem_append_left _)
  toast := h.toast
  once := h.once
  due := h.due
  drops i hi := by
    rcases List.mem_append.mp hi with old | new
    · exact h.drops i old
    · cases List.mem_singleton.mp new

/-- A drop runs after its timer is gone. -/
theorem drop (h : Ok p) {id : Nat} {us : List Update} (first : p.updates = .drop id :: us) :
    Ok ({ p with updates := us }.run (.drop id)) where
  few := Nat.le_trans (List.length_filter_le _ _) h.few
  apart := h.apart.sublist (List.filter_sublist.map _)
  grow := h.grow.sublist List.filter_sublist
  below t ht := h.below t (List.mem_of_mem_filter ht)
  shownFew := h.shownFew
  shownApart := h.shownApart
  shownBelow := h.shownBelow
  timer on t ht := by
    obtain ⟨old, other⟩ := List.mem_filter.mp ht
    refine (h.timer on t old).imp_right fun inside => ?_
    rw [first] at inside
    rcases List.mem_cons.mp inside with same | later
    · cases same
      exact absurd rfl (of_decide_eq_true other)
    · exact later
  toast i hi := by
    obtain ⟨t, ht, rfl⟩ := List.mem_map.mp (h.toast i hi)
    have out := (h.drops id (first ▸ List.mem_cons_self)).2
    have other : t.id ≠ id := fun same => out (same ▸ hi)
    exact List.mem_map.mpr ⟨t, List.mem_filter.mpr ⟨ht, decide_eq_true other⟩, rfl⟩
  once := h.once
  due := h.due
  drops i hi := h.drops i (first ▸ List.mem_cons_of_mem _ hi)

/-- A toast that is already there is not added. -/
theorem repeated (h : Ok p) {kind : ToastKind} {message : JsString} {us : List Update}
    (first : p.updates = .add kind message :: us) : Ok { p with updates := us } where
  few := h.few
  apart := h.apart
  grow := h.grow
  below := h.below
  shownFew := h.shownFew
  shownApart := h.shownApart
  shownBelow := h.shownBelow
  timer on t ht := by
    refine (h.timer on t ht).imp_right fun inside => ?_
    rw [first] at inside
    rcases List.mem_cons.mp inside with same | later
    · cases same
    · exact later
  toast := h.toast
  once := h.once
  due := h.due
  drops i hi := h.drops i (first ▸ List.mem_cons_of_mem _ hi)

/-- The new id is not that of an evicted toast. -/
theorem next_fresh (h : Ok p) : p.next ∉ (Provider.evicted p.toasts).map Toast.id := by
  intro inside
  obtain ⟨t, ht, same⟩ := List.mem_map.mp inside
  have old : t ∈ p.toasts := evicted_append p.toasts ▸ List.mem_append_left _ ht
  have lt := h.below t old
  omega

/-- An id is of a kept toast or of an evicted one. -/
theorem kept_not_evicted (h : Ok p) {t : Toast} (ht : t ∈ Provider.kept p.toasts) :
    t.id ∉ (Provider.evicted p.toasts).map Toast.id := by
  intro inside
  obtain ⟨u, hu, same⟩ := List.mem_map.mp inside
  have grow := h.grow
  rw [← evicted_append p.toasts, List.pairwise_append] at grow
  have lt := grow.2.2 u hu t ht
  omega

theorem fresh (h : Ok p) {kind : ToastKind} {message : JsString}
    (new : ∀ t ∈ p.toasts, look t ≠ (kind, message)) : Ok (p.added kind message) where
  few := by
    have room := kept_length p.toasts
    change (Provider.kept p.toasts ++ [_]).length ≤ maxToasts
    rw [List.length_append, List.length_singleton]
    omega
  apart := by
    change ((Provider.kept p.toasts ++ [_]).map look).Nodup
    rw [List.map_append, List.nodup_append]
    refine ⟨h.apart.sublist ((kept_sublist _).map look), List.pairwise_singleton _ _, ?_⟩
    intro a ha b hb
    obtain ⟨t, ht, rfl⟩ := List.mem_map.mp ha
    cases List.mem_singleton.mp hb
    exact new t ((kept_sublist _).subset ht)
  grow := by
    change (Provider.kept p.toasts ++ [_]).Pairwise _
    rw [List.pairwise_append]
    refine ⟨h.grow.sublist (kept_sublist _), List.pairwise_singleton _ _, ?_⟩
    intro t ht u hu
    cases List.mem_singleton.mp hu
    exact h.below t ((kept_sublist _).subset ht)
  below t ht := by
    rcases List.mem_append.mp ht with old | last
    · exact Nat.lt_succ_of_lt (h.below t ((kept_sublist _).subset old))
    · cases List.mem_singleton.mp last
      exact Nat.lt_succ_self _
  shownFew := h.shownFew
  shownApart := h.shownApart
  shownBelow t ht := Nat.lt_succ_of_lt (h.shownBelow t ht)
  timer on t ht := by
    rcases List.mem_append.mp ht with old | last
    · rcases h.timer on t ((kept_sublist _).subset old) with timer | drop
      · exact Or.inl (mem_timed_added.mpr ⟨Or.inl timer, kept_not_evicted h old⟩)
      · exact Or.inr drop
    · cases List.mem_singleton.mp last
      exact Or.inl (mem_timed_added.mpr ⟨Or.inr rfl, next_fresh h⟩)
  toast i hi := by
    obtain ⟨old | rfl, out⟩ := mem_timed_added.mp hi
    · obtain ⟨t, ht, rfl⟩ := List.mem_map.mp (h.toast i old)
      rw [← evicted_append p.toasts] at ht
      rcases List.mem_append.mp ht with evicted | kept
      · exact absurd (List.mem_map.mpr ⟨t, evicted, rfl⟩) out
      · exact List.mem_map.mpr ⟨t, List.mem_append_left _ kept, rfl⟩
    · exact List.mem_map.mpr ⟨_, List.mem_append_right _ List.mem_cons_self, rfl⟩
  once := by
    refine timed_filter_nodup ?_ _
    rw [List.map_append, List.nodup_append]
    refine ⟨h.once, List.pairwise_singleton _ _, ?_⟩
    intro i hi j hj
    cases List.mem_singleton.mp hj
    exact Nat.ne_of_lt (h.known hi)
  due x hx := by
    rcases List.mem_append.mp (List.mem_of_mem_filter hx) with old | last
    · exact h.due x old
    · cases List.mem_singleton.mp last
      exact Nat.le_refl _
  drops i hi := by
    obtain ⟨lt, out⟩ := h.drops i hi
    refine ⟨Nat.lt_succ_of_lt lt, fun inside => ?_⟩
    rcases (mem_timed_added.mp inside).1 with old | same
    · exact out old
    · exact Nat.ne_of_lt lt same

theorem update (h : Ok p) {u : Update} {us : List Update} (first : p.updates = u :: us) :
    Ok ({ p with updates := us }.run u) := by
  cases u with
  | drop id => exact h.drop first
  | add kind message =>
    have left := h.repeated first
    rcases run_add { p with updates := us } kind message with same | ⟨same, new⟩
    · rw [same]
      exact left
    · rw [same]
      exact left.fresh new

theorem draw (h : Ok p) : Ok { p with shown := p.toasts } :=
  { h with shownFew := h.few, shownApart := h.apart, shownBelow := h.below }

theorem tick (h : Ok p) {time : Nat} (later : p.now ≤ time) : Ok { p with now := time } :=
  { h with due := fun x hx => Nat.le_trans (h.due x hx) (Nat.add_le_add_right later _) }

theorem unmount (h : Ok p) : Ok { p with shown := [], timers := [], mounted := false } where
  few := h.few
  apart := h.apart
  grow := h.grow
  below := h.below
  shownFew := Nat.zero_le _
  shownApart := List.nodup_nil
  shownBelow _ ht := nomatch ht
  timer on := nomatch on
  toast _ hi := nomatch hi
  once := List.nodup_nil
  due _ hx := nomatch hx
  drops i hi := ⟨(h.drops i hi).1, fun inside => nomatch inside⟩

end Ok

/-! ## Steps and runs -/

/-- What a step can do. -/
theorem step_cases {p p' : Provider} {a : Action} (h : step p a = some p') :
    (∃ kind message, a = .notify kind message ∧ p' = p.notify kind message) ∨
    (∃ id, a = .click id ∧ (∃ t ∈ p.shown, t.id = id) ∧ p' = p.dismiss id) ∨
    (∃ id due, a = .fire id ∧ (id, due) ∈ p.timers ∧ due ≤ p.now ∧ p' = p.dismiss id) ∨
    (∃ u us, a = .update ∧ p.updates = u :: us ∧ p' = { p with updates := us }.run u) ∨
    (a = .draw ∧ p' = { p with shown := p.toasts }) ∨
    (∃ time, a = .tick time ∧ p.now ≤ time ∧ p' = { p with now := time }) ∨
    (a = .unmount ∧ p' = { p with shown := [], timers := [], mounted := false }) := by
  cases a with
  | notify kind message =>
    cases h
    exact Or.inl ⟨kind, message, rfl, rfl⟩
  | click id =>
    simp only [step] at h
    split at h
    · rename_i there
      cases h
      obtain ⟨t, ht, same⟩ := List.any_eq_true.mp there
      exact Or.inr (Or.inl ⟨id, rfl, ⟨t, ht, of_decide_eq_true same⟩, rfl⟩)
    · cases h
  | fire id =>
    simp only [step] at h
    split at h
    · rename_i there
      cases h
      obtain ⟨⟨i, due⟩, hx, is⟩ := List.any_eq_true.mp there
      obtain ⟨rfl, late⟩ := of_decide_eq_true is
      exact Or.inr (Or.inr (Or.inl ⟨i, due, rfl, hx, late, rfl⟩))
    · cases h
  | update =>
    simp only [step] at h
    split at h
    · rename_i u us first
      cases h
      exact Or.inr (Or.inr (Or.inr (Or.inl ⟨u, us, rfl, first, rfl⟩)))
    · cases h
  | draw =>
    simp only [step] at h
    split at h
    · cases h
      exact Or.inr (Or.inr (Or.inr (Or.inr (Or.inl ⟨rfl, rfl⟩))))
    · cases h
  | tick time =>
    simp only [step] at h
    split at h
    · rename_i can
      cases h
      exact Or.inr (Or.inr (Or.inr (Or.inr (Or.inr (Or.inl ⟨time, rfl, can, rfl⟩)))))
    · cases h
  | unmount =>
    cases h
    exact Or.inr (Or.inr (Or.inr (Or.inr (Or.inr (Or.inr ⟨rfl, rfl⟩)))))

theorem Ok.step {p p' : Provider} {a : Action} (h : Ok p) (hs : step p a = some p') : Ok p' := by
  rcases step_cases hs with ⟨kind, message, -, rfl⟩ | ⟨id, -, ⟨t, ht, rfl⟩, rfl⟩ |
    ⟨id, due, -, timer, -, rfl⟩ | ⟨u, us, -, first, rfl⟩ | ⟨-, rfl⟩ | ⟨time, -, later, rfl⟩ |
    ⟨-, rfl⟩
  · exact h.notify kind message
  · exact h.dismiss (h.shownBelow t ht)
  · exact h.dismiss (h.known (mem_timed.mpr ⟨due, timer⟩))
  · exact h.update first
  · exact h.draw
  · exact h.tick later
  · exact h.unmount

/-- The providers that can come to be. -/
def Reached (p : Provider) : Prop := Run Toasts.step (fun _ _ => True) {} p

theorem Reached.ok {p : Provider} (h : Reached p) : Ok p :=
  h.invariant Ok.init fun ok _ hs => ok.step hs

/-- What is shown is short and has nothing twice; no timer is due later than six seconds from
now; and when no update waits, each toast of a mounted provider has one timer. -/
theorem toasts_law {p : Provider} (h : Reached p) :
    (p.shown.length ≤ maxToasts ∧ (p.shown.map fun t => (t.kind, t.message)).Nodup) ∧
      (∀ x ∈ p.timers, x.2 ≤ p.now + toastTtlMs) ∧
      (p.mounted = true → p.updates = [] →
        (p.timers.map Prod.fst).Perm (p.toasts.map Toast.id)) := by
  have ok := h.ok
  refine ⟨⟨ok.shownFew, ok.shownApart⟩, ok.due, fun on quiet => ?_⟩
  have ids : (p.toasts.map Toast.id).Nodup :=
    (List.pairwise_map.mpr ok.grow).imp fun lt => Nat.ne_of_lt lt
  refine (List.perm_ext_iff_of_nodup ok.once ids).mpr fun i => ⟨ok.toast i, fun hi => ?_⟩
  obtain ⟨t, ht, rfl⟩ := List.mem_map.mp hi
  rcases ok.timer on t ht with timer | drop
  · exact timer
  · rw [quiet] at drop
    cases drop

/-- One toast, shown for a second. -/
def saved : Provider :=
  { now := 1000
    toasts := [⟨1, .success, js "Saved"⟩]
    shown := [⟨1, .success, js "Saved"⟩]
    next := 2
    timers := [(1, 6000)] }

theorem reached_saved : Reached saved := by
  have noticed := (Run.refl : Reached {}).step (a := .notify .success (js "Saved")) trivial rfl
  have updated := noticed.step (a := .update) trivial rfl
  have drawn := updated.step (a := .draw) trivial rfl
  exact drawn.step (a := .tick 1000) trivial rfl

theorem toasts_law_saved : saved.shown.length ≤ 5 ∧ ([1] : List Nat).Perm [1] :=
  have law := toasts_law reached_saved
  ⟨law.1.1, law.2.2 rfl rfl⟩

/-- A toast with its timer, as it stands before anything takes it away. -/
structure Standing (t : Toast) (due : Nat) (p : Provider) : Prop where
  there : t ∈ p.toasts
  timer : (t.id, due) ∈ p.timers
  undropped : .drop t.id ∉ p.updates

namespace Standing
variable {t : Toast} {due : Nat} {p : Provider}

theorem of_timer (ok : Ok p) (there : t ∈ p.toasts) (timer : (t.id, due) ∈ p.timers) :
    Standing t due p :=
  ⟨there, timer, fun drop => (ok.drops t.id drop).2 (mem_timed.mpr ⟨due, timer⟩)⟩

theorem dismiss (h : Standing t due p) {id : Nat} (other : id ≠ t.id) :
    Standing t due (p.dismiss id) where
  there := h.there
  timer := List.mem_filter.mpr ⟨h.timer, decide_eq_true (Ne.symm other)⟩
  undropped inside := by
    rcases List.mem_append.mp inside with old | last
    · exact h.undropped old
    · cases List.mem_singleton.mp last
      exact other rfl

theorem notify (h : Standing t due p) (kind : ToastKind) (message : JsString) :
    Standing t due (p.notify kind message) where
  there := h.there
  timer := h.timer
  undropped inside := by
    rcases List.mem_append.mp inside with old | last
    · exact h.undropped old
    · cases List.mem_singleton.mp last

theorem drop (h : Standing t due p) {id : Nat} {us : List Update}
    (first : p.updates = .drop id :: us) :
    Standing t due ({ p with updates := us }.run (.drop id)) where
  there := by
    refine List.mem_filter.mpr ⟨h.there, decide_eq_true fun same => h.undropped ?_⟩
    rw [first, same]
    exact List.mem_cons_self
  timer := h.timer
  undropped inside := h.undropped (first ▸ List.mem_cons_of_mem _ inside)

/-- Only a fifth newer toast takes it away. -/
theorem fresh (h : Standing t due p) (ok : Ok p) {kind : ToastKind} {message : JsString}
    (young : p.next < t.id + maxToasts) : Standing t due (p.added kind message) := by
  have stays : t ∉ Provider.evicted p.toasts := by
    intro evicted
    have old := evicted_old ok.few ok.grow ok.below evicted
    omega
  have kept : t ∈ Provider.kept p.toasts := by
    have there := h.there
    rw [← evicted_append p.toasts] at there
    exact (List.mem_append.mp there).resolve_left stays
  refine ⟨List.mem_append_left _ kept, ?_, h.undropped⟩
  refine List.mem_filter.mpr ⟨List.mem_append_left _ h.timer, decide_eq_true ?_⟩
  exact ok.kept_not_evicted kept

theorem update (h : Standing t due p) (ok : Ok p) {u : Update} {us : List Update}
    (first : p.updates = u :: us)
    (young : ({ p with updates := us }.run u).next ≤ t.id + maxToasts) :
    Standing t due ({ p with updates := us }.run u) := by
  cases u with
  | drop id => exact h.drop first
  | add kind message =>
    have left : Standing t due { p with updates := us } :=
      ⟨h.there, h.timer, fun inside => h.undropped (first ▸ List.mem_cons_of_mem _ inside)⟩
    rcases run_add { p with updates := us } kind message with same | ⟨same, -⟩
    · rw [same]
      exact left
    · rw [same] at young ⊢
      exact left.fresh (ok.repeated first) young

end Standing

/-- Time and the ids only grow. -/
theorem step_grows {p p' : Provider} {a : Action} (h : step p a = some p') :
    p.now ≤ p'.now ∧ p.next ≤ p'.next := by
  rcases step_cases h with ⟨kind, message, -, rfl⟩ | ⟨id, -, -, rfl⟩ | ⟨id, due, -, -, -, rfl⟩ |
    ⟨u, us, -, first, rfl⟩ | ⟨-, rfl⟩ | ⟨time, -, later, rfl⟩ | ⟨-, rfl⟩
  case inr.inr.inr.inl =>
    cases u with
    | drop id => exact ⟨Nat.le_refl _, Nat.le_refl _⟩
    | add kind message =>
      rcases run_add { p with updates := us } kind message with same | ⟨same, -⟩
      · rw [same]
        exact ⟨Nat.le_refl _, Nat.le_refl _⟩
      · rw [same]
        exact ⟨Nat.le_refl _, Nat.le_succ _⟩
  case inr.inr.inr.inr.inr.inl => exact ⟨later, Nat.le_refl _⟩
  all_goals exact ⟨Nat.le_refl _, Nat.le_refl _⟩

/-- What takes a toast away at once. -/
def spares (t : Toast) : Action → Prop
  | .click id => id ≠ t.id
  | .unmount => False
  | _ => True

/-- A toast stands until its timer is due or five newer ones have come. -/
theorem Standing.step {t : Toast} {due : Nat} {p p' : Provider} {a : Action}
    (h : Standing t due p) (ok : Ok p) (spare : spares t a) (hs : Toasts.step p a = some p')
    (early : p'.now < due) (young : p'.next ≤ t.id + maxToasts) : Standing t due p' := by
  rcases step_cases hs with ⟨kind, message, rfl, rfl⟩ | ⟨id, rfl, -, rfl⟩ |
    ⟨id, time, rfl, timer, late, rfl⟩ | ⟨u, us, rfl, first, rfl⟩ | ⟨rfl, rfl⟩ | ⟨time, rfl, -, rfl⟩ |
    ⟨rfl, rfl⟩
  · exact h.notify kind message
  · exact h.dismiss spare
  · refine h.dismiss fun same => ?_
    subst same
    have one := List.inj_on_of_nodup_map ok.once timer h.timer rfl
    cases one
    exact Nat.not_lt.mpr late early
  · exact h.update ok first young
  · exact ⟨h.there, h.timer, h.undropped⟩
  · exact ⟨h.there, h.timer, h.undropped⟩
  · exact spare.elim

/-- A known id gets no new timer. -/
theorem timer_old {p p' : Provider} {a : Action} {id time : Nat} (hs : step p a = some p')
    (old : id < p.next) (timer : (id, time) ∈ p'.timers) : (id, time) ∈ p.timers := by
  rcases step_cases hs with ⟨kind, message, -, rfl⟩ | ⟨i, -, -, rfl⟩ | ⟨i, d, -, -, -, rfl⟩ |
    ⟨u, us, -, first, rfl⟩ | ⟨-, rfl⟩ | ⟨time, -, -, rfl⟩ | ⟨-, rfl⟩
  · exact timer
  · exact List.mem_of_mem_filter timer
  · exact List.mem_of_mem_filter timer
  · cases u with
    | drop i => exact timer
    | add kind message =>
      rcases run_add { p with updates := us } kind message with same | ⟨same, -⟩
      · rwa [same] at timer
      · rw [same] at timer
        rcases List.mem_append.mp (List.mem_of_mem_filter timer) with before | last
        · exact before
        · cases List.mem_singleton.mp last
          exact absurd old (Nat.lt_irrefl _)
  · exact timer
  · exact timer
  · exact nomatch timer

/-- The browser lets no timer wait: time does not go on past one that is due. -/
def punctual (p : Provider) : Action → Prop
  | .tick time => ∀ x ∈ p.timers, time ≤ x.2
  | _ => True

/-- A timer that has its time before it has it before it after a punctual step. -/
theorem timer_ahead {p p' : Provider} {a : Action} {id due : Nat} (hs : step p a = some p')
    (prompt : punctual p a) (old : id < p.next) (timer : (id, due) ∈ p'.timers)
    (ahead : p.now ≤ due) : p'.now ≤ due := by
  have before := timer_old hs old timer
  rcases step_cases hs with ⟨kind, message, -, rfl⟩ | ⟨i, -, -, rfl⟩ | ⟨i, d, -, -, -, rfl⟩ |
    ⟨u, us, -, first, rfl⟩ | ⟨-, rfl⟩ | ⟨time, rfl, -, rfl⟩ | ⟨-, rfl⟩
  case inr.inr.inr.inl =>
    cases u with
    | drop i => exact ahead
    | add kind message =>
      rcases run_add { p with updates := us } kind message with same | ⟨same, -⟩ <;>
        rw [same] <;> exact ahead
  case inr.inr.inr.inr.inr.inl => exact prompt _ before
  all_goals exact ahead

section Lifetime
variable {p p' : Provider} {t : Toast} {due : Nat}

theorem standing_of_run (h : Ok p) (start : Standing t due p)
    (run : Run step (fun _ a => spares t a) p p') :
    Ok p' ∧ (p'.now < due → p'.next ≤ t.id + maxToasts → Standing t due p') := by
  induction run with
  | refl => exact ⟨h, fun _ _ => start⟩
  | step _ spare hs ih =>
    obtain ⟨ok, standing⟩ := ih
    refine ⟨ok.step hs, fun early young => ?_⟩
    obtain ⟨now, next⟩ := step_grows hs
    have before := standing (Nat.lt_of_le_of_lt now early) (Nat.le_trans next young)
    exact before.step ok spare hs early young

/-- The only timer of a known id is the one it had, and where none waits it is still ahead. -/
theorem timer_of_run (h : Ok p) (timer : (t.id, due) ∈ p.timers) (ahead : p.now ≤ due)
    (run : Run step punctual p p') :
    Ok p' ∧ t.id < p'.next ∧ ∀ time, (t.id, time) ∈ p'.timers → time = due ∧ p'.now ≤ due := by
  induction run with
  | refl =>
    refine ⟨h, h.known (mem_timed.mpr ⟨due, timer⟩), fun time other => ⟨?_, ahead⟩⟩
    have one := List.inj_on_of_nodup_map h.once other timer rfl
    exact (Prod.mk.inj one).2
  | step _ prompt hs ih =>
    obtain ⟨ok, old, only⟩ := ih
    refine ⟨ok.step hs, Nat.lt_of_lt_of_le old (step_grows hs).2, fun time after => ?_⟩
    obtain ⟨rfl, ahead⟩ := only time (timer_old hs old after)
    exact ⟨rfl, timer_ahead hs prompt old after ahead⟩

/-- Past the time of its timer a toast is gone. -/
theorem leaves (h : Ok p) (timer : (t.id, due) ∈ p.timers) (ahead : p.now ≤ due)
    (run : Run step punctual p p') (on : p'.mounted = true) (quiet : p'.updates = [])
    (late : due < p'.now) : t.id ∉ p'.toasts.map Toast.id := by
  obtain ⟨ok, -, only⟩ := timer_of_run h timer ahead run
  intro inside
  obtain ⟨u, hu, same⟩ := List.mem_map.mp inside
  rcases ok.timer on u hu with again | drop
  · obtain ⟨time, ht⟩ := mem_timed.mp again
    rw [same] at ht
    exact Nat.not_lt.mpr (only time ht).2 late
  · rw [quiet] at drop
    cases drop

end Lifetime

/-- A toast with a timer is there until the timer is due, however the provider runs on and
however late its timers run out, while nobody dismisses it, the provider is not unmounted and
no five newer toasts come. Where no timer waits it is never there later than that. -/
theorem toast_lifetime {p : Provider} {t : Toast} {due : Nat} (h : Reached p)
    (there : t ∈ p.toasts) (timer : (t.id, due) ∈ p.timers) :
    (∀ p', Run step (fun _ a => spares t a) p p' → p'.now < due →
        p'.next ≤ t.id + maxToasts → t ∈ p'.toasts) ∧
      (p.now ≤ due → ∀ p', Run step punctual p p' → p'.mounted = true → p'.updates = [] →
        due < p'.now → t.id ∉ p'.toasts.map Toast.id) := by
  constructor
  · intro p' run early young
    have standing := standing_of_run h.ok (Standing.of_timer h.ok there timer) run
    exact (standing.2 early young).there
  · intro ahead p' run on quiet late
    exact leaves h.ok timer ahead run on quiet late

/-- A toast a second old, just before its time and after it. -/
theorem toast_lifetime_saved :
    ⟨1, .success, js "Saved"⟩ ∈ ({ saved with now := 5999 } : Provider).toasts ∧
      ∃ p', Run step punctual saved p' ∧ p'.now = 6001 ∧ 1 ∉ p'.toasts.map Toast.id := by
  have both := toast_lifetime (t := ⟨1, .success, js "Saved"⟩) reached_saved
    List.mem_cons_self (List.mem_cons_self : (1, 6000) ∈ saved.timers)
  constructor
  · exact both.1 _ (Run.refl.step (a := .tick 5999) trivial rfl) (by decide) (by decide)
  · have due := (Run.refl : Run step punctual saved saved).step (a := .tick 6000)
      (by simp [punctual, saved]) rfl
    have fired := due.step (a := .fire 1) (by trivial) rfl
    have updated := fired.step (a := .update) (by trivial) rfl
    have later := updated.step (a := .tick 6001) (by simp [punctual, saved, Provider.dismiss,
      Provider.run]) rfl
    exact ⟨_, later, rfl, both.2 (by decide) _ later rfl rfl (by decide)⟩

end Karr.Frontend.Toasts
