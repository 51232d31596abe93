import Karr.Frontend.ConfirmDialog
import Karr.Lib.Interleaving

/-!
# Confirmed calls

Over every run of the dialog: a handler waits only while its own question is the one
the dialog shows next, a click sends one call at most, and a call that is never
confirmed while it is the one asked for is never sent.
-/

set_option autoImplicit false

namespace Karr.Frontend.Dialog

open JavaScript Interleaving

/-! ## Promises -/

section Resolve
variable {p : Provider}

/-- A promise is settled, or the resolver settles it now. -/
theorem resolve_cases (p : Provider) (ok : Bool) :
    (p.resolve ok = p ∧ ∀ k, p.resolver = some k → k ∈ p.settled) ∨
      ∃ k, p.resolver = some k ∧ k ∉ p.settled ∧
        p.resolve ok = { p with answers := p.answers ++ [(k, ok)] } := by
  unfold Provider.resolve
  cases is : p.resolver with
  | none => exact Or.inl ⟨rfl, fun k h => nomatch h⟩
  | some k =>
    by_cases there : k ∈ p.settled
    · refine Or.inl ⟨if_pos there, fun j same => ?_⟩
      cases same
      exact there
    · exact Or.inr ⟨k, rfl, there, if_neg there⟩

/-- Nothing but an answer is new. -/
theorem resolve_frame (p : Provider) (ok : Bool) :
    p.resolve ok = { p with answers := (p.resolve ok).answers } := by
  rcases resolve_cases p ok with ⟨same, -⟩ | ⟨k, -, -, same⟩
  · rw [same]
  · rw [same]

theorem answer_of_resolve {k : Nat} {b ok : Bool} (h : (k, b) ∈ (p.resolve ok).answers) :
    (k, b) ∈ p.answers ∨ p.resolver = some k ∧ b = ok := by
  rcases resolve_cases p ok with ⟨same, -⟩ | ⟨j, is, -, same⟩
  · exact Or.inl (same ▸ h)
  · rw [same] at h
    rcases List.mem_append.mp h with old | last
    · exact Or.inl old
    · cases List.mem_singleton.mp last
      exact Or.inr ⟨is, rfl⟩

theorem settled_of_resolve {k : Nat} {ok : Bool} (h : k ∈ (p.resolve ok).settled) :
    k ∈ p.settled ∨ p.resolver = some k := by
  obtain ⟨⟨j, b⟩, hj, rfl⟩ := List.mem_map.mp h
  rcases answer_of_resolve hj with old | ⟨is, -⟩
  · exact Or.inl (List.mem_map.mpr ⟨_, old, rfl⟩)
  · exact Or.inr is

theorem settled_resolve (ok : Bool) {k : Nat} (h : k ∈ p.settled ∨ p.resolver = some k) :
    k ∈ (p.resolve ok).settled := by
  rcases resolve_cases p ok with ⟨same, all⟩ | ⟨j, is, -, same⟩
  · rw [same]
    exact h.elim id (all k)
  · rw [same]
    change k ∈ (p.answers ++ [(j, ok)]).map Prod.fst
    rw [List.map_append]
    rcases h with old | now
    · exact List.mem_append_left _ old
    · rw [is] at now
      cases now
      exact List.mem_append_right _ List.mem_cons_self

theorem settled_resolve_nodup (ok : Bool) (h : p.settled.Nodup) : (p.resolve ok).settled.Nodup := by
  rcases resolve_cases p ok with ⟨same, -⟩ | ⟨k, -, new, same⟩
  · rw [same]
    exact h
  · rw [same]
    change ((p.answers ++ [(k, ok)]).map Prod.fst).Nodup
    rw [List.map_append, List.nodup_append]
    refine ⟨h, List.pairwise_singleton _ _, ?_⟩
    rintro i hi j hj rfl
    cases List.mem_singleton.mp hj
    exact new hi

/-- A yes whose handler has not gone on. -/
def owed (p : Provider) (answer : Nat × Bool) : Bool :=
  answer.2 && decide (answer.1 ∉ p.resumed)

theorem owed_resolve (p : Provider) (ok : Bool) :
    ((p.resolve ok).answers.filter (owed p)).length ≤
      (p.answers.filter (owed p)).length + ok.toNat := by
  rcases resolve_cases p ok with ⟨same, -⟩ | ⟨k, -, -, same⟩
  · rw [same]
    exact Nat.le_add_right _ _
  · rw [same, List.filter_append, List.length_append]
    apply Nat.add_le_add_left
    cases ok with
    | false => exact Nat.le_refl 0
    | true => exact List.length_filter_le _ _

end Resolve

/-! ## The invariant -/

structure Ok (p : Provider) : Prop where
  known : ∀ k ∈ p.settled, k < p.asked.length
  once : p.settled.Nodup
  waits : ∀ k < p.asked.length, k ∉ p.settled → p.resolver = some k
  last : ∀ k, p.resolver = some k → k + 1 = p.asked.length
  shows : ∀ k, p.resolver = some k → p.options = p.asked[k]?.map Question.options
  owes : p.sent.length + (p.answers.filter (owed p)).length ≤ p.clicks

namespace Ok
variable {p : Provider}

theorem init : Ok {} where
  known _ h := nomatch h
  once := List.nodup_nil
  waits _ h := nomatch h
  last _ h := nomatch h
  shows _ h := nomatch h
  owes := Nat.le_refl 0

theorem known_resolve (h : Ok p) (ok : Bool) :
    ∀ k ∈ (p.resolve ok).settled, k < p.asked.length := by
  intro k hk
  rcases settled_of_resolve hk with old | now
  · exact h.known k old
  · exact Nat.lt_of_succ_le (Nat.le_of_eq (h.last k now))

/-- Nobody waits past a call of the resolver. -/
theorem all_settled (h : Ok p) (ok : Bool) : ∀ k < p.asked.length, k ∈ (p.resolve ok).settled := by
  intro k hk
  by_cases old : k ∈ p.settled
  · exact settled_resolve ok (Or.inl old)
  · exact settled_resolve ok (Or.inr (h.waits k hk old))

theorem settle (h : Ok p) (ok : Bool)
    (clicked : p.sent.length + (p.answers.filter (owed p)).length + ok.toNat ≤ p.clicks) :
    Ok (p.settle ok) := by
  have known := h.known_resolve ok
  have all := h.all_settled ok
  have once := settled_resolve_nodup ok h.once
  have owes := owed_resolve p ok
  unfold Provider.settle
  rw [resolve_frame p ok]
  refine ⟨known, once, fun k hk out => absurd (all k hk) out, ?_, ?_, ?_⟩
  · intro k is
    cases is
  · intro k is
    cases is
  · exact Nat.le_trans (Nat.add_le_add_left owes _) (Nat.add_assoc _ _ _ ▸ clicked)

theorem accept (h : Ok p) : Ok ({ p with clicks := p.clicks + 1 }.settle true) := by
  have more : Ok { p with clicks := p.clicks + 1 } :=
    ⟨h.known, h.once, h.waits, h.last, h.shows, Nat.le_succ_of_le h.owes⟩
  exact more.settle true (Nat.succ_le_succ h.owes)

theorem cancel (h : Ok p) : Ok (p.settle false) := h.settle false h.owes

theorem ask (h : Ok p) (q : Question) : Ok (p.confirm q) := by
  have known := h.known_resolve false
  have all := h.all_settled false
  have once := settled_resolve_nodup false h.once
  have owes := owed_resolve p false
  unfold Provider.confirm
  rw [resolve_frame p false]
  refine ⟨?_, once, ?_, ?_, ?_, Nat.le_trans (Nat.add_le_add_left owes _) h.owes⟩
  · intro k hk
    rw [List.length_append]
    exact Nat.lt_succ_of_lt (known k hk)
  · intro k hk out
    rw [List.length_append, List.length_singleton] at hk
    rcases Nat.lt_succ_iff_lt_or_eq.mp hk with old | rfl
    · exact absurd (all k old) out
    · rfl
  · rintro k is
    cases is
    rw [List.length_append, List.length_singleton]
  · rintro k is
    cases is
    rw [List.getElem?_concat_length]
    rfl

theorem unmount (h : Ok p) : Ok { p.resolve false with drawn := none, mounted := false } := by
  have known := h.known_resolve false
  have all := h.all_settled false
  have once := settled_resolve_nodup false h.once
  have owes := owed_resolve p false
  rw [resolve_frame p false]
  exact ⟨known, once, fun k hk out => absurd (all k hk) out, h.last, h.shows,
    Nat.le_trans (Nat.add_le_add_left owes _) h.owes⟩

theorem owed_resume {k : Nat} {q : Question} {ok : Bool} :
    p.answers.filter (owed (p.resume k q ok)) =
      (p.answers.filter (owed p)).filter fun answer => decide (answer.1 ≠ k) := by
  rw [List.filter_filter]
  apply List.filter_congr
  rintro ⟨j, yes⟩ -
  simp only [owed, Provider.resume, List.mem_cons, not_or, Bool.decide_and, ne_eq]
  ac_rfl

/-- A handler that goes on is owed no more. -/
theorem resume (h : Ok p) {k : Nat} {q : Question} {ok : Bool} (answer : (k, ok) ∈ p.answers)
    (first : k ∉ p.resumed) : Ok (p.resume k q ok) where
  known := h.known
  once := h.once
  waits := h.waits
  last := h.last
  shows := h.shows
  owes := by
    have owes := h.owes
    change _ + (p.answers.filter (owed (p.resume k q ok))).length ≤ p.clicks
    rw [owed_resume]
    cases ok with
    | false => exact Nat.le_trans (Nat.add_le_add_left (List.length_filter_le _ _) _) owes
    | true =>
      have now : (k, true) ∈ p.answers.filter (owed p) :=
        List.mem_filter.mpr ⟨answer, decide_eq_true first⟩
      have fewer : ((p.answers.filter (owed p)).filter fun a => decide (a.1 ≠ k)).length <
          (p.answers.filter (owed p)).length :=
        List.length_filter_lt_length_iff_exists.mpr
          ⟨(k, true), now, fun other => of_decide_eq_true other rfl⟩
      change (p.sent ++ [q.call]).length + _ ≤ p.clicks
      rw [List.length_append, List.length_singleton]
      omega

end Ok

/-! ## Steps and runs -/

/-- What a step can do. -/
theorem step_cases {p p' : Provider} {a : Action} (h : step p a = some p') :
    (∃ q, a = .ask q ∧ p' = p.confirm q) ∨
    (a = .draw ∧ p' = { p with drawn := p.options }) ∨
    (∃ o, a = .accept ∧ p.drawn = some o ∧ p' = { p with clicks := p.clicks + 1 }.settle true) ∨
    (a = .cancel ∧ p' = p.settle false) ∨
    (∃ k q ok, a = .resume k ∧ p.asked[k]? = some q ∧ (k, ok) ∈ p.answers ∧ k ∉ p.resumed ∧
      p' = p.resume k q ok) ∨
    (a = .unmount ∧ p' = { p.resolve false with drawn := none, mounted := false }) := by
  cases a with
  | ask q =>
    cases h
    exact Or.inl ⟨q, rfl, rfl⟩
  | draw =>
    simp only [step] at h
    split at h
    · cases h
      exact Or.inr (Or.inl ⟨rfl, rfl⟩)
    · cases h
  | accept =>
    simp only [step] at h
    split at h
    · rename_i open_
      cases h
      obtain ⟨o, ho⟩ := Option.isSome_iff_exists.mp open_
      exact Or.inr (Or.inr (Or.inl ⟨o, rfl, ho, rfl⟩))
    · cases h
  | cancel =>
    simp only [step] at h
    split at h
    · cases h
      exact Or.inr (Or.inr (Or.inr (Or.inl ⟨rfl, rfl⟩)))
    · cases h
  | resume k =>
    simp only [step] at h
    split at h
    · rename_i q ok hq answer
      split at h
      · cases h
      · rename_i first
        cases h
        obtain ⟨l, r, hl, -⟩ := List.lookup_eq_some_iff.mp answer
        have there : (k, ok) ∈ p.answers := by
          rw [hl]
          exact List.mem_append_right _ List.mem_cons_self
        exact Or.inr (Or.inr (Or.inr (Or.inr (Or.inl ⟨k, q, ok, rfl, hq, there, first, rfl⟩))))
    · cases h
  | unmount =>
    simp only [step] at h
    split at h
    · cases h
      exact Or.inr (Or.inr (Or.inr (Or.inr (Or.inr ⟨rfl, rfl⟩))))
    · cases h

theorem Ok.step {p p' : Provider} {a : Action} (h : Ok p) (hs : Dialog.step p a = some p') :
    Ok p' := by
  rcases step_cases hs with ⟨q, -, rfl⟩ | ⟨-, rfl⟩ | ⟨o, -, -, rfl⟩ | ⟨-, rfl⟩ |
    ⟨k, q, ok, -, -, answer, first, rfl⟩ | ⟨-, rfl⟩
  · exact h.ask q
  · exact { h with }
  · exact h.accept
  · exact h.cancel
  · exact h.resume answer first
  · exact h.unmount

/-- The dialogs that can come to be. -/
def Reached (p : Provider) : Prop := Run Dialog.step (fun _ _ => True) {} p

theorem Reached.ok {p : Provider} (h : Reached p) : Ok p :=
  h.invariant Ok.init fun ok _ hs => ok.step hs

/-- A question that is not answered is the last one asked, and a mounted provider shows it
next; an unmount answers it. No answer is given twice, and no more is sent than clicked. -/
theorem dialog_law {p : Provider} (h : Reached p) :
    (∀ k q, p.asked[k]? = some q → k ∉ p.settled →
      k + 1 = p.asked.length ∧ (p.mounted = true → p.options = some q.options)) ∧
      (∀ p', step p .unmount = some p' → ∀ k < p'.asked.length, k ∈ p'.settled) ∧
      p.settled.Nodup ∧ p.sent.length ≤ p.clicks := by
  have ok := h.ok
  refine ⟨fun k q asked out => ?_, fun p' hs => ?_, ok.once, ?_⟩
  · obtain ⟨inside, -⟩ := List.getElem?_eq_some_iff.mp asked
    have is := ok.waits k inside out
    refine ⟨ok.last k is, fun _ => ?_⟩
    rw [ok.shows k is, asked]
    rfl
  · simp only [step] at hs
    split at hs
    · cases hs
      have all := ok.all_settled false
      rw [resolve_frame p false]
      exact all
    · cases hs
  · exact Nat.le_trans (Nat.le_add_right _ _) ok.owes

theorem dialog_law_asked :
    0 + 1 = 1 ∧
      (({} : Provider).confirm (.stop "e1" (js "a"))).options =
        some (Question.options (.stop "e1" (js "a"))) := by
  have reached : Reached (({} : Provider).confirm (.stop "e1" (js "a"))) :=
    Run.refl.step (a := .ask (.stop "e1" (js "a"))) trivial rfl
  obtain ⟨last, shows⟩ := (dialog_law reached).1 0 (.stop "e1" (js "a")) rfl (by decide)
  exact ⟨last, shows rfl⟩

/-- A call nobody has said yes to. -/
structure Silent (call : ApiCall) (p : Provider) : Prop where
  refused : ∀ k q, p.asked[k]? = some q → q.call = call → (k, true) ∉ p.answers
  unsent : call ∉ p.sent

/-- The promise that a click on the confirm button settles is that of another call. -/
def asksOther (call : ApiCall) (p : Provider) : Action → Prop
  | .accept => ∀ k q, p.resolver = some k → p.asked[k]? = some q → q.call ≠ call
  | _ => True

theorem asksOther_accept {call : ApiCall} {p : Provider} {k : Nat} {q : Question}
    (is : p.resolver = some k) (asked : p.asked[k]? = some q) (other : q.call ≠ call) :
    asksOther call p .accept := by
  intro j r is' asked'
  rw [is] at is'
  cases is'
  rw [asked] at asked'
  cases asked'
  exact other

namespace Silent
variable {call : ApiCall} {p : Provider}

/-- An answer that is not a yes to the call. -/
theorem resolve (h : Silent call p) (ok : Bool)
    (other : ok = true → ∀ k q, p.resolver = some k → p.asked[k]? = some q → q.call ≠ call) :
    Silent call (p.resolve ok) := by
  have frame := resolve_frame p ok
  have asked : (p.resolve ok).asked = p.asked := by rw [frame]
  have sent : (p.resolve ok).sent = p.sent := by rw [frame]
  refine ⟨fun k q hq same yes => ?_, sent ▸ h.unsent⟩
  rw [asked] at hq
  rcases answer_of_resolve yes with old | ⟨is, now⟩
  · exact h.refused k q hq same old
  · exact other now.symm k q is hq same

theorem ask (h : Silent call p) (ok : Ok p) (q : Question) : Silent call (p.confirm q) := by
  have answered := h.resolve false fun no => nomatch no
  have known := ok.known_resolve false
  have frame := resolve_frame p false
  refine ⟨fun k r hr same yes => ?_, answered.unsent⟩
  change (k, true) ∈ (p.resolve false).answers at yes
  have inside := known k (List.mem_map.mpr ⟨_, yes, rfl⟩)
  change (p.asked ++ [q])[k]? = some r at hr
  rw [List.getElem?_append_left inside] at hr
  refine answered.refused k r ?_ same yes
  rw [frame]
  exact hr

theorem resume (h : Silent call p) {k : Nat} {q : Question} {ok : Bool}
    (asked : p.asked[k]? = some q) (answer : (k, ok) ∈ p.answers) :
    Silent call (p.resume k q ok) where
  refused := h.refused
  unsent inside := by
    cases ok with
    | false => exact h.unsent inside
    | true =>
      rcases List.mem_append.mp inside with old | last
      · exact h.unsent old
      · cases List.mem_singleton.mp last
        exact h.refused k q asked rfl answer

end Silent

theorem Silent.step {call : ApiCall} {p p' : Provider} {a : Action} (h : Silent call p)
    (ok : Ok p) (other : asksOther call p a) (hs : Dialog.step p a = some p') :
    Silent call p' := by
  rcases step_cases hs with ⟨q, rfl, rfl⟩ | ⟨rfl, rfl⟩ | ⟨o, rfl, -, rfl⟩ | ⟨rfl, rfl⟩ |
    ⟨k, q, yes, rfl, asked, answer, -, rfl⟩ | ⟨rfl, rfl⟩
  · exact h.ask ok q
  · exact ⟨h.refused, h.unsent⟩
  · have more : Silent call { p with clicks := p.clicks + 1 } := ⟨h.refused, h.unsent⟩
    have answered := more.resolve true fun _ => other
    exact ⟨answered.refused, answered.unsent⟩
  · have answered := h.resolve false fun no => nomatch no
    exact ⟨answered.refused, answered.unsent⟩
  · exact h.resume asked answer
  · have answered := h.resolve false fun no => nomatch no
    exact ⟨answered.refused, answered.unsent⟩

/-- A yes to another call leaves it unsent. -/
theorem silent_of_run {call : ApiCall} {p : Provider} (run : Run step (asksOther call) {} p) :
    Ok p ∧ Silent call p := by
  have init : Silent call {} := ⟨(fun _ _ h => nomatch h), (fun h => nomatch h)⟩
  induction run with
  | refl => exact ⟨Ok.init, init⟩
  | step _ other hs ih => exact ⟨ih.1.step hs, ih.2.step ih.1 other hs⟩

/-- A call is not sent before the button is clicked while it is the one asked for; a dialog
that is drawn as it was last set has the texts of the question the click would answer. -/
theorem unconfirmed_unsent {call : ApiCall} {p : Provider}
    (run : Run step (asksOther call) {} p) :
    call ∉ p.sent ∧
      (p.drawn = p.options → ∀ k q, p.resolver = some k → p.asked[k]? = some q →
        p.drawn = some q.options) := by
  obtain ⟨ok, silent⟩ := silent_of_run run
  refine ⟨silent.unsent, fun current k q is asked => ?_⟩
  have shown := ok.shows k is
  rw [asked] at shown
  exact current.trans shown

/-- The environments `e1` and `e2` have the same name. -/
theorem unconfirmed_unsent_stop :
    ∃ p : Provider, p.sent = [.stopEnvironment "e1", .removeEnvironment "e2"] ∧
      .removeEnvironment "e1" ∉ p.sent ∧
      p.drawn = some (Question.options (.remove "e1" (js "a"))) := by
  let ok := asksOther (.removeEnvironment "e1")
  have asked : Run step ok {} _ := Run.refl.step (a := .ask (.stop "e1" (js "a"))) trivial rfl
  have drawn : Run step ok {} _ := asked.step (a := .draw) trivial rfl
  have accepted : Run step ok {} _ :=
    drawn.step (a := .accept) (asksOther_accept rfl rfl (by decide)) rfl
  have stopped : Run step ok {} _ := accepted.step (a := .resume 0) trivial rfl
  have asked : Run step ok {} _ := stopped.step (a := .ask (.remove "e2" (js "a"))) trivial rfl
  have drawn : Run step ok {} _ := asked.step (a := .draw) trivial rfl
  have accepted : Run step ok {} _ :=
    drawn.step (a := .accept) (asksOther_accept rfl rfl (by decide)) rfl
  have removed : Run step ok {} _ := accepted.step (a := .resume 1) trivial rfl
  have asked : Run step ok {} _ := removed.step (a := .ask (.remove "e1" (js "a"))) trivial rfl
  have drawn : Run step ok {} _ := asked.step (a := .draw) trivial rfl
  obtain ⟨unsent, shown⟩ := unconfirmed_unsent drawn
  exact ⟨_, rfl, unsent, shown rfl 2 (.remove "e1" (js "a")) rfl rfl⟩

end Karr.Frontend.Dialog
