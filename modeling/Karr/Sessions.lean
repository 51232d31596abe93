import Karr.Frontend.AuthGate
import Karr.Lib.Interleaving

/-!
# Sign-in sessions

Whatever the order in which calls settle: the children are on the screen only with
a token the server has accepted, which is also the one that is stored; the form is
there only without one. A token under verification is never stored.
-/

set_option autoImplicit false

namespace Karr.Frontend.AuthGate

open JavaScript Interleaving

/-! ## The calls of the gate itself -/

/-- The calls of `check` and `submit` in flight. -/
def own (calls : List Call) : List Call := calls.filter fun c => !c.isRequest

section Calls
variable {calls : List Call} {c call : Call} {k : Nat}

theorem own_append_request (calls : List Call) (path : JsString) :
    own (calls ++ [.request path]) = own calls := by
  rw [own, List.filter_append]
  exact List.append_nil _

theorem own_append (calls : List Call) (h : call.isRequest = false) :
    own (calls ++ [call]) = own calls ++ [call] := by
  have kept : [call].filter (fun c => !c.isRequest) = [call] := by simp [h]
  rw [own, List.filter_append, kept]
  rfl

theorem split_calls (h : calls[k]? = some c) :
    calls = calls.take k ++ c :: calls.drop (k + 1) := by
  obtain ⟨hlt, rfl⟩ := List.getElem?_eq_some_iff.mp h
  rw [← List.drop_eq_getElem_cons hlt, List.take_append_drop]

/-- A request that settles is none of the gate's own calls. -/
theorem own_eraseIdx (h : calls[k]? = some c) (hc : c.isRequest = true) :
    own (calls.eraseIdx k) = own calls := by
  have whole : own calls = own (calls.take k) ++ own (calls.drop (k + 1)) := by
    conv_lhs => rw [split_calls h]
    rw [own, List.filter_append, List.filter_cons_of_neg (by simp [hc])]
    rfl
  rw [whole, List.eraseIdx_eq_take_drop_succ, own, List.filter_append]
  rfl

theorem own_nil (h : calls[k]? = some c) (none : own calls = []) : c.isRequest = true := by
  by_contra hc
  have : c ∈ own calls := List.mem_filter.mpr ⟨List.mem_of_getElem? h, by simp [hc]⟩
  rw [none] at this
  cases this

/-- The only own call settles. -/
theorem own_single (h : calls[k]? = some c) (one : own calls = [call]) (hc : c.isRequest = false) :
    c = call ∧ own (calls.eraseIdx k) = [] := by
  have whole : own calls = own (calls.take k) ++ c :: own (calls.drop (k + 1)) := by
    conv_lhs => rw [split_calls h]
    rw [own, List.filter_append, List.filter_cons_of_pos (by simp [hc])]
    rfl
  rw [whole] at one
  have alone : own (calls.take k) = [] ∧ c = call ∧ own (calls.drop (k + 1)) = [] := by
    cases before : own (calls.take k) with
    | nil =>
      rw [before, List.nil_append] at one
      exact ⟨rfl, List.cons.inj one⟩
    | cons d ds =>
      rw [before] at one
      simp at one
  refine ⟨alone.2.1, ?_⟩
  rw [List.eraseIdx_eq_take_drop_succ, own, List.filter_append]
  exact List.append_eq_nil_iff.mpr ⟨alone.1, alone.2.2⟩

end Calls

/-! ## The stages of a session -/

/-- Nothing of a token is stored. -/
def Unstored (t : Tab) : Prop := ∀ value, t.stored = some value → value = []

/-- The token in memory is the one that is stored. -/
structure Holding (t : Tab) (token : JsString) : Prop where
  memory : t.token = some token
  nonempty : token ≠ []
  stored : t.stored = if t.enabled then some token else none

inductive Stage (item : Option JsString) (t : Tab) : Prop where
  | starting {token : JsString} (authed : t.authed = none) (card : t.serverError = [])
      (calls : t.calls = [.check token]) (closed : t.opened = false) (idle : t.submitting = false)
      (holds : Holding t token) (from_item : item = some token)
  | failed {token : JsString} (authed : t.authed = none) (card : t.serverError ≠ [])
      (calls : t.calls = []) (closed : t.opened = false) (idle : t.submitting = false)
      (holds : Holding t token) (from_item : item = some token)
  | form (authed : t.authed = some false) (card : t.serverError = []) (calls : own t.calls = [])
      (idle : t.submitting = false) (unstored : Unstored t) (signed_out : t.hasToken = false)
  | verifying {value : JsString} (authed : t.authed = some false) (card : t.serverError = [])
      (calls : own t.calls = [.submit value]) (busy : t.submitting = true)
      (nonempty : value ≠ []) (unstored : Unstored t)
  | signedIn {token : JsString} (authed : t.authed = some true) (card : t.serverError = [])
      (calls : own t.calls = []) (idle : t.submitting = false) (holds : Holding t token)
      (accepted : token ∈ t.accepted)

structure SessionOk (item : Option JsString) (t : Tab) : Prop where
  stage : Stage item t
  off : t.enabled = false → t.stored = none

/-- The platform's own errors have a text. -/
def Action.Told : Action → Prop
  | .settle _ settled => Frontend.Told settled
  | _ => True

section Steps
variable {item : Option JsString} {t : Tab}

theorem hasToken_iff : t.hasToken = true ↔ ∃ token, t.token = some token ∧ token ≠ [] := by
  unfold Tab.hasToken
  cases t.token with
  | none => simp
  | some token => simp

theorem Holding.hasToken {token : JsString} (h : Holding t token) : t.hasToken = true :=
  hasToken_iff.mpr ⟨token, h.memory, h.nonempty⟩

theorem off_clear (off : t.enabled = false → t.stored = none) : t.clearToken.stored = none := by
  rw [Tab.clearToken]
  dsimp only
  split
  · rfl
  · rename_i h
    exact off (Bool.eq_false_iff.mpr h)

theorem unstored_clear (off : t.enabled = false → t.stored = none) : Unstored t.clearToken := by
  intro value h
  rw [off_clear off] at h
  cases h

/-- Signed out by a 401, with no call of the gate in flight. -/
theorem stage_cleared (off : t.enabled = false → t.stored = none) (card : t.serverError = [])
    (calls : own t.calls = []) (idle : t.submitting = false) : Stage item t.onUnauthorized :=
  .form rfl card calls idle (unstored_clear off) rfl

theorem sessionOk_cleared (h : t.enabled = false → t.stored = none)
    (stage : Stage item t.onUnauthorized) : SessionOk item t.onUnauthorized :=
  ⟨stage, fun _ => off_clear h⟩

theorem checked_ok {token : JsString} {settled : Option Answer} (told : Told settled)
    (off : t.enabled = false → t.stored = none) (authed : t.authed = none)
    (card : t.serverError = []) (calls : t.calls = []) (closed : t.opened = false)
    (idle : t.submitting = false)
    (holds : Holding t token) (from_item : item = some token) :
    SessionOk item (t.checked token (request settled)) := by
  have none : own t.calls = [] := by rw [calls]; rfl
  cases result : request settled with
  | done =>
    exact ⟨.signedIn rfl card none idle ⟨holds.memory, holds.nonempty, holds.stored⟩
      (List.mem_append_right _ (List.mem_singleton_self token)), off⟩
  | apiError status message =>
    have text := apiError_ne_nil result
    have unreachable : js "Cannot reach the KARR server." ≠ [] := by decide
    simp only [Tab.checked]
    split
    · exact sessionOk_cleared off (stage_cleared off card none idle)
    · split
      · exact ⟨.failed authed unreachable calls closed idle
          ⟨holds.memory, holds.nonempty, holds.stored⟩ from_item, off⟩
      · exact ⟨.failed authed text calls closed idle
          ⟨holds.memory, holds.nonempty, holds.stored⟩ from_item, off⟩
  | thrown message =>
    have text := thrown_ne_nil told result
    exact ⟨.failed authed text calls closed idle
      ⟨holds.memory, holds.nonempty, holds.stored⟩ from_item, off⟩

theorem submitted_ok {value : JsString} {settled : Option Answer}
    (off : t.enabled = false → t.stored = none) (authed : t.authed = some false)
    (card : t.serverError = []) (calls : own t.calls = [])
    (nonempty : value ≠ []) : SessionOk item (t.submitted value (request settled)) := by
  have out : ∀ {w : Tab}, w.authed = some false → w.serverError = [] → own w.calls = [] →
      w.submitting = false → w.token = none → w.stored = none → SessionOk item w := by
    intro w authed card calls idle memory stored
    refine ⟨.form authed card calls idle ?_ ?_, fun _ => stored⟩
    · intro value h
      rw [stored] at h
      cases h
    · rw [Tab.hasToken, memory]
      rfl
  cases request settled with
  | done =>
    refine ⟨.signedIn rfl card calls rfl ⟨rfl, nonempty, ?_⟩
      (List.mem_append_right _ (List.mem_singleton_self value)), ?_⟩
    · simp only [Tab.submitted, Tab.setToken, Bool.true_and]
      by_cases enabled : t.enabled = true
      · rw [if_pos enabled, if_pos enabled]
      · rw [if_neg enabled, if_neg enabled]
        exact off (Bool.eq_false_iff.mpr enabled)
    · intro disabled
      simp only [Tab.submitted, Tab.setToken, Bool.true_and] at disabled ⊢
      rw [if_neg (Bool.eq_false_iff.mp disabled)]
      exact off disabled
  | apiError status message => exact out authed card calls rfl rfl (off_clear off)
  | thrown message => exact out authed card calls rfl rfl (off_clear off)

/-- A request of a component settles. -/
theorem request_ok {k : Nat} {path : JsString} {settled : Option Answer} (h : SessionOk item t)
    (opened : t.authed ≠ none) (hk : t.calls[k]? = some (.request path)) :
    SessionOk item (settle { t with calls := t.calls.eraseIdx k } (.request path) settled) := by
  have same : own (t.calls.eraseIdx k) = own t.calls := own_eraseIdx hk rfl
  unfold settle
  dsimp only
  split
  · refine sessionOk_cleared (t := { t with calls := t.calls.eraseIdx k }) h.off ?_
    cases h.stage with
    | starting authed => exact absurd authed opened
    | failed authed => exact absurd authed opened
    | form authed card calls idle unstored =>
      exact stage_cleared (t := { t with calls := t.calls.eraseIdx k }) h.off card
        (same.trans calls) idle
    | verifying authed card calls busy nonempty unstored =>
      exact .verifying rfl card (same.trans calls) busy nonempty (unstored_clear h.off)
    | signedIn authed card calls idle =>
      exact stage_cleared (t := { t with calls := t.calls.eraseIdx k }) h.off card
        (same.trans calls) idle
  · refine ⟨?_, h.off⟩
    cases h.stage with
    | starting authed => exact absurd authed opened
    | failed authed => exact absurd authed opened
    | form authed card calls idle unstored out =>
      exact .form authed card (same.trans calls) idle unstored out
    | verifying authed card calls busy nonempty unstored =>
      exact .verifying authed card (same.trans calls) busy nonempty unstored
    | signedIn authed card calls idle holds accepted =>
      exact .signedIn authed card (same.trans calls) idle
        ⟨holds.memory, holds.nonempty, holds.stored⟩ accepted

theorem settle_ok {k : Nat} {call : Call} {settled : Option Answer} (h : SessionOk item t)
    (told : Told settled) (hk : t.calls[k]? = some call) :
    SessionOk item (settle { t with calls := t.calls.eraseIdx k } call settled) := by
  have component (opened : t.authed ≠ none) (hc : call.isRequest = true) :
      SessionOk item (settle { t with calls := t.calls.eraseIdx k } call settled) := by
    cases call with
    | request path => exact request_ok h opened hk
    | check token => cases hc
    | submit value => cases hc
  cases h.stage with
  | @starting token authed card calls closed idle holds from_item =>
    -- the check is the only call there is
    rw [calls] at hk
    obtain ⟨hlt, rfl⟩ := List.getElem?_eq_some_iff.mp hk
    obtain rfl : k = 0 := by
      rw [List.length_singleton] at hlt
      omega
    have rest : t.calls.eraseIdx 0 = [] := by rw [calls]; rfl
    exact checked_ok (t := { t with calls := t.calls.eraseIdx 0 }) told h.off authed card rest
      closed idle ⟨holds.memory, holds.nonempty, holds.stored⟩ from_item
  | failed authed card calls =>
    rw [calls] at hk
    cases hk
  | form authed card calls idle unstored out =>
    exact component (by rw [authed]; exact Option.some_ne_none _) (own_nil hk calls)
  | verifying authed card calls busy nonempty unstored =>
    by_cases hc : call.isRequest = true
    · exact component (by rw [authed]; exact Option.some_ne_none _) hc
    · obtain ⟨rfl, rest⟩ := own_single hk calls (Bool.eq_false_iff.mpr hc)
      exact submitted_ok (t := { t with calls := t.calls.eraseIdx k }) h.off authed card rest
        nonempty
  | signedIn authed card calls idle holds accepted =>
    exact component (by rw [authed]; exact Option.some_ne_none _) (own_nil hk calls)

theorem form_iff : t.form = true ↔ t.serverError = [] ∧ t.authed = some false := by
  simp [Tab.form, Tab.errorCard]

theorem SessionOk.step {t' : Tab} {a : Action} (h : SessionOk item t) (told : a.Told)
    (hs : step t a = some t') : SessionOk item t' := by
  obtain ⟨stage, off⟩ := h
  cases a with
  | settle k settled =>
    obtain ⟨call, hk, rfl⟩ := Option.map_eq_some_iff.mp hs
    exact settle_ok ⟨stage, off⟩ told hk
  | input value =>
    simp only [AuthGate.step] at hs
    split at hs <;> cases hs
    rename_i shown
    obtain ⟨-, form⟩ := form_iff.mp shown
    refine ⟨?_, off⟩
    cases stage with
    | starting authed => cases authed.symm.trans form
    | failed authed => cases authed.symm.trans form
    | form authed card calls idle unstored out => exact .form authed card calls idle unstored out
    | verifying authed card calls busy nonempty unstored =>
      exact .verifying authed card calls busy nonempty unstored
    | signedIn authed => cases authed.symm.trans form
  | submit =>
    simp only [AuthGate.step, Bool.and_eq_true, Bool.not_eq_true', bne_iff_ne] at hs
    split at hs <;> cases hs
    rename_i shown
    obtain ⟨⟨form, idle⟩, nonempty⟩ := shown
    obtain ⟨card, form⟩ := form_iff.mp form
    refine ⟨?_, off⟩
    cases stage with
    | starting authed => cases authed.symm.trans form
    | failed authed => cases authed.symm.trans form
    | form authed _ calls idle unstored out =>
      refine .verifying form card ?_ rfl nonempty unstored
      exact (own_append t.calls rfl).trans (congrArg (· ++ _) calls)
    | verifying _ _ _ busy => cases busy.symm.trans idle
    | signedIn authed => cases authed.symm.trans form
  | retry =>
    simp only [AuthGate.step, Tab.errorCard, bne_iff_ne] at hs
    split at hs <;> cases hs
    rename_i shown
    cases stage with
    | @failed token authed card calls closed idle holds from_item =>
      have held : ({ t with serverError := [] } : Tab).hasToken = true := holds.hasToken
      rw [Tab.check, if_neg (not_not_intro held)]
      refine ⟨.starting authed rfl ?_ closed idle
        ⟨holds.memory, holds.nonempty, holds.stored⟩ from_item, off⟩
      simp only [calls, holds.memory]
      rfl
    | starting _ card => exact absurd card shown
    | form _ card => exact absurd card shown
    | verifying _ card => exact absurd card shown
    | signedIn _ card => exact absurd card shown
  | request path =>
    simp only [AuthGate.step] at hs
    split at hs <;> cases hs
    rename_i opened
    have same := own_append_request t.calls path
    refine ⟨?_, off⟩
    cases stage with
    | starting _ _ _ closed => cases closed.symm.trans opened
    | failed _ _ _ closed => cases closed.symm.trans opened
    | form authed card calls idle unstored out =>
      exact .form authed card (same.trans calls) idle unstored out
    | verifying authed card calls busy nonempty unstored =>
      exact .verifying authed card (same.trans calls) busy nonempty unstored
    | signedIn authed card calls idle holds accepted =>
      exact .signedIn authed card (same.trans calls) idle
        ⟨holds.memory, holds.nonempty, holds.stored⟩ accepted

theorem sessionOk_loaded (enabled : Bool) (item : Option JsString) :
    SessionOk item (loaded enabled item) := by
  have off (h : enabled = false) : readStoredToken enabled item = none := by
    rw [h]
    rfl
  unfold loaded Tab.check
  by_cases held : (fresh enabled (readStoredToken enabled item)).hasToken = true
  · rw [if_neg (not_not_intro held)]
    obtain ⟨token, memory, nonempty⟩ := hasToken_iff.mp held
    have memory : readStoredToken enabled item = some token := memory
    have on : enabled = true := by
      by_contra h
      rw [off (Bool.eq_false_iff.mpr h)] at memory
      cases memory
    have from_item : item = some token := by
      rwa [readStoredToken, if_pos on] at memory
    rw [memory]
    refine ⟨.starting rfl rfl rfl rfl rfl ⟨rfl, nonempty, (if_pos on).symm⟩
      from_item, fun h => absurd (on.symm.trans h) (by decide)⟩
  · have out := Bool.eq_false_iff.mpr held
    rw [if_pos held]
    refine ⟨.form rfl rfl rfl rfl ?_ out, off⟩
    intro value stored
    by_contra nonempty
    exact held (hasToken_iff.mpr ⟨value, stored, nonempty⟩)

end Steps

/-- Any run of the gate in a tab whose storage holds `item`. -/
abbrev Runs (enabled : Bool) (item : Option JsString) : Tab → Prop :=
  Run step (fun _ a => a.Told) (loaded enabled item)

theorem sessionOk {enabled : Bool} {item : Option JsString} {t : Tab} (hr : Runs enabled item t) :
    SessionOk item t :=
  hr.invariant (sessionOk_loaded enabled item) fun h told hs => h.step told hs

/-- The children are shown with an accepted token, stored if anything can be; the form with
none; what is neither, nor an error, waits for a check. A token that is stored is in use, and
was accepted or there from the start. -/
theorem session_law {enabled : Bool} {item : Option JsString} {t : Tab}
    (hr : Runs enabled item t) :
    (t.children = true → ∃ token ∈ t.accepted, Holding t token) ∧
    (t.form = true → Unstored t ∧ (t.submitting = false → t.hasToken = false)) ∧
    (t.children = false → t.form = false → t.errorCard = false →
      ∃ token, t.calls = [.check token] ∧ item = some token) ∧
    (∀ token, t.stored = some token → token ≠ [] →
      t.token = some token ∧ (token ∈ t.accepted ∨ item = some token)) := by
  obtain ⟨stage, off⟩ := sessionOk hr
  have used {token value : JsString} (holds : Holding t token) (stored : t.stored = some value) :
      value = token := by
    have := holds.stored.symm.trans stored
    split at this <;> cases this
    rfl
  simp only [Tab.children, Tab.form, Tab.errorCard]
  cases stage with
  | @starting token authed card calls closed idle holds from_item =>
    refine ⟨by simp [authed], by simp [authed], fun _ _ _ => ⟨token, calls, from_item⟩, ?_⟩
    intro value stored _
    obtain rfl := used holds stored
    exact ⟨holds.memory, Or.inr from_item⟩
  | @failed token authed card calls closed idle holds from_item =>
    refine ⟨by simp [authed], by simp [authed], by simp [card], ?_⟩
    intro value stored _
    obtain rfl := used holds stored
    exact ⟨holds.memory, Or.inr from_item⟩
  | form authed card calls idle unstored out =>
    refine ⟨by simp [authed], fun _ => ⟨unstored, fun _ => out⟩, by simp [authed, card], ?_⟩
    intro value stored nonempty
    exact absurd (unstored value stored) nonempty
  | verifying authed card calls busy nonempty unstored =>
    refine ⟨by simp [authed], fun _ => ⟨unstored, by simp [busy]⟩, by simp [authed, card], ?_⟩
    intro value stored nonempty
    exact absurd (unstored value stored) nonempty
  | @signedIn token authed card calls idle holds accepted =>
    refine ⟨fun _ => ⟨token, accepted, holds⟩, by simp [authed], by simp [authed, card], ?_⟩
    intro value stored _
    obtain rfl := used holds stored
    exact ⟨holds.memory, Or.inl accepted⟩

/-- The token is typed with blanks around it, and accepted. -/
def noContent : Answer := ⟨204, js "No Content", none, .error (js "no body")⟩

def signedIn : Tab where
  enabled := true
  token := some (js "key")
  stored := some (js "key")
  authed := some true
  accepted := [js "key"]
  opened := true

theorem told_noContent : Told (some noContent) := by
  intro resp message h hjson
  cases h
  cases hjson
  decide

theorem signedIn_run : Runs true none signedIn := by
  have settled : (Action.settle 0 (some noContent)).Told := told_noContent
  exact .step (.step (.step .refl (a := .input (js " key ")) trivial rfl) (a := .submit) trivial rfl)
    settled rfl

theorem session_law_signedIn : ∃ token ∈ signedIn.accepted, Holding signedIn token :=
  (session_law signedIn_run).1 rfl

/-- A call of a component is answered 401. -/
def SignsOut (t : Tab) : Action → Prop
  | .settle k settled => ∃ path, t.calls[k]? = some (.request path) ∧ dispatches path settled = true
  | _ => False

/-- Until then a session stays open, with its token. -/
theorem session_stays {enabled : Bool} {item : Option JsString} {t t' : Tab}
    (hr : Runs enabled item t) (shown : t.children = true)
    (later : Run step (fun t a => a.Told ∧ ¬ SignsOut t a) t t') :
    t'.children = true ∧ t'.token = t.token ∧ t'.stored = t.stored := by
  induction later with
  | refl => exact ⟨shown, rfl, rfl⟩
  | @step c c' a run ok hs ih =>
    obtain ⟨shown, token, stored⟩ := ih
    have reached : Runs enabled item c := hr.trans (run.mono fun _ _ h => h.1)
    obtain ⟨stage, -⟩ := sessionOk reached
    have authed : c.authed = some true := by
      simp only [Tab.children, Bool.and_eq_true, beq_iff_eq] at shown
      exact shown.2
    cases stage with
    | starting authed' => cases authed'.symm.trans authed
    | failed authed' => cases authed'.symm.trans authed
    | form authed' => cases authed'.symm.trans authed
    | verifying authed' => cases authed'.symm.trans authed
    | signedIn _ card calls =>
      cases a with
      | settle k settled =>
        obtain ⟨call, hk, rfl⟩ := Option.map_eq_some_iff.mp hs
        cases call with
        | request path =>
          have quiet : ¬ dispatches path settled = true := fun h => ok.2 ⟨path, hk, h⟩
          simp only [settle, if_neg quiet]
          exact ⟨shown, token, stored⟩
        | check token => cases own_nil hk calls
        | submit value => cases own_nil hk calls
      | input value =>
        simp only [AuthGate.step] at hs
        split at hs <;> cases hs
        exact ⟨shown, token, stored⟩
      | submit =>
        simp [AuthGate.step, Tab.form, authed] at hs
      | retry =>
        simp [AuthGate.step, Tab.errorCard, card] at hs
      | request path =>
        simp only [AuthGate.step] at hs
        split at hs <;> cases hs
        exact ⟨shown, token, stored⟩

/-- A request that fails for another reason. -/
theorem session_stays_signedIn : ∃ t' : Tab, t'.calls = [] ∧
    t'.children = true ∧ t'.token = signedIn.token ∧ t'.stored = signedIn.stored := by
  have told : (Action.settle 0 none).Told := fun _ _ h => nomatch h
  have quiet (t : Tab) : ¬ SignsOut t (.settle 0 none) := fun ⟨_, _, h⟩ => nomatch h
  have later : Run step (fun t a => a.Told ∧ ¬ SignsOut t a) signedIn _ :=
    .step (.step .refl (a := .request (js "/agents")) ⟨trivial, id⟩ rfl) ⟨told, quiet _⟩ rfl
  exact ⟨_, rfl, session_stays signedIn_run rfl later⟩

end Karr.Frontend.AuthGate
