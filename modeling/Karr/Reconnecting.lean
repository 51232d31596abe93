import Karr.ShownLog

/-!
# How the log view comes back

The phase the view shows says what its effect awaits; after `ended` or `error` it
awaits nothing any more. Between two fetches lies a wait of the backoff, and only
streams that delivered something make the waits short again.
-/

set_option autoImplicit false

namespace Karr.Frontend.LogView

open JavaScript Interleaving

/-! ## The pace of the fetches -/

/-- The doublings of the base delay that reach the cap. -/
def doublings : Nat := 5

theorem cap_le_doubled : reconnectMaxMs ≤ reconnectBaseMs * 2 ^ doublings := by decide

theorem base_le_cap : reconnectBaseMs ≤ reconnectMaxMs := by decide

/-- The streams that delivered at least one event. -/
def Opened.delivers (o : Opened) : Bool := 0 < o.handled

def View.delivering (v : View) : Nat := v.streams.countP Opened.delivers

/-- The retry whose timer is set, and its delay. -/
def Pending.retry : Pending → Nat × Nat
  | .timer delay => (1, delay)
  | _ => (0, 0)

def View.ledger (v : View) : Backoff.Ledger where
  retries := v.fetches - 1 + v.pending.retry.1
  waited := v.waited + v.pending.retry.2
  resets := v.delivering
  attempt := v.attempt

def Balanced (l : Backoff.Ledger) : Prop :=
  l.Balanced reconnectBaseMs reconnectMaxMs doublings

structure PaceOk (v : View) : Prop where
  begun : 0 < v.fetches
  balanced : v.aborted = false → Balanced v.ledger
  each : reconnectBaseMs * (v.fetches - 1) ≤ v.waited
  paid : reconnectMaxMs * (v.fetches - 1) ≤
    v.waited + reconnectMaxMs * doublings * (v.delivering + 1)

theorem delivering_eq {v v' : View} (past : v'.past = v.past)
    (stream : v'.pending.stream.countP Opened.delivers = v.pending.stream.countP Opened.delivers) :
    v'.delivering = v.delivering := by
  rw [View.delivering, View.delivering, View.streams, View.streams, List.countP_append,
    List.countP_append, past, stream]

/-- Nothing of what counts has changed. -/
theorem PaceOk.same {v v' : View} (h : PaceOk v) (fetches : v'.fetches = v.fetches)
    (waited : v'.waited = v.waited) (delivering : v'.delivering = v.delivering)
    (balanced : v'.aborted = false → Balanced v'.ledger) : PaceOk v' := by
  refine ⟨?_, balanced, ?_, ?_⟩
  · rw [fetches]
    exact h.begun
  · rw [fetches, waited]
    exact h.each
  · rw [fetches, waited, delivering]
    exact h.paid

theorem PaceOk.retry {v : View} (h : PaceOk v) (running : v.aborted = false)
    (idle : v.pending.retry = (0, 0)) (delivering : v.scheduleReconnect.delivering = v.delivering) :
    PaceOk v.scheduleReconnect := by
  refine h.same rfl rfl delivering fun _ => ?_
  have ledger : v.scheduleReconnect.ledger =
      v.ledger.retry reconnectBaseMs reconnectMaxMs := by
    simp only [View.ledger, delivering, idle, Backoff.Ledger.retry]
    rfl
  rw [ledger]
  exact (h.balanced running).retry base_le_cap

/-- An answer, a read or an end that nothing counts. -/
theorem PaceOk.idle {v v' : View} (h : PaceOk v) (fetches : v'.fetches = v.fetches)
    (waited : v'.waited = v.waited) (delivering : v'.delivering = v.delivering)
    (attempt : v'.attempt = v.attempt) (aborted : v'.aborted = false → v.aborted = false)
    (retry : v'.pending.retry = v.pending.retry) : PaceOk v' := by
  refine h.same fetches waited delivering fun running => ?_
  have ledger : v'.ledger = v.ledger := by
    rw [View.ledger, View.ledger, fetches, waited, delivering, attempt, retry]
  rw [ledger]
  exact h.balanced (aborted running)

/-- The first event of a stream is a fresh start. -/
theorem PaceOk.event {v v' : View} {o o' : Opened} (h : PaceOk v) (hp : v.pending = .events o)
    (fetches : v'.fetches = v.fetches) (waited : v'.waited = v.waited)
    (streams : v'.streams = v.past ++ [o']) (handled : o'.handled = o.handled + 1)
    (attempt : v'.attempt = if o.handled = 0 then 0 else v.attempt)
    (aborted : v'.aborted = v.aborted) (retry : v'.pending.retry = (0, 0)) : PaceOk v' := by
  have before : v.streams = v.past ++ [o] := by rw [View.streams, hp]; rfl
  have idle : v.pending.retry = (0, 0) := by rw [hp]; rfl
  have delivering : v'.delivering = v.delivering + if o.handled = 0 then 1 else 0 := by
    rw [View.delivering, View.delivering, streams, before, List.countP_append, List.countP_append,
      List.countP_singleton, List.countP_singleton]
    by_cases first : o.handled = 0
    · simp [Opened.delivers, first, handled]
    · simp [Opened.delivers, first, handled, Nat.pos_of_ne_zero first]
  refine ⟨?_, ?_, ?_, ?_⟩
  · rw [fetches]
    exact h.begun
  · intro running
    have balanced := h.balanced (aborted ▸ running)
    by_cases first : o.handled = 0
    · have ledger : v'.ledger = v.ledger.reset := by
        rw [View.ledger, View.ledger, fetches, waited, delivering, attempt, retry, idle,
          if_pos first, if_pos first]
        rfl
      rw [ledger]
      exact balanced.reset cap_le_doubled
    · have ledger : v'.ledger = v.ledger := by
        rw [View.ledger, View.ledger, fetches, waited, delivering, attempt, retry, idle,
          if_neg first, if_neg first]
        rfl
      rw [ledger]
      exact balanced
  · rw [fetches, waited]
    exact h.each
  · have paid := h.paid
    have more : v.delivering ≤ v'.delivering := by omega
    have := Nat.mul_le_mul_left (reconnectMaxMs * doublings) (Nat.succ_le_succ more)
    rw [fetches, waited]
    exact Nat.le_trans paid (Nat.add_le_add_left this _)

theorem PaceOk.step {v v' : View} {a : Action} (h : PaceOk v) (hs : v.step a = some v') :
    PaceOk v' := by
  cases view_rule hs with
  | ignored aborted hp =>
    rcases hp with hp | ⟨message, hp⟩ <;>
      exact h.idle rfl rfl (delivering_eq rfl (by rw [hp]; rfl)) rfl id (by rw [hp]; rfl)
  | refused running hp =>
    exact h.retry running (by rw [hp]; rfl) (delivering_eq rfl (by rw [hp]; rfl))
  | unauthorized running hp =>
    exact h.idle rfl rfl (delivering_eq rfl (by rw [hp]; rfl)) rfl id (by rw [hp]; rfl)
  | refusal running hp =>
    exact h.idle rfl rfl (delivering_eq rfl (by rw [hp]; rfl)) rfl id (by rw [hp]; rfl)
  | empty running hp =>
    exact h.idle rfl rfl (delivering_eq rfl (by rw [hp]; rfl)) rfl id (by rw [hp]; rfl)
  | stream running hp ok =>
    exact h.idle rfl rfl (delivering_eq rfl (by rw [hp]; rfl)) rfl id (by rw [hp]; rfl)
  | explained running hp detail =>
    exact h.idle rfl rfl (delivering_eq rfl (by rw [hp]; rfl)) rfl id (by rw [hp]; rfl)
  | @read o a c hp hset hstep =>
    exact h.idle rfl rfl (delivering_eq rfl (by rw [hp]; rfl)) rfl id (by rw [hp]; rfl)
  | @ended o e c hp he kind hstep =>
    exact PaceOk.event h hp rfl rfl (List.append_nil _) rfl
      rfl rfl rfl
  | @failed o e c hp he kind hstep =>
    obtain ⟨detail, phase, hfail⟩ := View.fail_eq (v.counted o)
      (if e.data = [] then js "stream failed" else e.data)
    rw [hfail]
    exact h.event hp rfl rfl (List.append_nil _) rfl rfl rfl rfl
  | @line o e c hp he not_end not_error hstep =>
    exact h.event hp rfl rfl rfl rfl rfl rfl rfl
  | @closed o hp closed all =>
    have left : PaceOk (v.closed o) := by
      refine h.idle rfl rfl ?_ rfl id (by rw [hp]; rfl)
      rw [View.delivering, View.delivering, View.streams, View.streams, hp]
      exact congrArg _ (List.append_nil _)
    by_cases aborted : (v.closed o).aborted = true
    · rw [View.dropped_aborted aborted]
      exact left.idle rfl rfl rfl rfl id rfl
    · have running : (v.closed o).aborted = false := Bool.eq_false_iff.mpr aborted
      rw [View.dropped_running running]
      exact left.retry running rfl rfl
  | @fire delay hp =>
    obtain ⟨begun, balanced, each, paid⟩ := h
    rw [View.connect]
    split
    · rename_i aborted
      have same : ({ v with waited := v.waited + delay } : View).done.delivering = v.delivering :=
        delivering_eq rfl (by rw [hp]; rfl)
      refine ⟨begun, fun running => absurd (aborted.symm.trans running) (by decide), ?_, ?_⟩
      · exact Nat.le_trans each (Nat.le_add_right _ _)
      · rw [same]
        exact Nat.le_trans paid (Nat.add_le_add_right (Nat.le_add_right _ _) _)
    · -- the retry of the timer is paid
      rename_i running
      have same : ({ v with
          phase := if v.attempt = 0 then .connecting else .reconnecting
          pending := .fetch, fetches := v.fetches + 1, waited := v.waited + delay } :
          View).delivering = v.delivering :=
        delivering_eq rfl (by rw [hp]; rfl)
      have ledger : v.ledger = ⟨v.fetches, v.waited + delay, v.delivering, v.attempt⟩ := by
        rw [View.ledger, hp]
        exact congrArg (Backoff.Ledger.mk · _ _ _) (Nat.sub_add_cancel begun)
      have paidUp := balanced (Bool.eq_false_iff.mpr running)
      rw [ledger] at paidUp
      refine ⟨Nat.succ_pos _, fun _ => ?_, paidUp.each, ?_⟩
      · rw [View.ledger, same]
        exact paidUp
      · rw [same]
        exact paidUp.retries_le cap_le_doubled
  | cleanup =>
    refine h.same rfl rfl (delivering_eq rfl ?_)
      fun running => Bool.noConfusion (show true = false from running)
    cases hp : v.pending <;> simp only [View.cleanup, hp] <;> rfl

theorem paceOk_mounted : PaceOk mounted where
  begun := Nat.one_pos
  balanced := fun _ => Backoff.Ledger.balanced_empty
  each := Nat.zero_le _
  paid := Nat.zero_le _

/-- At most one fetch a second, and after the first few at most one in thirty, unless a
stream delivers something in between. -/
theorem fetches_paced {v : View} (hr : Runs v) :
    v.fetches ≤ 1 + v.waited / reconnectBaseMs ∧
      v.fetches ≤ 1 + doublings * (v.delivering + 1) + v.waited / reconnectMaxMs := by
  have ok : PaceOk v := hr.invariant paceOk_mounted fun h _ hs => h.step hs
  obtain ⟨begun, -, each, paid⟩ := ok
  have base : 0 < reconnectBaseMs := by decide
  have cap : 0 < reconnectMaxMs := by decide
  constructor
  · have := (Nat.le_div_iff_mul_le base).mpr (Nat.mul_comm _ _ ▸ each)
    omega
  · have split : v.waited + reconnectMaxMs * doublings * (v.delivering + 1) =
        v.waited + reconnectMaxMs * (doublings * (v.delivering + 1)) := by
      rw [Nat.mul_assoc]
    rw [split] at paid
    have := (Nat.le_div_iff_mul_le cap).mpr (Nat.mul_comm _ _ ▸ paid)
    rw [Nat.add_mul_div_left _ _ cap] at this
    omega

theorem fetches_paced_reconnected :
    reconnected.fetches ≤ 1 + reconnected.waited / reconnectBaseMs ∧
      reconnected.fetches ≤
        1 + doublings * (reconnected.delivering + 1) + reconnected.waited / reconnectMaxMs :=
  fetches_paced reconnected_run

/-! ## What the phase says -/

/-- What is shown while the effect awaits something, and where it stopped. -/
def Tells (v : View) : Prop :=
  match v.pending with
  | .fetch => v.phase = if v.fetches = 1 then .connecting else .reconnecting
  | .json _ => v.phase = if v.fetches = 1 then .connecting else .reconnecting
  | .events _ => v.phase = .streaming
  | .timer _ => v.phase = .reconnecting
  | .nothing => v.phase = .error ∨
    (v.phase = .ended ∧ ∃ o, v.past.getLast? = some o ∧ (follow o.seen).2 = .ended)

/-- The component shows that the stream is over. -/
def View.Stopped (v : View) : Prop := v.phase = .ended ∨ v.phase = .error

structure PhaseOk (v : View) : Prop where
  tells : v.aborted = false → Tells v
  stopped : v.Stopped → v.pending = .nothing
  calm : v.aborted = true → v.pending.retry = (0, 0)

theorem Tells.stopped {v : View} (h : Tells v) (hs : v.Stopped) : v.pending = .nothing := by
  have connecting : ¬ ((if v.fetches = 1 then Phase.connecting else .reconnecting) = .ended ∨
      (if v.fetches = 1 then Phase.connecting else .reconnecting) = .error) := by
    split <;> simp
  unfold View.Stopped at hs
  unfold Tells at h
  split at h
  · exact absurd (h ▸ hs) connecting
  · exact absurd (h ▸ hs) connecting
  · simp [h] at hs
  · simp [h] at hs
  · assumption

/-- While the view is mounted its phase is told by what it awaits. -/
theorem PhaseOk.of_tells {v : View} (running : v.aborted = false) (h : Tells v) : PhaseOk v :=
  ⟨fun _ => h, h.stopped, fun aborted => absurd (running.symm.trans aborted) (by decide)⟩

/-- After the cleanup nothing is shown any more. -/
theorem PhaseOk.of_aborted {v v' : View} (h : PhaseOk v) (aborted : v'.aborted = true)
    (phase : v'.phase = v.phase) (stays : v.pending = .nothing → v'.pending = .nothing)
    (calm : v'.pending.retry = (0, 0)) : PhaseOk v' := by
  refine ⟨fun running => absurd (aborted.symm.trans running) (by decide), ?_, fun _ => calm⟩
  intro hs
  rw [View.Stopped, phase] at hs
  exact stays (h.stopped hs)

theorem PhaseOk.step {v v' : View} {a : Action} (h : PhaseOk v) (ok : LogOk v) (ok' : LogOk v')
    (hs : v.step a = some v') : PhaseOk v' := by
  have streaming {o : Opened} (running : v.aborted = false) (hp : v.pending = .events o) :
      v.phase = .streaming := by
    have tells := h.tells running
    rwa [Tells, hp] at tells
  cases view_rule hs with
  | ignored aborted hp => exact h.of_aborted aborted rfl (fun _ => rfl) rfl
  | refused running hp => exact .of_tells running rfl
  | unauthorized running hp => exact .of_tells running (Or.inl rfl)
  | refusal running hp =>
    have tells := h.tells running
    rw [Tells, hp] at tells
    exact .of_tells running tells
  | empty running hp => exact .of_tells running (Or.inl rfl)
  | stream running hp ok => exact .of_tells running rfl
  | explained running hp detail => exact .of_tells running (Or.inl rfl)
  | @read o a c hp hset hstep =>
    by_cases aborted : v.aborted = true
    · exact h.of_aborted aborted rfl (fun hn => nomatch hp.symm.trans hn) rfl
    · have running : v.aborted = false := Bool.eq_false_iff.mpr aborted
      exact .of_tells running (streaming running hp)
  | @ended o e c hp he kind hstep =>
    by_cases aborted : v.aborted = true
    · refine h.of_aborted aborted ?_ (fun _ => rfl) rfl
      exact if_pos aborted
    · have running : v.aborted = false := Bool.eq_false_iff.mpr aborted
      obtain ⟨reading, -⟩ := ok.reading o hp
      obtain ⟨-, phase, -⟩ := reading.last he hstep
      have ended : ((v.counted o).finish.closed (o.next c)).phase = .ended := if_neg aborted
      have last : ((v.counted o).finish.closed (o.next c)).past.getLast? = some (o.next c) :=
        List.getLast?_concat
      refine .of_tells running (Or.inr ⟨ended, o.next c, last, ?_⟩)
      rw [phase, follow_end kind]
  | @failed o e c hp he kind hstep =>
    by_cases aborted : v.aborted = true
    · have counted : (v.counted o).aborted = true := aborted
      rw [View.fail_aborted counted]
      exact h.of_aborted aborted rfl (fun _ => rfl) rfl
    · have counted : (v.counted o).aborted = false := Bool.eq_false_iff.mpr aborted
      rw [View.fail_running counted]
      exact .of_tells counted (Or.inl rfl)
  | @line o e c hp he not_end not_error hstep =>
    by_cases aborted : v.aborted = true
    · exact h.of_aborted aborted rfl (fun hn => nomatch hp.symm.trans hn) rfl
    · have running : v.aborted = false := Bool.eq_false_iff.mpr aborted
      exact .of_tells running (streaming running hp)
  | @closed o hp closed all =>
    by_cases aborted : (v.closed o).aborted = true
    · rw [View.dropped_aborted aborted]
      exact h.of_aborted aborted rfl (fun _ => rfl) rfl
    · have running : (v.closed o).aborted = false := Bool.eq_false_iff.mpr aborted
      rw [View.dropped_running running]
      exact .of_tells running rfl
  | @fire delay hp =>
    by_cases aborted : v.aborted = true
    · have calm := h.calm aborted
      rw [hp] at calm
      cases calm
    · have running : v.aborted = false := Bool.eq_false_iff.mpr aborted
      rw [View.connect, if_neg aborted] at ok' ⊢
      have first := ok'.first running rfl
      refine .of_tells running ?_
      simp only [Tells] at first ⊢
      by_cases one : v.attempt = 0
      · rw [if_pos one, if_pos (first.mp one)]
      · rw [if_neg one, if_neg fun h => one (first.mpr h)]
  | cleanup =>
    refine h.of_aborted rfl rfl (fun hn => ?_) ?_
    · simp only [View.cleanup, hn]
    · cases hp : v.pending <;> simp only [View.cleanup, hp] <;> rfl

theorem phaseOk_mounted : PhaseOk mounted := .of_tells rfl rfl

theorem phaseOk {v : View} (hr : Runs v) : PhaseOk v := by
  induction hr with
  | refl => exact phaseOk_mounted
  | step hr _ hs ih => exact ih.step (logOk hr) (logOk (.step hr trivial hs)) hs

/-! ## What can still happen -/

theorem step_of_atYield {c : Connection} (h : c.reader.atYield = true) {a : ReaderAction}
    (ha : a = .leave ∨ a = .pull) : ∃ c', c.step a = some c' := by
  refine Option.isSome_iff_exists.mp ?_
  rcases ha with rfl | rfl <;>
  · cases hr : c.reader with
    | yielded buffer held => simp only [Connection.step, hr, Option.isSome_some]
    | capped held => simp only [Connection.step, hr, Option.isSome_some]
    | tail => simp only [Connection.step, hr, Option.isSome_some]
    | _ => simp [hr, Reader.atYield] at h

theorem handle_of_atYield {v : View} {o : Opened} (h : o.connection.reader.atYield = true)
    (e : SseEvent) : ∃ v', v.handle o e = some v' := by
  obtain ⟨left, hleft⟩ := step_of_atYield h (Or.inl rfl)
  obtain ⟨pulled, hpulled⟩ := step_of_atYield h (Or.inr rfl)
  refine Option.isSome_iff_exists.mp ?_
  unfold View.handle
  dsimp only
  rw [hleft, hpulled]
  split
  · rfl
  · split <;> rfl

/-- The loop gets on: with its event, with its read or with the end. -/
theorem Opened.Reading.enabled {v : View} {o : Opened} (h : o.Reading) (hp : v.pending = .events o) :
    ∃ a, a ≠ .cleanup ∧ ∃ v', v.step a = some v' := by
  cases hr : o.connection.reader with
  | start => exact absurd hr h.started
  | reading buffer =>
    have raised : o.connection.step .raise = some { o.connection with reader := .closed } := by
      simp only [Connection.step, hr]
    exact ⟨.read .raise, Action.noConfusion, _, step_read hp rfl raised⟩
  | closed =>
    have all := h.idle (by rw [hr]; rfl)
    refine ⟨.close, Action.noConfusion, (v.closed o).dropped, ?_⟩
    simp only [View.step, hp]
    rw [if_pos ⟨hr, all.symm⟩]
  | _ =>
    have yields : o.connection.reader.atYield = true := by rw [hr]; rfl
    have turn := h.turn
    rw [if_pos yields] at turn
    have some : o.yielded[o.handled]? = some o.yielded[o.handled] :=
      List.getElem?_eq_getElem (by omega)
    obtain ⟨v', hv⟩ := handle_of_atYield (v := v) yields o.yielded[o.handled]
    refine ⟨.deliver, Action.noConfusion, v', ?_⟩
    simp only [View.step, hp, some]
    exact hv

/-- With nothing to await only the cleanup is left. -/
theorem step_nothing {v : View} (h : v.pending = .nothing) {a : Action} (ha : a ≠ .cleanup) :
    v.step a = none := by
  cases a with
  | cleanup => exact absurd rfl ha
  | _ => simp only [View.step, h]

theorem LogOk.enabled {v : View} (h : LogOk v) (hp : v.pending ≠ .nothing) :
    ∃ a, a ≠ .cleanup ∧ ∃ v', v.step a = some v' := by
  cases pending : v.pending with
  | fetch => exact ⟨.refuse, Action.noConfusion, v.dropped, by simp only [View.step, pending]⟩
  | json message =>
    exact ⟨.json none, Action.noConfusion, v.explained message none, by
      simp only [View.step, pending]⟩
  | events o => exact (h.reading o pending).1.enabled pending
  | timer delay =>
    exact ⟨.fire, Action.noConfusion, ({ v with waited := v.waited + delay } : View).connect, by
      simp only [View.step, pending]⟩
  | nothing => exact absurd pending hp

/-- A mounted view gets on until it shows `ended` or `error`; it shows `streaming` exactly
while a stream is open, and `ended` only behind the event that says so. -/
theorem phase_law {v : View} (hr : Runs v) (running : v.aborted = false) :
    (v.Stopped ↔ ∀ a, a ≠ .cleanup → v.step a = none) ∧
    (v.phase = .streaming ↔ ∃ o, v.pending = .events o) ∧
    (v.phase = .ended → ∃ o, v.past.getLast? = some o ∧ (follow o.seen).2 = .ended) := by
  have ok := phaseOk hr
  have tells := ok.tells running
  have connecting (p : Phase) (hp : p = .streaming ∨ p = .ended) :
      (if v.fetches = 1 then Phase.connecting else .reconnecting) ≠ p := by
    rcases hp with rfl | rfl <;> split <;> exact Phase.noConfusion
  refine ⟨⟨fun hs a ha => step_nothing (ok.stopped hs) ha, fun none => ?_⟩, ⟨fun hs => ?_, ?_⟩,
    fun he => ?_⟩
  · have nothing : v.pending = .nothing := by
      by_contra hp
      obtain ⟨a, ha, v', hv⟩ := (logOk hr).enabled hp
      rw [none a ha] at hv
      cases hv
    rw [Tells, nothing] at tells
    rcases tells with error | ⟨ended, -⟩
    · exact Or.inr error
    · exact Or.inl ended
  · cases hp : v.pending with
    | events o => exact ⟨o, rfl⟩
    | fetch =>
      rw [Tells, hp] at tells
      exact absurd (tells.symm.trans hs) (connecting _ (Or.inl rfl))
    | json message =>
      rw [Tells, hp] at tells
      exact absurd (tells.symm.trans hs) (connecting _ (Or.inl rfl))
    | timer delay =>
      rw [Tells, hp] at tells
      cases tells.symm.trans hs
    | nothing =>
      rw [Tells, hp] at tells
      rcases tells with error | ⟨ended, -⟩
      · cases error.symm.trans hs
      · cases ended.symm.trans hs
  · rintro ⟨o, hp⟩
    rwa [Tells, hp] at tells
  · have nothing := ok.stopped (Or.inl he)
    rw [Tells, nothing] at tells
    rcases tells with error | ⟨-, last⟩
    · cases error.symm.trans he
    · exact last

theorem phase_law_reconnected :
    (reconnected.Stopped ↔ ∀ a, a ≠ .cleanup → reconnected.step a = none) ∧
    (reconnected.phase = .streaming ↔ ∃ o, reconnected.pending = .events o) ∧
    (reconnected.phase = .ended →
      ∃ o, reconnected.past.getLast? = some o ∧ (follow o.seen).2 = .ended) :=
  phase_law reconnected_run rfl

/-! ## After the end and after the cleanup -/

/-- What the component shows besides the lines, and what it has asked of the platform. -/
structure Still (v v' : View) : Prop where
  phase : v'.phase = v.phase
  detail : v'.detail = v.detail
  fetches : v'.fetches = v.fetches
  waited : v'.waited = v.waited
  unauthorized : v'.unauthorized = v.unauthorized

theorem Still.refl (v : View) : Still v v := ⟨rfl, rfl, rfl, rfl, rfl⟩

theorem Still.trans {v v' v'' : View} (h : Still v v') (h' : Still v' v'') : Still v v'' :=
  ⟨h'.phase.trans h.phase, h'.detail.trans h.detail, h'.fetches.trans h.fetches,
    h'.waited.trans h.waited, h'.unauthorized.trans h.unauthorized⟩

theorem still_of_aborted {v v' : View} {a : Action} (aborted : v.aborted = true)
    (calm : v.pending.retry = (0, 0)) (hs : v.step a = some v') :
    Still v v' ∧ v'.aborted = true := by
  have awake (h : v.aborted = false) : False := absurd (aborted.symm.trans h) (by decide)
  cases view_rule hs with
  | ignored => exact ⟨⟨rfl, rfl, rfl, rfl, rfl⟩, aborted⟩
  | refused running => exact (awake running).elim
  | unauthorized running => exact (awake running).elim
  | refusal running => exact (awake running).elim
  | empty running => exact (awake running).elim
  | stream running => exact (awake running).elim
  | explained running => exact (awake running).elim
  | read => exact ⟨⟨rfl, rfl, rfl, rfl, rfl⟩, aborted⟩
  | ended => exact ⟨⟨if_pos aborted, rfl, rfl, rfl, rfl⟩, aborted⟩
  | @failed o e c hp he kind hstep =>
    have counted : (v.counted o).aborted = true := aborted
    rw [View.fail_aborted counted]
    exact ⟨⟨rfl, rfl, rfl, rfl, rfl⟩, aborted⟩
  | line => exact ⟨⟨rfl, rfl, rfl, rfl, rfl⟩, aborted⟩
  | @closed o hp closed all =>
    have left : (v.closed o).aborted = true := aborted
    rw [View.dropped_aborted left]
    exact ⟨⟨rfl, rfl, rfl, rfl, rfl⟩, aborted⟩
  | fire hp =>
    rw [hp] at calm
    cases calm
  | cleanup => exact ⟨⟨rfl, rfl, rfl, rfl, rfl⟩, rfl⟩

theorem still_after_cleanup {v v' : View} (hr : Runs v) (aborted : v.aborted = true)
    (later : Run View.step (fun _ _ => True) v v') : Still v v' ∧ v'.aborted = true := by
  induction later with
  | refl => exact ⟨.refl v, aborted⟩
  | step hrun _ hs ih =>
    have calm := (phaseOk (hr.trans hrun)).calm ih.2
    obtain ⟨still, aborted⟩ := still_of_aborted ih.2 calm hs
    exact ⟨ih.1.trans still, aborted⟩

theorem still_after_stop {v v' : View} (hr : Runs v) (stopped : v.Stopped)
    (later : Run View.step (fun _ _ => True) v v') : Still v v' ∧ v'.lines = v.lines := by
  have nothing := (phaseOk hr).stopped stopped
  have all : (Still v v' ∧ v'.lines = v.lines) ∧ v'.pending = .nothing := by
    induction later with
    | refl => exact ⟨⟨.refl v, rfl⟩, nothing⟩
    | @step c c' a hrun _ hs ih =>
      obtain ⟨⟨still, lines⟩, nothing⟩ := ih
      by_cases ha : a = .cleanup
      · subst ha
        cases hs
        exact ⟨⟨still.trans ⟨rfl, rfl, rfl, rfl, rfl⟩, lines⟩, by
          simp only [View.cleanup, nothing]⟩
      · rw [step_nothing nothing ha] at hs
        cases hs
  exact all.1

/-- After the cleanup nothing but the line of an event still in the generator can come: no
fetch, no timer, no event on the window and no change of what else is shown. A view that
shows `ended` or `error` shows it, and the same lines, for good. -/
theorem still_for_good {v v' : View} (hr : Runs v) (later : Run View.step (fun _ _ => True) v v')
    (quiet : v.aborted = true ∨ v.Stopped) :
    Still v v' ∧ (v.Stopped → v'.lines = v.lines) := by
  refine ⟨?_, fun stopped => (still_after_stop hr stopped later).2⟩
  rcases quiet with aborted | stopped
  · exact (still_after_cleanup hr aborted later).1
  · exact (still_after_stop hr stopped later).1

/-- The cleanup at an open stream, whose read then fails. -/
theorem still_for_good_reconnected :
    ∃ v', v'.pending = .nothing ∧ Still reconnected.cleanup v' ∧
      (reconnected.cleanup.Stopped → v'.lines = reconnected.cleanup.lines) := by
  have run : Run View.step (fun _ _ => True) reconnected.cleanup _ :=
    .step (.step .refl trivial (a := .read .raise) rfl) trivial (a := .close) rfl
  exact ⟨_, rfl, still_for_good (.step reconnected_run trivial (a := .cleanup) rfl) run
    (Or.inl rfl)⟩

end Karr.Frontend.LogView
