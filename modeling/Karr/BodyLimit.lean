import Karr.Api.Middleware
import Karr.Lib.Interleaving

/-!
# Requests within the limit and beyond it

The receive that crosses the limit decides: what the client gets after it depends
only on whether a response had started before it.
-/

set_option autoImplicit false

namespace Karr.Middleware

open Interleaving Python

/-- The body bytes of a message, if it is a request message. -/
def requestBytes (m : Message) : Nat := if m.type = "http.request" then m.body.length else 0

def bytesOf (ms : List Message) : Nat := ms.foldl (fun n m => n + requestBytes m) 0

@[simp] theorem bytesOf_concat (ms : List Message) (m : Message) :
    bytesOf (ms ++ [m]) = bytesOf ms + requestBytes m := by
  simp [bytesOf]

@[simp] theorem requestBytes_disconnect : requestBytes disconnect = 0 := rfl

/-- A message crosses the limit, or it is handed on. -/
theorem countingReceive_cases (maxBytes : Nat) (c : Exchange) (m : Message) :
    (maxBytes < c.total + requestBytes m ∧ m.type = "http.request" ∧
      countingReceive maxBytes c m = { c with
        waiting := c.waiting - 1, pulled := c.pulled ++ [m], total := c.total + requestBytes m
        isOver := true, handed := c.handed ++ [disconnect] }) ∨
    ((m.type = "http.request" → c.total + requestBytes m ≤ maxBytes) ∧
      countingReceive maxBytes c m = { c with
        waiting := c.waiting - 1, pulled := c.pulled ++ [m], total := c.total + requestBytes m
        handed := c.handed ++ [m] }) := by
  unfold countingReceive requestBytes
  by_cases request : m.type = "http.request"
  · simp only [if_pos request]
    by_cases crossing : maxBytes < c.total + m.body.length
    · exact Or.inl ⟨crossing, request, if_pos crossing⟩
    · exact Or.inr ⟨fun _ => Nat.not_lt.mp crossing, if_neg crossing⟩
  · simp only [if_neg request, Nat.add_zero]
    exact Or.inr ⟨fun h => absurd h request, trivial⟩

/-- The variables of the call and what they say about the messages. -/
structure ExchangeOk (maxBytes : Nat) (c : Exchange) : Prop where
  total : c.total = bytesOf c.pulled
  isOver : c.isOver = true ↔ maxBytes < c.total
  handed : bytesOf c.handed ≤ maxBytes
  pulled : c.isOver = false → c.handed = c.pulled
  sent : c.isOver = false → c.outcome = none → c.client = c.sent
  started : c.isOver = false → (c.responseStarted = true ↔ ∃ m ∈ c.sent, isStart m = true)

namespace ExchangeOk
variable {maxBytes : Nat} {c c' : Exchange}

theorem init (maxBytes : Nat) : ExchangeOk maxBytes {} where
  total := rfl
  isOver := by simp
  handed := Nat.zero_le _
  pulled _ := rfl
  sent _ _ := rfl
  started _ := by simp

theorem countingReceive (h : ExchangeOk maxBytes c) (m : Message) :
    ExchangeOk maxBytes (countingReceive maxBytes c m) := by
  have total : c.total + requestBytes m = bytesOf (c.pulled ++ [m]) := by
    rw [bytesOf_concat, h.total]
  rcases countingReceive_cases maxBytes c m with ⟨crossing, -, eq⟩ | ⟨within, eq⟩
  · rw [eq]
    exact {
      total := total
      isOver := iff_of_true rfl crossing
      handed := by
        rw [bytesOf_concat, requestBytes_disconnect]
        exact h.handed
      pulled := fun off => by cases off
      sent := fun off => by cases off
      started := fun off => by cases off }
  · rw [eq]
    have isOver : maxBytes < c.total + requestBytes m ↔ maxBytes < c.total := by
      by_cases request : m.type = "http.request"
      · have := within request
        omega
      · rw [requestBytes, if_neg request, Nat.add_zero]
    refine { h with total := total, isOver := h.isOver.trans isOver.symm, handed := ?_, pulled := ?_ }
    · rw [bytesOf_concat]
      by_cases request : m.type = "http.request"
      · have off : c.isOver = false := by
          refine Bool.eq_false_iff.mpr fun on => ?_
          have := h.isOver.mp on
          have := within request
          omega
        rw [h.pulled off, ← h.total]
        exact within request
      · rw [requestBytes, if_neg request]
        exact h.handed
    · intro off
      exact congrArg (· ++ [m]) (h.pulled off)

theorem trackingSend (h : ExchangeOk maxBytes c) (running : c.outcome = none) (m : Message) :
    ExchangeOk maxBytes (trackingSend c m) := by
  by_cases drop : c.isOver = true ∧ c.responseStarted = false
  · rw [trackingSend_dropped drop.1 drop.2]
    refine { h with sent := ?_, started := ?_ }
    · intro off
      exact absurd drop.1 (Bool.eq_false_iff.mp off)
    · intro off
      exact absurd drop.1 (Bool.eq_false_iff.mp off)
  · rw [trackingSend_forwarded fun on => Bool.ne_false_iff.mp fun quiet => drop ⟨on, quiet⟩]
    refine { h with sent := ?_, started := ?_ }
    · intro off _
      exact congrArg (· ++ [m]) (h.sent off running)
    · intro off
      simp only [Bool.or_eq_true, h.started off, List.mem_append, List.mem_singleton]
      constructor
      · rintro (⟨x, hx, start⟩ | start)
        · exact ⟨x, Or.inl hx, start⟩
        · exact ⟨m, Or.inr rfl, start⟩
      · rintro ⟨x, hx | rfl, start⟩
        · exact Or.inl ⟨x, hx, start⟩
        · exact Or.inr start

theorem step {a : AppAction} (h : ExchangeOk maxBytes c) (hs : appStep maxBytes c a = some c') :
    ExchangeOk maxBytes c' := by
  obtain ⟨running, hs⟩ := appStep_cases hs
  rcases hs with ⟨-, on, rfl⟩ | ⟨-, -, rfl⟩ | ⟨m, -, -, rfl⟩ | ⟨m, -, rfl⟩ | ⟨o, -, rfl⟩
  · refine { h with handed := ?_, pulled := ?_ }
    · rw [bytesOf_concat, requestBytes_disconnect]
      exact h.handed
    · intro off
      exact absurd on (Bool.eq_false_iff.mp off)
  · exact { h with }
  · exact h.countingReceive m
  · exact h.trackingSend running m
  · unfold conclude
    split
    · rename_i on
      split
      all_goals
        refine { h with sent := ?_ }
        intro off
        exact absurd on (Bool.eq_false_iff.mp off)
    · exact { h with sent := fun _ stopped => by cases stopped }

theorem run (h : ExchangeOk maxBytes c)
    (hr : Run (appStep maxBytes) (fun _ _ => True) c c') : ExchangeOk maxBytes c' :=
  hr.invariant h fun hc _ hs => hc.step hs

end ExchangeOk

/-! ## After the crossing receive -/

/-- The limit is crossed in `c`: what the client has got since. -/
structure Crossed (c d : Exchange) : Prop where
  isOver : d.isOver = true
  started : d.responseStarted = c.responseStarted
  quiet : c.responseStarted = false → d.outcome = none → d.client = c.client
  rejected : c.responseStarted = false → d.outcome ≠ none → d.client = c.client ++ rejection
  forwarded : c.responseStarted = true → d.client = d.sent

namespace Crossed
variable {maxBytes : Nat} {c d d' : Exchange}

theorem step {a : AppAction} (h : Crossed c d) (hs : appStep maxBytes d a = some d') :
    Crossed c d' := by
  obtain ⟨running, hs⟩ := appStep_cases hs
  rcases hs with ⟨-, -, rfl⟩ | ⟨-, off, rfl⟩ | ⟨m, -, -, rfl⟩ | ⟨m, -, rfl⟩ | ⟨o, -, rfl⟩
  · exact { h with }
  · exact { h with }
  · rcases countingReceive_cases maxBytes d m with ⟨-, -, eq⟩ | ⟨-, eq⟩
    · rw [eq]
      exact { h with isOver := rfl }
    · rw [eq]
      exact { h with }
  · rcases started : c.responseStarted with _ | _
    · rw [trackingSend_dropped h.isOver (h.started.trans started)]
      exact { h with forwarded := fun on => absurd (started.symm.trans on) Bool.false_ne_true }
    · rw [trackingSend_forwarded fun _ => h.started.trans started]
      have still : (d.responseStarted || isStart m) = c.responseStarted := by
        rw [h.started, started, Bool.true_or]
      exact {
        isOver := h.isOver
        started := still
        quiet := fun off => absurd (off.symm.trans started) Bool.false_ne_true
        rejected := fun off => absurd (off.symm.trans started) Bool.false_ne_true
        forwarded := fun on => congrArg (· ++ [m]) (h.forwarded on) }
  · rw [conclude, if_pos h.isOver]
    rcases started : c.responseStarted with _ | _
    · rw [if_neg (by rw [h.started, started]; exact Bool.false_ne_true)]
      exact {
        isOver := h.isOver
        started := h.started
        quiet := fun _ stopped => by cases stopped
        rejected := fun off _ => congrArg (· ++ rejection) (h.quiet off running)
        forwarded := fun on => absurd (started.symm.trans on) Bool.false_ne_true }
    · rw [if_pos (h.started.trans started)]
      exact { h with
        quiet := fun off => absurd (off.symm.trans started) Bool.false_ne_true
        rejected := fun off => absurd (off.symm.trans started) Bool.false_ne_true }

theorem of_arrive {m : Message} (ok : ExchangeOk maxBytes c) (off : c.isOver = false)
    (hs : appStep maxBytes c (.arrive m) = some d) (on : d.isOver = true) : Crossed c d := by
  obtain ⟨running, rfl⟩ := appStep_arrive hs
  rcases countingReceive_cases maxBytes c m with ⟨-, -, eq⟩ | ⟨-, eq⟩
  · rw [eq]
    exact {
      isOver := rfl
      started := rfl
      quiet := fun _ _ => rfl
      rejected := fun _ stopped => absurd running stopped
      forwarded := fun _ => ok.sent off running }
  · rw [eq] at on
    exact absurd on (Bool.eq_false_iff.mp off)

end Crossed

/-- A run of the application, from its call on. -/
def Exchanged (maxBytes : Nat) (c d : Exchange) : Prop :=
  Run (appStep maxBytes) (fun _ _ => True) c d

/-- What the client and the application get, whatever the application does. -/
theorem bodyLimit_laws (maxBytes : Nat) (scope : Scope) (http : scope.type = "http") :
    (∀ n, contentLength scope = some n → (maxBytes : Int) < n →
      call maxBytes scope = some { client := rejection, outcome := some .returned } ∧
      ∀ a, appStep maxBytes { client := rejection, outcome := some .returned } a = none) ∧
    ((∀ n, contentLength scope = some n → n ≤ (maxBytes : Int)) → call maxBytes scope = some {}) ∧
    ∀ c, Exchanged maxBytes {} c →
      bytesOf c.handed ≤ maxBytes ∧
      (c.isOver = true ↔ maxBytes < bytesOf c.pulled) ∧
      (∀ m c' d o e, c.isOver = false → appStep maxBytes c (.arrive m) = some c' → c'.isOver = true →
        Exchanged maxBytes c' d → appStep maxBytes d (.finish o) = some e →
        ((∀ x ∈ c.sent, isStart x = false) → e.client = c.sent ++ rejection) ∧
        ((∃ x ∈ c.sent, isStart x = true) → e.client = e.sent) ∧ e.outcome = some .returned) ∧
      ∀ o e, c.isOver = false → appStep maxBytes c (.finish o) = some e →
        e.handed = e.pulled ∧ e.client = e.sent ∧ e.outcome = some o := by
  refine ⟨fun n declared above => ⟨?_, fun a => rfl⟩, fun within => ?_, fun c hr => ?_⟩
  · rw [call, if_neg (not_not_intro http), declared]
    exact if_pos above
  · rw [call, if_neg (not_not_intro http)]
    rcases declared : contentLength scope with _ | n
    · rfl
    · exact if_neg (Int.not_lt.mpr (within n declared))
  · have ok := (ExchangeOk.init maxBytes).run hr
    refine ⟨ok.handed, ok.total ▸ ok.isOver, ?_, fun o e off hs => ?_⟩
    · intro m c' d o e off hm on hd hs
      have running := (appStep_arrive hm).1
      have crossed : Crossed c d :=
        hd.invariant (Crossed.of_arrive ok off hm on) fun h _ hs => h.step hs
      have ended := crossed.step hs
      have outcome : e.outcome = some .returned := by
        obtain ⟨-, rfl⟩ := appStep_finish hs
        rw [conclude, if_pos crossed.isOver]
        split <;> rfl
      refine ⟨fun quiet => ?_, fun start => ended.forwarded ((ok.started off).mpr start), outcome⟩
      have none_started : c.responseStarted = false := by
        refine Bool.eq_false_iff.mpr fun started => ?_
        obtain ⟨x, hx, start⟩ := (ok.started off).mp started
        exact Bool.false_ne_true ((quiet x hx).symm.trans start)
      rw [ended.rejected none_started (by rw [outcome]; exact Option.some_ne_none _),
        ok.sent off running]
    · obtain ⟨running, rfl⟩ := appStep_finish hs
      rw [conclude, if_neg (Bool.eq_false_iff.mp off)]
      exact ⟨ok.pulled off, ok.sent off running, rfl⟩

/-- A request for a cap of one byte, and an application that pushes before it reads. -/
def push : Message := { type := "http.response.push" }

def twoBytes : Message := { type := "http.request", fields := [("body", .bytes [0, 1])] }

def pushing : Exchange := { waiting := 1, sent := [push], client := [push] }

theorem exchanged_pushing : Exchanged 1 {} pushing :=
  .step (.step .refl trivial (a := .send push) rfl) trivial (a := .receive) rfl

theorem bodyLimit_laws_pushing :
    (conclude (countingReceive 1 pushing twoBytes) .returned).client = [push] ++ rejection :=
  ((bodyLimit_laws 1 { type := "http" } rfl).2.2 pushing exchanged_pushing).2.2.1 twoBytes _ _
    .returned _ rfl rfl rfl .refl rfl |>.1 (by decide)

/-- A response had not started, so the client would get nothing from the application. -/
def NothingFromApplication : Prop :=
  ∀ (maxBytes : Nat) (c c' d e : Exchange) (m : Message) (o : Outcome), Exchanged maxBytes {} c →
    c.isOver = false → appStep maxBytes c (.arrive m) = some c' → c'.isOver = true →
    Exchanged maxBytes c' d → appStep maxBytes d (.finish o) = some e →
    e.sent.countP isStart ≤ 1 → (∀ x ∈ c.sent, isStart x = false) → e.client = rejection

/-- What it sent before reading stays; and `int` refuses a declared length of 4301 digits. -/
theorem not_nothingFromApplication : ¬ NothingFromApplication ∧
    call 1 { type := "http", headers := [(ascii "Content-Length", List.replicate 4301 57)] } =
      some {} := by
  refine ⟨fun nothing => ?_, ?_⟩
  · have alone := nothing 1 pushing _ _ _ twoBytes .returned exchanged_pushing rfl rfl rfl .refl rfl
      (by decide) (by decide)
    exact absurd alone (by decide)
  · have refused : contentLength { type := "http"
                                   headers := [(ascii "Content-Length", List.replicate 4301 57)] } =
        none := by
      have named : lowerBytes (ascii "Content-Length") = ascii "content-length" := by decide
      simp only [contentLength, List.find?, named, decide_true]
      exact intOfBytes_nines (by decide)
    rw [call, refused]
    rfl

end Karr.Middleware
