import Karr.Api.Stack
import Karr.BodyLimit

/-!
# What every response carries

Whatever the application does, and whichever layer answers in its place (a
preflight, a body too large, an exception): one response start, with each security
header once, and the status the request was counted with.
-/

set_option autoImplicit false

namespace Karr.Middleware

open Interleaving Python

/-! ## One message -/

section Fields
variable {m : Message} {key key' : String} {value : Value}

theorem lookup_map (fields : List (String × Value)) (h : fields.any (fun f => f.1 == key) = true) :
    (fields.map fun f => if f.1 == key then (key, value) else f).lookup key = some value := by
  induction fields with
  | nil => cases h
  | cons f fields ih =>
    rw [List.map_cons]
    by_cases hf : f.1 = key
    · rw [if_pos (beq_iff_eq.mpr hf), List.lookup_cons, beq_self_eq_true]
    · have other : ¬ (f.1 == key) = true := fun h => hf (beq_iff_eq.mp h)
      have apart : (key == f.1) = false := beq_eq_false_iff_ne.mpr fun h => hf h.symm
      rw [if_neg other, List.lookup_cons, apart]
      rw [List.any_cons, Bool.eq_false_iff.mpr other, Bool.false_or] at h
      exact ih h

theorem lookup_map_ne (hk : key' ≠ key) (fields : List (String × Value)) :
    (fields.map fun f => if f.1 == key then (key, value) else f).lookup key' =
      fields.lookup key' := by
  induction fields with
  | nil => rfl
  | cons f fields ih =>
    rw [List.map_cons, List.lookup_cons, List.lookup_cons, ih]
    by_cases hf : f.1 = key
    · have apart : (key' == key) = false := beq_eq_false_iff_ne.mpr hk
      rw [if_pos (beq_iff_eq.mpr hf), apart, hf, apart]
    · rw [if_neg fun h => hf (beq_iff_eq.mp h)]

theorem lookup_setItem (m : Message) (key : String) (value : Value) :
    (m.setItem key value).fields.lookup key = some value := by
  unfold Message.setItem
  dsimp only
  split
  · rename_i h
    exact lookup_map m.fields h
  · rename_i h
    have none : m.fields.lookup key = none := by
      rw [List.lookup_eq_none_iff]
      intro f hf
      have := mt (List.any_eq_true.mpr) h
      push Not at this
      exact bne_iff_ne.mpr fun hk => this f hf (beq_iff_eq.mpr hk.symm)
    rw [List.lookup_append, none, Option.none_or, List.lookup_cons, beq_self_eq_true]

theorem lookup_setItem_ne (hk : key' ≠ key) :
    (m.setItem key value).fields.lookup key' = m.fields.lookup key' := by
  unfold Message.setItem
  dsimp only
  split
  · exact lookup_map_ne hk m.fields
  · have apart : (key' == key) = false := beq_eq_false_iff_ne.mpr hk
    rw [List.lookup_append, List.lookup_cons, apart, List.lookup_nil, Option.or_none]

theorem headers_setItem (m : Message) (hs : Headers) :
    (m.setItem "headers" (.headers hs)).headers = hs := by
  rw [Message.headers, lookup_setItem]

theorem status_setItem (m : Message) (hs : Headers) :
    (m.setItem "headers" (.headers hs)).status = m.status := by
  rw [Message.status, lookup_setItem_ne (by decide), Message.status]

end Fields

section Names
variable {enableHsts : Bool} {h : List UInt8 × List UInt8}

theorem lower_pair (hh : h ∈ securityHeaderPairs enableHsts) : lowerBytes h.1 = h.1 := by
  revert h
  cases enableHsts <;> decide

theorem names_nodup (enableHsts : Bool) : ((securityHeaderPairs enableHsts).map Prod.fst).Nodup := by
  cases enableHsts <;> decide

theorem names_append (hs hs' : Headers) : names (hs ++ hs') = names hs ++ names hs' :=
  List.map_append

theorem names_extra (enableHsts : Bool) (hs : Headers) : names (extra enableHsts hs) =
    ((securityHeaderPairs enableHsts).map Prod.fst).filter fun k => !(names hs).contains k := by
  rw [List.filter_map, names, extra]
  refine List.map_congr_left fun h hh => lower_pair (List.mem_of_mem_filter hh)

/-- A security header is added exactly where it is missing. -/
theorem count_names (hs : Headers) (hh : h ∈ securityHeaderPairs enableHsts) :
    (names (hs ++ extra enableHsts hs)).count h.1 = max 1 ((names hs).count h.1) := by
  have one : ((securityHeaderPairs enableHsts).map Prod.fst).count h.1 = 1 :=
    List.count_eq_one_of_mem (names_nodup enableHsts) (List.mem_map_of_mem hh)
  rw [names_append, List.count_append, names_extra]
  by_cases there : h.1 ∈ names hs
  · have some := List.count_pos_iff.mpr there
    have absent : h.1 ∉ ((securityHeaderPairs enableHsts).map Prod.fst).filter
        fun k => !(names hs).contains k := by
      intro kept
      have := (List.mem_filter.mp kept).2
      simp [there] at this
    rw [List.count_eq_zero.mpr absent]
    omega
  · rw [List.count_filter (by simp [there]), one, List.count_eq_zero.mpr there]
    rfl

end Names

/-- The first value under a name. -/
def valueOf (hs : Headers) (name : List UInt8) : Option (List UInt8) :=
  (hs.find? fun h => lowerBytes h.1 == name).map Prod.snd

/-- A response start with each security header, once where the layers below set none of them,
and then with the value that is meant. -/
structure Secured (enableHsts : Bool) (before after : Message) : Prop where
  once : ∀ h ∈ securityHeaderPairs enableHsts,
    (names after.headers).count h.1 = max 1 ((names before.headers).count h.1)
  value : ∀ h ∈ securityHeaderPairs enableHsts, h.1 ∉ names before.headers →
    valueOf after.headers h.1 = some h.2
  kept : before.headers <+: after.headers
  status : after.status = before.status

theorem value_extra {enableHsts : Bool} {hs : Headers} {h : List UInt8 × List UInt8}
    (hh : h ∈ securityHeaderPairs enableHsts) (absent : h.1 ∉ names hs) :
    valueOf (hs ++ extra enableHsts hs) h.1 = some h.2 := by
  have skipped : hs.find? (fun g => lowerBytes g.1 == h.1) = none := by
    rw [List.find?_eq_none]
    intro g hg same
    exact absent (List.mem_map.mpr ⟨g, hg, beq_iff_eq.mp same⟩)
  have kept : h ∈ extra enableHsts hs := by
    refine List.mem_filter.mpr ⟨hh, ?_⟩
    simp [absent]
  rw [valueOf, List.find?_append, skipped, Option.none_or]
  cases found : (extra enableHsts hs).find? fun g => lowerBytes g.1 == h.1 with
  | none =>
    have := List.find?_eq_none.mp found h kept
    rw [lower_pair hh] at this
    exact absurd (beq_self_eq_true _) this
  | some g =>
    -- the names of the pairs differ
    have hg := List.mem_of_mem_filter (List.mem_of_find?_eq_some found)
    have same : lowerBytes g.1 = h.1 := by simpa using List.find?_some found
    rw [lower_pair hg] at same
    have := List.inj_on_of_nodup_map (names_nodup enableHsts) hg hh same
    rw [this]
    rfl

theorem secured_sendWithHeaders (enableHsts : Bool) {m : Message} (h : isStart m = true) :
    Secured enableHsts m (sendWithHeaders enableHsts m) := by
  rw [sendWithHeaders, if_pos h]
  refine ⟨fun g hg => ?_, fun g hg absent => ?_, ?_, status_setItem m _⟩
  · rw [headers_setItem]
    exact count_names m.headers hg
  · rw [headers_setItem]
    exact value_extra hg absent
  · rw [headers_setItem]
    exact List.prefix_append _ _

theorem isStart_sendWithHeaders (enableHsts : Bool) (m : Message) :
    isStart (sendWithHeaders enableHsts m) = isStart m := by
  unfold sendWithHeaders
  split <;> rfl

/-! ## The starts of an exchange -/

structure StartsOk (c : Exchange) : Prop where
  started : c.outcome = none → (c.responseStarted = true ↔ 0 < c.client.countP isStart)
  origin : ∀ m ∈ c.client, m ∈ c.sent ∨ m ∈ rejection
  passed : c.isOver = false → c.sent.countP isStart ≤ c.client.countP isStart
  crossed : c.client.countP isStart ≤ max 1 (c.sent.countP isStart)
  running : c.outcome = none → c.client.countP isStart ≤ c.sent.countP isStart
  answered : c.outcome ≠ none → c.isOver = true → 0 < c.client.countP isStart
  raised : ∀ exception, c.outcome = some (.raised exception) → c.isOver = false

namespace StartsOk
variable {maxBytes : Nat} {c c' : Exchange}

theorem init : StartsOk {} where
  started _ := by decide
  origin _ h := nomatch h
  passed _ := Nat.le_refl _
  crossed := by decide
  running _ := Nat.le_refl _
  answered h := absurd rfl h
  raised _ h := nomatch h

/-- The answer to a declared length beyond the limit. -/
theorem rejected : StartsOk { client := rejection, outcome := some .returned } where
  started h := nomatch h
  origin _ h := Or.inr h
  passed _ := Nat.zero_le _
  crossed := by decide
  running h := nomatch h
  answered _ h := nomatch h
  raised _ h := nomatch h

/-- A receive tells the client nothing. -/
theorem receive (h : StartsOk c) (running : c.outcome = none) (client : c'.client = c.client)
    (sent : c'.sent = c.sent) (outcome : c'.outcome = none)
    (started : c'.responseStarted = c.responseStarted)
    (kept : c'.isOver = false → c.isOver = false) : StartsOk c' where
  started _ := by
    rw [started, client]
    exact h.started running
  origin m := by
    rw [client, sent]
    exact h.origin m
  passed off := by
    rw [client, sent]
    exact h.passed (kept off)
  crossed := by
    rw [client, sent]
    exact h.crossed
  running _ := by
    rw [client, sent]
    exact h.running running
  answered stopped := absurd outcome stopped
  raised _ stopped := by
    rw [outcome] at stopped
    cases stopped

theorem send (h : StartsOk c) (running : c.outcome = none) (m : Message) :
    StartsOk (trackingSend c m) := by
  have started := h.started running
  have fewer := h.running running
  by_cases drop : c.isOver = true ∧ c.responseStarted = false
  · rw [trackingSend_dropped drop.1 drop.2]
    have more : c.client.countP isStart ≤ (c.sent ++ [m]).countP isStart := by
      rw [List.countP_append]
      omega
    refine ⟨fun _ => started, fun x hx => ?_, fun off => ?_, ?_, fun _ => more,
      fun stopped => absurd running stopped, fun _ stopped => ?_⟩
    · exact (h.origin x hx).imp_left (List.mem_append_left _)
    · exact absurd (drop.1.symm.trans off) (by decide)
    · exact Nat.le_trans more (Nat.le_max_right _ _)
    · exact nomatch running.symm.trans stopped
  · rw [trackingSend_forwarded fun on => Bool.ne_false_iff.mp fun quiet => drop ⟨on, quiet⟩]
    have more : (c.client ++ [m]).countP isStart ≤ (c.sent ++ [m]).countP isStart := by
      rw [List.countP_append, List.countP_append]
      omega
    refine ⟨fun _ => ?_, fun x hx => ?_, fun off => ?_, ?_, fun _ => more,
      fun stopped => absurd running stopped, fun _ stopped => ?_⟩
    · dsimp only
      rw [Bool.or_eq_true, started, List.countP_append, List.countP_singleton]
      split
      · rename_i start
        simp [start]
      · rename_i quiet
        simp [quiet]
    · rcases List.mem_append.mp hx with hx | hx
      · exact (h.origin x hx).imp_left (List.mem_append_left _)
      · exact Or.inl (List.mem_append_right _ hx)
    · have := h.passed off
      dsimp only
      rw [List.countP_append, List.countP_append]
      omega
    · exact Nat.le_trans more (Nat.le_max_right _ _)
    · exact nomatch running.symm.trans stopped

theorem finish (h : StartsOk c) (running : c.outcome = none) (o : Outcome) :
    StartsOk (conclude c o) := by
  have started := h.started running
  unfold conclude
  split
  · rename_i on
    split
    · rename_i start
      refine ⟨fun stopped => (nomatch stopped), h.origin, fun off => ?_, h.crossed,
        fun stopped => (nomatch stopped), fun _ _ => started.mp start,
        fun _ stopped => nomatch stopped⟩
      exact absurd (on.symm.trans off) (by decide)
    · rename_i quiet
      have none : c.client.countP isStart = 0 := by
        have := mt started.mpr quiet
        omega
      have one : (c.client ++ rejection).countP isStart = 1 := by
        rw [List.countP_append, none]
        rfl
      refine ⟨fun stopped => (nomatch stopped), fun x hx => ?_, fun off => ?_, ?_,
        fun stopped => (nomatch stopped), fun _ _ => ?_, fun _ stopped => nomatch stopped⟩
      · rcases List.mem_append.mp hx with hx | hx
        · exact h.origin x hx
        · exact Or.inr hx
      · exact absurd (on.symm.trans off) (by decide)
      · dsimp only
        rw [one]
        exact Nat.le_max_left _ _
      · dsimp only
        rw [one]
        exact Nat.one_pos
  · rename_i off
    exact ⟨fun stopped => (nomatch stopped), h.origin, h.passed, h.crossed,
      fun stopped => (nomatch stopped), fun _ on => absurd on off, fun _ _ => Bool.eq_false_iff.mpr off⟩

theorem step {a : AppAction} (h : StartsOk c) (hs : appStep maxBytes c a = some c') :
    StartsOk c' := by
  obtain ⟨running, hs⟩ := appStep_cases hs
  rcases hs with ⟨-, on, rfl⟩ | ⟨-, -, rfl⟩ | ⟨m, -, -, rfl⟩ | ⟨m, -, rfl⟩ | ⟨o, -, rfl⟩
  · exact h.receive running rfl rfl running rfl id
  · exact h.receive running rfl rfl running rfl id
  · rcases countingReceive_cases maxBytes c m with ⟨-, -, eq⟩ | ⟨-, eq⟩
    · rw [eq]
      exact h.receive running rfl rfl running rfl fun off => nomatch off
    · rw [eq]
      exact h.receive running rfl rfl running rfl id
  · exact h.send running m
  · exact h.finish running o

/-- From the call of the middleware on. -/
theorem run {scope : Scope} (hc : call maxBytes scope = some c)
    (hr : Run (appStep maxBytes) (fun _ _ => True) c c') : StartsOk c' := by
  refine hr.invariant ?_ fun h _ hs => h.step hs
  unfold call at hc
  split at hc
  · cases hc
  · split at hc
    · split at hc <;> cases hc
      · exact .rejected
      · exact .init
    · cases hc
      exact .init

end StartsOk

/-! ## The status -/

theorem foldl_quiet {ms : List Message} (h : ms.countP isStart = 0) (status : Int) :
    ms.foldl (fun status m => if isStart m then m.status.getD status else status) status =
      status := by
  induction ms generalizing status with
  | nil => rfl
  | cons m ms ih =>
    rw [List.countP_cons] at h
    have quiet : ¬ isStart m = true := by
      intro start
      rw [if_pos start] at h
      omega
    rw [List.foldl_cons, if_neg quiet]
    exact ih (by omega) status

theorem recorded_of_none {ms : List Message} (h : ms.countP isStart = 0) : recorded ms = 500 :=
  foldl_quiet h 500

theorem recorded_of_one {ms : List Message} {m : Message} {n : Int} (hm : m ∈ ms)
    (start : isStart m = true) (one : ms.countP isStart ≤ 1) (status : m.status = some n) :
    recorded ms = n := by
  obtain ⟨before, after, rfl⟩ := List.append_of_mem hm
  rw [List.countP_append, List.countP_cons, if_pos start] at one
  have first : before.countP isStart = 0 := by omega
  have last : after.countP isStart = 0 := by omega
  rw [recorded, List.foldl_append, foldl_quiet first, List.foldl_cons, if_pos start, status]
  exact foldl_quiet last n

/-! ## The answer of the error layer -/

/-- With names in lower case, as the responses of the framework have them. -/
def Lower (hs : Headers) : Prop := ∀ h ∈ hs, lowerBytes h.1 = h.1

/-- `headers[name] = value` as the framework documents it. -/
structure Assigns (set : Headers → List UInt8 → List UInt8 → Headers) : Prop where
  lower : ∀ {hs name} value, Lower hs → lowerBytes name = name → Lower (set hs name value)
  value : ∀ {hs name} value, Lower hs → lowerBytes name = name → ∀ name',
    valueOf (set hs name value) name' = if name' = name then some value else valueOf hs name'

theorem names_corsHeadersFor (origin : Option (List UInt8)) (allowed : List (List UInt8)) :
    (corsHeadersFor origin allowed).map Prod.fst = [] ∨
      (corsHeadersFor origin allowed).map Prod.fst =
        [ascii "access-control-allow-origin", ascii "vary"] := by
  unfold corsHeadersFor
  split
  · split
    · exact Or.inr rfl
    · exact Or.inl rfl
  · exact Or.inl rfl

theorem lower_corsHeadersFor (origin : Option (List UInt8)) (allowed : List (List UInt8)) :
    Lower (corsHeadersFor origin allowed) := by
  have all : ∀ name ∈ (corsHeadersFor origin allowed).map Prod.fst, lowerBytes name = name := by
    rcases names_corsHeadersFor origin allowed with eq | eq <;> rw [eq] <;> decide
  exact fun h hh => all h.1 (List.mem_map_of_mem hh)

/-- Neither layer's names come twice in the answer. -/
theorem distinct_answer (enableHsts : Bool) (origin : Option (List UInt8))
    (allowed : List (List UInt8)) :
    ((securityHeaderPairs enableHsts ++ corsHeadersFor origin allowed).map Prod.fst).Nodup := by
  rw [List.map_append]
  rcases names_corsHeadersFor origin allowed with eq | eq <;> rw [eq] <;>
    cases enableHsts <;> decide

section Unhandled
variable {set : Headers → List UInt8 → List UInt8 → Headers} (law : Assigns set)
include law

theorem valueOf_foldl_ne {ps base : Headers} (lower : Lower ps) (lowerBase : Lower base)
    {name : List UInt8} (h : name ∉ ps.map Prod.fst) :
    valueOf (ps.foldl (fun hs p => set hs p.1 p.2) base) name = valueOf base name := by
  induction ps generalizing base with
  | nil => rfl
  | cons p ps ih =>
    rw [List.map_cons, List.mem_cons, not_or] at h
    have first : lowerBytes p.1 = p.1 := lower p List.mem_cons_self
    have rest : Lower ps := fun q hq => lower q (List.mem_cons_of_mem _ hq)
    rw [List.foldl_cons, ih rest (law.lower p.2 lowerBase first) h.2,
      law.value p.2 lowerBase first, if_neg h.1]

theorem valueOf_foldl {ps base : Headers} (lower : Lower ps) (lowerBase : Lower base)
    (distinct : (ps.map Prod.fst).Nodup) {p : List UInt8 × List UInt8} (hp : p ∈ ps) :
    valueOf (ps.foldl (fun hs p => set hs p.1 p.2) base) p.1 = some p.2 := by
  induction ps generalizing base with
  | nil => cases hp
  | cons q ps ih =>
    rw [List.map_cons, List.nodup_cons] at distinct
    have first : lowerBytes q.1 = q.1 := lower q List.mem_cons_self
    have rest : Lower ps := fun r hr => lower r (List.mem_cons_of_mem _ hr)
    have lowerSet := law.lower q.2 lowerBase first
    rw [List.foldl_cons]
    rcases List.mem_cons.mp hp with rfl | hp
    · rw [valueOf_foldl_ne law rest lowerSet distinct.1, law.value p.2 lowerBase first, if_pos rfl]
    · exact ih rest lowerSet distinct.2 hp

theorem unhandled_carries {base : Headers} (lowerBase : Lower base) (enableHsts : Bool)
    (origin : Option (List UInt8)) (allowed : List (List UInt8)) :
    ∀ h ∈ securityHeaderPairs enableHsts ++ corsHeadersFor origin allowed,
      valueOf (unhandledHeaders set base enableHsts origin allowed) h.1 = some h.2 := by
  intro h hh
  have lower : Lower (securityHeaderPairs enableHsts ++ corsHeadersFor origin allowed) := by
    intro p hp
    rcases List.mem_append.mp hp with hp | hp
    · exact lower_pair hp
    · exact lower_corsHeadersFor origin allowed p hp
  exact valueOf_foldl law lower lowerBase (distinct_answer enableHsts origin allowed) hh

end Unhandled

/-! ## The response -/

/-- What the CORS layer is documented to leave alone: it adds headers. -/
structure AddsHeaders (c : Cors) : Prop where
  type : ∀ scope m, (c.simple scope m).type = m.type
  status : ∀ scope m, (c.simple scope m).status = m.status

section Cors
variable {cors : Option Cors} (adds : ∀ c ∈ cors, AddsHeaders c)
include adds

theorem isStart_cors (scope : Scope) (m : Message) :
    isStart (corsMessage cors scope m) = isStart m := by
  unfold corsMessage
  split
  · split
    · rw [isStart, isStart, (adds _ rfl).type]
    · rfl
  · rfl

theorem status_cors (scope : Scope) (m : Message) :
    (corsMessage cors scope m).status = m.status := by
  unfold corsMessage
  split
  · split
    · exact (adds _ rfl).status scope m
    · rfl
  · rfl

theorem countP_cors (scope : Scope) (ms : List Message) :
    (ms.map (corsMessage cors scope)).countP isStart = ms.countP isStart := by
  rw [List.countP_map]
  refine List.countP_congr fun m _ => ?_
  rw [Function.comp_apply, isStart_cors adds]

end Cors

theorem countP_passed (enableHsts : Bool) (ms : List Message) :
    (ms.map (sendWithHeaders enableHsts)).countP isStart = ms.countP isStart := by
  rw [List.countP_map]
  refine List.countP_congr fun m _ => ?_
  rw [Function.comp_apply, isStart_sendWithHeaders]

theorem rejection_status : ∀ m ∈ rejection, isStart m = true → m.status.isSome = true := by
  decide

/-- What has to be known of what comes up: at most one start, with a status, and one if a
layer below the request log answered or the application did. -/
structure UpOk (x : Option Exchange) (up : List Message) (o : Outcome) : Prop where
  once : up.countP isStart ≤ 1
  statuses : ∀ m ∈ up, isStart m = true → m.status.isSome = true
  answered : (x = none ∨ ∃ e ∈ x, e.isOver = true ∨ ∃ m ∈ e.sent, isStart m = true) →
    0 < up.countP isStart

theorem upOk {maxBytes : Nat} {cors : Option Cors} (adds : ∀ c ∈ cors, AddsHeaders c)
    {method : String} {scope : Scope} {x : Option Exchange} {up : List Message} {o : Outcome}
    (h : Upward maxBytes cors method scope x up o)
    (once : ∀ e ∈ x, e.sent.countP isStart ≤ 1)
    (statuses : ∀ e ∈ x, ∀ m ∈ e.sent, isStart m = true → m.status.isSome = true) :
    UpOk x up o := by
  cases h with
  | @preflight c installed =>
    refine ⟨Nat.le_refl 1, fun m hm start => ?_, fun _ => Nat.one_pos⟩
    rcases List.mem_cons.mp hm with rfl | hm
    · rfl
    · rw [List.mem_singleton.mp hm] at start
      cases start
  | @below c e o _ called hr ended =>
    have ok := StartsOk.run called hr
    have most := ok.crossed
    have one := once e rfl
    refine ⟨?_, fun m hm start => ?_, fun answered => ?_⟩
    · rw [countP_cors adds]
      omega
    · obtain ⟨n, hn, rfl⟩ := List.mem_map.mp hm
      rw [isStart_cors adds] at start
      rw [status_cors adds]
      rcases ok.origin n hn with hs | hs
      · exact statuses e rfl n hs start
      · exact rejection_status n hs start
    · have stopped : e.outcome ≠ none := by rw [ended]; exact Option.some_ne_none o
      rw [countP_cors adds]
      obtain ⟨e', he, answered⟩ := answered.resolve_left (Option.some_ne_none e)
      cases he
      rcases answered with isOver | ⟨m, hm, start⟩
      · exact ok.answered stopped isOver
      · have sent := List.countP_pos_iff.mpr ⟨m, hm, start⟩
        by_cases isOver : e.isOver = true
        · exact ok.answered stopped isOver
        · exact Nat.lt_of_lt_of_le sent (ok.passed (Bool.eq_false_iff.mpr isOver))

/-- Either the layers below the error layer started a response, or that layer did. -/
theorem served_cases (enableHsts : Bool) (onError up : List Message) (o : Outcome) :
    (served enableHsts onError up o = up.map (sendWithHeaders enableHsts) ∧
        ((∃ exception, o = .raised exception) → 0 < up.countP isStart)) ∨
      (up.countP isStart = 0 ∧ (∃ exception, o = .raised exception) ∧
        served enableHsts onError up o = up.map (sendWithHeaders enableHsts) ++ onError) := by
  unfold served
  cases o with
  | returned => exact Or.inl ⟨rfl, fun ⟨_, raised⟩ => nomatch raised⟩
  | raised exception =>
    dsimp only
    split
    · rename_i start
      obtain ⟨m, hm, hs⟩ := List.any_eq_true.mp start
      exact Or.inl ⟨rfl, fun _ => List.countP_pos_iff.mpr ⟨m, hm, hs⟩⟩
    · rename_i quiet
      refine Or.inr ⟨?_, ⟨exception, rfl⟩, rfl⟩
      rw [List.countP_eq_zero]
      exact fun m hm start => quiet (List.any_eq_true.mpr ⟨m, hm, start⟩)

/-- A start the client gets from below carries the status that is counted. -/
theorem passed_start {enableHsts : Bool} {x : Option Exchange} {up : List Message} {o : Outcome}
    (ok : UpOk x up o) {m : Message} (hm : m ∈ up.map (sendWithHeaders enableHsts))
    (start : isStart m = true) : m.status = some (recorded up) ∧
      ∃ below ∈ up, isStart below = true ∧ Secured enableHsts below m := by
  obtain ⟨below, hb, rfl⟩ := List.mem_map.mp hm
  rw [isStart_sendWithHeaders] at start
  obtain ⟨n, status⟩ := Option.isSome_iff_exists.mp (ok.statuses below hb start)
  have secured := secured_sendWithHeaders enableHsts start
  refine ⟨?_, below, hb, start, secured⟩
  rw [secured.status, status, recorded_of_one hb start ok.once status]

/-- Whoever answers an http request, of an application that starts at most one response: the
client gets at most one, and one if the CORS layer answered a preflight, or the application
started one, raised or was cut off. It has the status that was counted, and each security
header, with the value that is meant unless the layers below set their own. The 500 of the
error layer, which comes where an exception is raised and nothing has started, has each of
them and the CORS headers. -/
theorem response_law {maxBytes : Nat} {cors : Option Cors} (adds : ∀ c ∈ cors, AddsHeaders c)
    {method : String} {scope : Scope} {x : Option Exchange} {up : List Message} {o : Outcome}
    (enableHsts : Bool) (set : Headers → List UInt8 → List UInt8 → Headers) (law : Assigns set)
    (base : Headers) (lowerBase : Lower base) (origin : Option (List UInt8))
    (allowed : List (List UInt8)) (h : Upward maxBytes cors method scope x up o)
    (once : ∀ e ∈ x, e.sent.countP isStart ≤ 1)
    (statuses : ∀ e ∈ x, ∀ m ∈ e.sent, isStart m = true → m.status.isSome = true) :
    let onError := unhandled (unhandledHeaders set base enableHsts origin allowed)
    let out := served enableHsts onError up o
    out.countP isStart ≤ 1 ∧
    ((x = none ∨ (∃ exception, o = .raised exception) ∨
        ∃ e ∈ x, e.isOver = true ∨ ∃ m ∈ e.sent, isStart m = true) →
      out.countP isStart = 1) ∧
    ∀ m ∈ out, isStart m = true → m.status = some (recorded up) ∧
      ((∃ below ∈ up, isStart below = true ∧ Secured enableHsts below m) ∨
        (up.countP isStart = 0 ∧ (∃ exception, o = .raised exception) ∧ m ∈ onError ∧
          ∀ h ∈ securityHeaderPairs enableHsts ++ corsHeadersFor origin allowed,
            valueOf m.headers h.1 = some h.2)) := by
  intro onError out
  have ok := upOk adds h once statuses
  have most := ok.once
  rcases served_cases enableHsts onError up o with ⟨eq, started⟩ | ⟨quiet, raised, eq⟩
  · have count : out.countP isStart = up.countP isStart := by
      rw [show out = _ from eq, countP_passed]
    refine ⟨by omega, fun answered => ?_, fun m hm start => ?_⟩
    · -- a start has gone out, or the error layer would have answered
      have some : 0 < up.countP isStart := by
        rcases answered with whole | raised | below
        · exact ok.answered (Or.inl whole)
        · exact started raised
        · exact ok.answered (Or.inr below)
      omega
    · rw [show out = _ from eq] at hm
      exact (passed_start ok hm start).imp_right Or.inl
  · have count : out.countP isStart = 1 := by
      rw [show out = _ from eq, List.countP_append, countP_passed, quiet]
      rfl
    refine ⟨Nat.le_of_eq count, fun _ => count, fun m hm start => ?_⟩
    rw [show out = _ from eq] at hm
    rcases List.mem_append.mp hm with hm | hm
    · exact (passed_start ok hm start).imp_right Or.inl
    · have answer := hm
      rcases List.mem_cons.mp hm with rfl | hm
      · rw [recorded_of_none quiet]
        exact ⟨rfl, Or.inr ⟨quiet, raised, answer,
          unhandled_carries law lowerBase enableHsts origin allowed⟩⟩
      · rw [List.mem_singleton.mp hm] at start
        cases start

/-- An assignment as the framework makes it: the first header of the name is replaced and the
others go, or one is appended. -/
def assign : Headers → List UInt8 → List UInt8 → Headers
  | [], name, value => [(name, value)]
  | h :: hs, name, value =>
    if h.1 = name then (name, value) :: hs.filter fun h => h.1 != name
    else h :: assign hs name value

theorem lower_assign {hs : Headers} {name : List UInt8} (value : List UInt8) (lower : Lower hs)
    (lowerName : lowerBytes name = name) : Lower (assign hs name value) := by
  induction hs with
  | nil =>
    intro h hh
    rw [List.mem_singleton.mp hh]
    exact lowerName
  | cons g hs ih =>
    intro h hh
    rw [assign] at hh
    split at hh
    · rcases List.mem_cons.mp hh with rfl | hh
      · exact lowerName
      · exact lower h (List.mem_cons_of_mem _ (List.mem_of_mem_filter hh))
    · rcases List.mem_cons.mp hh with rfl | hh
      · exact lower h List.mem_cons_self
      · exact ih (fun x hx => lower x (List.mem_cons_of_mem _ hx)) h hh

theorem valueOf_cons (h : List UInt8 × List UInt8) (hs : Headers) (name : List UInt8) :
    valueOf (h :: hs) name = if lowerBytes h.1 = name then some h.2 else valueOf hs name := by
  rw [valueOf, List.find?_cons]
  by_cases same : lowerBytes h.1 = name
  · rw [if_pos same, beq_iff_eq.mpr same]
    rfl
  · rw [if_neg same, beq_eq_false_iff_ne.mpr same]
    rfl

theorem valueOf_filter {hs : Headers} (lower : Lower hs) {name name' : List UInt8}
    (other : name' ≠ name) :
    valueOf (hs.filter fun h => h.1 != name) name' = valueOf hs name' := by
  induction hs with
  | nil => rfl
  | cons h hs ih =>
    have rest : Lower hs := fun x hx => lower x (List.mem_cons_of_mem _ hx)
    rw [valueOf_cons, lower h List.mem_cons_self]
    by_cases same : h.1 = name
    · rw [List.filter_cons_of_neg (by simp [same]), ih rest,
        if_neg fun eq => other (eq.symm.trans same)]
    · rw [List.filter_cons_of_pos (by simp [same]), valueOf_cons, lower h List.mem_cons_self,
        ih rest]

theorem assigns_assign : Assigns assign where
  lower value lower lowerName := lower_assign value lower lowerName
  value {hs name} value lower lowerName name' := by
    induction hs with
    | nil =>
      rw [assign, valueOf_cons, lowerName]
      exact if_congr eq_comm rfl rfl
    | cons h hs ih =>
      have rest : Lower hs := fun x hx => lower x (List.mem_cons_of_mem _ hx)
      rw [assign]
      split
      · rename_i same
        rw [valueOf_cons, valueOf_cons, lower h List.mem_cons_self, lowerName, same]
        by_cases hn : name' = name
        · rw [if_pos hn.symm, if_pos hn]
        · rw [if_neg (Ne.symm hn), if_neg hn, if_neg (Ne.symm hn), valueOf_filter rest hn]
      · rename_i other
        rw [valueOf_cons, valueOf_cons, ih rest, lower h List.mem_cons_self]
        by_cases hn : name' = name
        · rw [if_pos hn, if_pos hn, if_neg fun eq => other (eq.trans hn)]
        · rw [if_neg hn, if_neg hn]

/-- A layer that adds nothing, and answers a preflight with a refusal. -/
def plainCors : Cors where
  preflight _ := ⟨400, [(ascii "vary", ascii "Origin")], ascii "Disallowed CORS origin"⟩
  simple _ m := m

def preflightScope : Scope where
  type := "http"
  headers := [(ascii "origin", ascii "http://a"),
    (ascii "access-control-request-method", ascii "POST")]

/-- An application that raises at once, and a preflight, which does not reach it. -/
theorem response_law_raising :
    (served true (unhandled (unhandledHeaders assign [] true none [])) []
      (.raised "RuntimeError")).countP isStart = 1 ∧
    (served true (unhandled (unhandledHeaders assign [] true none []))
      (plainCors.preflight preflightScope).messages .returned).countP isStart = 1 := by
  have called : call maxBodyBytes { type := "http" } = some {} := rfl
  have hr : Run (appStep maxBodyBytes) (fun _ _ => True) {}
      { outcome := some (.raised "RuntimeError") } :=
    .step .refl (a := .finish (.raised "RuntimeError")) trivial rfl
  have raising : Upward maxBodyBytes none "GET" { type := "http" } _ _ _ :=
    .below (Or.inl rfl) called hr rfl
  have preflight : Upward maxBodyBytes (some plainCors) "OPTIONS" preflightScope _ _ _ :=
    .preflight rfl rfl (by decide)
  have adds : AddsHeaders plainCors := ⟨fun _ _ => rfl, fun _ _ => rfl⟩
  refine ⟨(response_law ?_ true assign assigns_assign [] (fun _ h => nomatch h) none [] raising
      ?_ ?_).2.1 (Or.inr (Or.inl ⟨_, rfl⟩)),
    (response_law ?_ true assign assigns_assign [] (fun _ h => nomatch h) none [] preflight
      (fun _ h => nomatch h) (fun _ h => nomatch h)).2.1 (Or.inl rfl)⟩
  · rintro c ⟨⟩
  · rintro e ⟨⟩
    exact Nat.zero_le 1
  · rintro e ⟨⟩ m hm
    cases hm
  · rintro c ⟨⟩
    exact adds

end Karr.Middleware
