import Karr.BonnieStore

/-!
# Tokens of agents

Over any number of processes and keys: of an agent the registry is given the name,
the URL and the token of the one request that added it, and an agent whose token
cannot be read is left out.
-/

set_option autoImplicit false

namespace Karr.BonnieStore

open Interleaving Registrations

variable {Key : Type} {d : Deployment Key}

/-! ## What is stored -/

/-- The row has what the request of the call asked for, its token encrypted with the key of the
call's process. -/
def Wrote (d : Deployment Key) (keys : List Key) (call : Call) (row : Agent) : Prop :=
  ∃ source token key random, call.stage.made = some (source, row.id) ∧
    source.agent d = some (row.name, row.url, token) ∧ keys[call.boot]? = some key ∧
    row.tokenEncrypted = TokenCipher.encrypt d.fernet key random token

def Asked (d : Deployment Key) (call : Call) (a : RegistryAgent) : Prop :=
  ∃ source, call.stage.made = some (source, a.id) ∧
    source.agent d = some (a.name, a.url, a.token)

def Stage.Told (d : Deployment Key) : Stage → Prop
  | .adding source name url token => source.agent d = some (name, url, token)
  | .added source _ token => ∃ name url, source.agent d = some (name, url, token)
  | .refreshed source row token => source.agent d = some (row.name, row.url, token)
  | _ => True

def Stage.rows : Stage → List Agent
  | .listed rows => rows
  | _ => []

structure Sound (d : Deployment Key) (c : Config (Store Key) Call) : Prop where
  rows : ∀ row ∈ c.store.rows, ∃ maker ∈ c.procs, Wrote d c.store.keys maker row
  held : ∀ call ∈ c.procs, ∀ row ∈ call.stage.rows,
    ∃ maker ∈ c.procs, Wrote d c.store.keys maker row
  handed : ∀ a ∈ c.store.handed, ∃ maker ∈ c.procs, Asked d maker a
  told : ∀ call ∈ c.procs, call.stage.Told d
  below : ∀ call ∈ c.procs, ∀ source id, call.stage.made = some (source, id) → id < c.store.nextId
  apart : ∀ (j k : Nat) (p q : Call) (s s' : Source) (id : Nat), c.procs[j]? = some p →
    c.procs[k]? = some q → p.stage.made = some (s, id) → q.stage.made = some (s', id) → j = k

theorem Sound.same {c : Config (Store Key) Call} (h : Sound d c) {p q : Call} {s s' : Source}
    {id : Nat} (hp : p ∈ c.procs) (hq : q ∈ c.procs) (mp : p.stage.made = some (s, id))
    (mq : q.stage.made = some (s', id)) : p = q := by
  obtain ⟨j, hj⟩ := List.mem_iff_getElem?.mp hp
  obtain ⟨k, hk⟩ := List.mem_iff_getElem?.mp hq
  obtain rfl := h.apart j k p q s s' id hj hk mp mq
  exact Option.some.inj (hj.symm.trans hk)

/-! ## The past stays -/

theorem StageRule.made {s : Store Key} {key : Key} {p p' : Stage} {e : Effect Key}
    (h : StageRule d s key p e p') {m : Source × Nat} (made : p.made = some m) :
    p'.made = some m := by
  cases h with
  | quit unmade => rw [unmade] at made; cases made
  | stop made' => exact made'.symm.trans made
  | refresh | upsert => exact made
  | add | insert | delete | list | listed | updateStatus => cases made

theorem StageRule.makes {s : Store Key} {key : Key} {p p' : Stage} {e : Effect Key}
    (h : StageRule d s key p e p') {source : Source} {id : Nat}
    (made : p'.made = some (source, id)) :
    p.made = some (source, id) ∨ id = s.nextId ∧ (s.apply e).nextId = s.nextId + 1 := by
  cases h with
  | stop made' => exact Or.inl (made'.trans made)
  | refresh | upsert => exact Or.inl made
  | insert random =>
    cases made
    exact Or.inr ⟨rfl, rfl⟩
  | quit | add | delete | list | listed | updateStatus => cases made

theorem StageRule.keys {s : Store Key} {key : Key} {p p' : Stage} {e : Effect Key}
    (h : StageRule d s key p e p') : s.keys <+: (s.apply e).keys := by
  cases h <;> exact List.prefix_rfl

/-- Keys and stored agents are added, and never taken back. -/
structure Later (c c' : Config (Store Key) Call) : Prop where
  keys : c.store.keys <+: c'.store.keys
  procs : ∀ p ∈ c.procs, ∃ p' ∈ c'.procs,
    p'.boot = p.boot ∧ ∀ m, p.stage.made = some m → p'.stage.made = some m

namespace Later
variable {c c' : Config (Store Key) Call}

theorem wrote (h : Later c c') {row : Agent}
    (known : ∃ maker ∈ c.procs, Wrote d c.store.keys maker row) :
    ∃ maker ∈ c'.procs, Wrote d c'.store.keys maker row := by
  obtain ⟨maker, hm, source, token, key, random, made, agent, used, stored⟩ := known
  obtain ⟨maker', hm', boot, keep⟩ := h.procs maker hm
  refine ⟨maker', hm', source, token, key, random, keep _ made, agent, ?_, stored⟩
  obtain ⟨new, eq⟩ := h.keys
  rw [boot, ← eq, List.getElem?_append_left (List.getElem?_eq_some_iff.mp used).1]
  exact used

theorem asked (h : Later c c') {a : RegistryAgent} (known : ∃ maker ∈ c.procs, Asked d maker a) :
    ∃ maker ∈ c'.procs, Asked d maker a := by
  obtain ⟨maker, hm, source, made, agent⟩ := known
  obtain ⟨maker', hm', -, keep⟩ := h.procs maker hm
  exact ⟨maker', hm', source, keep _ made, agent⟩

theorem spawn (c : Config (Store Key) Call) (p : Call) : Later c ⟨c.store, c.procs ++ [p]⟩ where
  keys := List.prefix_rfl
  procs q hq := ⟨q, List.mem_append_left _ hq, rfl, fun _ made => made⟩

theorem step {k : Nat} {p p' : Call} {key : Key} {e : Effect Key}
    (hp : c.procs[k]? = some p) (boot : p'.boot = p.boot)
    (rule : StageRule d c.store key p.stage e p'.stage) :
    Later c ⟨c.store.apply e, c.procs.set k p'⟩ where
  keys := rule.keys
  procs q hq := by
    obtain ⟨j, hj⟩ := List.mem_iff_getElem?.mp hq
    by_cases mine : j = k
    · subst mine
      rw [hp] at hj
      cases hj
      have inside := (List.getElem?_eq_some_iff.mp hp).1
      exact ⟨p', List.mem_set inside p', boot, fun _ made => rule.made made⟩
    · refine ⟨q, List.mem_of_getElem? (i := j) ?_, rfl, fun _ made => made⟩
      rw [List.getElem?_set, if_neg (Ne.symm mine)]
      exact hj

theorem boot (c : Config (Store Key) Call) (key : Key) :
    Later c ⟨c.store.apply (.boot key), c.procs⟩ where
  keys := List.prefix_append _ _
  procs q hq := ⟨q, hq, rfl, fun _ made => made⟩

end Later

/-! ## One step -/

theorem Wrote.static {keys : List Key} {call : Call} {row row' : Agent}
    (h : Wrote d keys call row) (id : row'.id = row.id) (name : row'.name = row.name)
    (url : row'.url = row.url) (token : row'.tokenEncrypted = row.tokenEncrypted) :
    Wrote d keys call row' := by
  unfold Wrote at h ⊢
  rwa [id, name, url, token]

theorem mem_list {rows : List Agent} {key : Key} {a : RegistryAgent}
    (h : a ∈ list d key rows) : ∃ row ∈ rows, a.id = row.id ∧ a.name = row.name ∧
      a.url = row.url ∧ TokenCipher.decrypt d.fernet key row.tokenEncrypted = some a.token := by
  obtain ⟨row, hr, h⟩ := List.mem_filterMap.mp h
  obtain ⟨token, opened, rfl⟩ := Option.map_eq_some_iff.mp h
  exact ⟨row, hr, rfl, rfl, rfl, opened⟩

/-- What can be read of a row is the token of its request. -/
theorem Wrote.opened (sound : d.fernet.Sound) {keys : List Key} {call : Call} {row : Agent}
    (h : Wrote d keys call row) {key : Key} {a : RegistryAgent} (id : a.id = row.id)
    (name : a.name = row.name) (url : a.url = row.url)
    (opened : TokenCipher.decrypt d.fernet key row.tokenEncrypted = some a.token) :
    Asked d call a := by
  obtain ⟨source, token, made_with, random, made, agent, -, stored⟩ := h
  rw [stored] at opened
  obtain rfl := TokenCipher.decrypt_eq_some sound opened
  exact ⟨source, id ▸ made, by rw [name, url, agent]⟩

theorem mem_upsert {source : Source} {row : Agent} {token : String} {a : RegistryAgent}
    (h : a ∈ source.upsert row token) :
    a.id = row.id ∧ a.name = row.name ∧ a.url = row.url ∧ a.token = token := by
  cases source with
  | create | register =>
    obtain rfl := List.mem_singleton.mp h
    exact ⟨rfl, rfl, rfl, rfl⟩
  | seed => cases h

theorem StageRule.told {c : Config (Store Key) Call} (h : Sound d c) {call : Call} {key : Key}
    {e : Effect Key} {p' : Stage} (hc : call ∈ c.procs)
    (rule : StageRule d c.store key call.stage e p') : p'.Told d := by
  have told := h.told call hc
  obtain ⟨boot, stage⟩ := call
  dsimp only at rule told
  cases rule with
  | add agent => exact agent
  | @insert source name url token => exact ⟨name, url, told⟩
  | @refresh source row token found =>
    obtain ⟨name, url, agent⟩ := told
    obtain ⟨maker, hm, source', token', -, -, made, agent', -, -⟩ := h.rows row found
    -- the row is the one this call has stored
    obtain rfl := h.same hc hm rfl made
    cases made
    rw [agent] at agent'
    cases agent'
    exact agent
  | quit | stop | upsert | delete | list | listed | updateStatus => trivial

theorem StageRule.handed (sound : d.fernet.Sound) {c : Config (Store Key) Call} (h : Sound d c)
    {k : Nat} {p p' : Call} {key : Key} {e : Effect Key} (hp : c.procs[k]? = some p)
    (boot : p'.boot = p.boot) (rule : StageRule d c.store key p.stage e p'.stage) :
    ∀ a ∈ (c.store.apply e).handed, ∃ maker ∈ c.procs.set k p', Asked d maker a := by
  have later := Later.step hp boot rule
  have told := h.told p (List.mem_of_getElem? hp)
  have held := h.held p (List.mem_of_getElem? hp)
  have here : p' ∈ c.procs.set k p' := List.mem_set (List.getElem?_eq_some_iff.mp hp).1 p'
  intro a ha
  have known (old : a ∈ c.store.handed) : ∃ maker ∈ c.procs.set k p', Asked d maker a :=
    later.asked (h.handed a old)
  obtain ⟨boot', stage'⟩ := p'
  obtain ⟨boot, stage⟩ := p
  dsimp only at rule told held later here known
  cases rule with
  | @upsert source row token =>
    rcases List.mem_append.mp ha with old | new
    · exact known old
    · obtain ⟨id, name, url, rfl⟩ := mem_upsert new
      exact ⟨_, here, source, by rw [id]; rfl, by rw [name, url]; exact told⟩
  | @listed rows =>
    rcases List.mem_append.mp ha with old | new
    · exact known old
    · obtain ⟨row, hr, id, name, url, opened⟩ := mem_list new
      obtain ⟨maker, hm, wrote⟩ := held row hr
      exact later.asked ⟨maker, hm, wrote.opened sound id name url opened⟩
  | quit | stop | add | insert | refresh | delete | list | updateStatus => exact known ha

theorem StageRule.stored {c : Config (Store Key) Call} (h : Sound d c) {k : Nat} {p p' : Call}
    {key : Key} {e : Effect Key} (hp : c.procs[k]? = some p) (boot : p'.boot = p.boot)
    (running : c.store.keys[p.boot]? = some key)
    (rule : StageRule d c.store key p.stage e p'.stage) :
    ∀ row ∈ (c.store.apply e).rows,
      ∃ maker ∈ c.procs.set k p', Wrote d (c.store.apply e).keys maker row := by
  have later := Later.step hp boot rule
  have told := h.told p (List.mem_of_getElem? hp)
  have here : p' ∈ c.procs.set k p' := List.mem_set (List.getElem?_eq_some_iff.mp hp).1 p'
  intro row hr
  obtain ⟨boot', stage'⟩ := p'
  obtain ⟨number, stage⟩ := p
  dsimp only at rule told later here running boot
  cases rule with
  | @insert source name url token random =>
    rcases List.mem_append.mp hr with old | new
    · exact later.wrote (h.rows row old)
    · obtain rfl := List.mem_singleton.mp new
      exact ⟨_, here, source, token, key, random, rfl, told, boot ▸ running, rfl⟩
  | delete => exact later.wrote (h.rows row (List.mem_of_mem_filter hr))
  | updateStatus =>
    obtain ⟨old, ho, rfl⟩ := List.mem_map.mp hr
    obtain ⟨maker, hm, wrote⟩ := later.wrote (h.rows old ho)
    refine ⟨maker, hm, ?_⟩
    split
    · exact wrote.static rfl rfl rfl rfl
    · exact wrote
  | quit | stop | add | refresh | upsert | list | listed => exact later.wrote (h.rows row hr)

theorem StageRule.reads {s : Store Key} {key : Key} {p p' : Stage} {e : Effect Key}
    (h : StageRule d s key p e p') {row : Agent} (hr : row ∈ p'.rows) : row ∈ s.rows := by
  cases h with
  | list => exact hr
  | quit | stop | add | insert | refresh | upsert | delete | listed | updateStatus => cases hr

theorem StageRule.nextId_le {s : Store Key} {key : Key} {p p' : Stage} {e : Effect Key}
    (h : StageRule d s key p e p') : s.nextId ≤ (s.apply e).nextId := by
  cases h with
  | insert => exact Nat.le_succ _
  | quit | stop | add | refresh | upsert | delete | list | listed | updateStatus => exact le_rfl

/-- A stored agent is an old one, or it has the next id. -/
theorem made_set {c : Config (Store Key) Call} {k : Nat} {p p' : Call} {key : Key} {e : Effect Key}
    (hp : c.procs[k]? = some p) (rule : StageRule d c.store key p.stage e p'.stage) {j : Nat}
    {q : Call} (hq : (c.procs.set k p')[j]? = some q) {source : Source} {id : Nat}
    (made : q.stage.made = some (source, id)) :
    (∃ old, c.procs[j]? = some old ∧ old.stage.made = some (source, id)) ∨
      j = k ∧ id = c.store.nextId ∧ (c.store.apply e).nextId = c.store.nextId + 1 := by
  rw [List.getElem?_set] at hq
  split at hq
  · rename_i same
    subst same
    split at hq <;> cases hq
    rcases rule.makes made with before | new
    · exact Or.inl ⟨p, hp, before⟩
    · exact Or.inr ⟨rfl, new⟩
  · exact Or.inl ⟨q, hq, made⟩

namespace Sound
variable {c : Config (Store Key) Call}

theorem empty : Sound d (⟨{}, []⟩ : Config (Store Key) Call) where
  rows _ h := nomatch h
  held _ h := nomatch h
  handed _ h := nomatch h
  told _ h := nomatch h
  below _ h := nomatch h
  apart _ _ _ _ _ _ _ h := nomatch h

theorem spawn (h : Sound d c) {p : Call} (fresh : (system d).fresh p = true) :
    Sound d ⟨c.store, c.procs ++ [p]⟩ := by
  have later := Later.spawn c p
  obtain ⟨boot, stage⟩ := p
  have new : stage.rows = [] ∧ stage.Told d ∧ stage.made = none := by
    cases stage with
    | add | delete | list | updateStatus => exact ⟨rfl, trivial, rfl⟩
    | adding | added | refreshed | stored | listed | ended => cases fresh
  have old {j : Nat} {q : Call} {m : Source × Nat} (hq : (c.procs ++ [⟨boot, stage⟩])[j]? = some q)
      (made : q.stage.made = some m) : c.procs[j]? = some q := by
    rw [List.getElem?_append] at hq
    split at hq
    · exact hq
    · obtain rfl := List.mem_singleton.mp (List.mem_of_getElem? hq)
      rw [new.2.2] at made
      cases made
  refine ⟨?_, ?_, ?_, ?_, ?_, ?_⟩
  · exact fun row hr => later.wrote (h.rows row hr)
  · intro q hq row hr
    rcases List.mem_append.mp hq with hq | hq
    · exact later.wrote (h.held q hq row hr)
    · rw [List.mem_singleton.mp hq, new.1] at hr
      cases hr
  · exact fun a ha => later.asked (h.handed a ha)
  · intro q hq
    rcases List.mem_append.mp hq with hq | hq
    · exact h.told q hq
    · rw [List.mem_singleton.mp hq]
      exact new.2.1
  · intro q hq source id made
    obtain ⟨j, hj⟩ := List.mem_iff_getElem?.mp hq
    exact h.below q (List.mem_of_getElem? (old hj made)) source id made
  · intro j k q r s s' id hq hr mq mr
    exact h.apart j k q r s s' id (old hq mq) (old hr mr) mq mr

theorem step (sound : d.fernet.Sound) (h : Sound d c) {k : Nat} {p p' : Call} {key : Key}
    {e : Effect Key} (hp : c.procs[k]? = some p) (boot : p'.boot = p.boot)
    (running : c.store.keys[p.boot]? = some key)
    (rule : StageRule d c.store key p.stage e p'.stage) :
    Sound d ⟨c.store.apply e, c.procs.set k p'⟩ := by
  have later := Later.step hp boot rule
  refine ⟨rule.stored h hp boot running, ?_, rule.handed sound h hp boot, ?_, ?_, ?_⟩
  · intro q hq row hr
    rcases List.mem_or_eq_of_mem_set hq with hq | rfl
    · exact later.wrote (h.held q hq row hr)
    · exact later.wrote (h.rows row (rule.reads hr))
  · intro q hq
    rcases List.mem_or_eq_of_mem_set hq with hq | rfl
    · exact h.told q hq
    · exact StageRule.told h (List.mem_of_getElem? hp) rule
  · intro q hq source id made
    obtain ⟨j, hj⟩ := List.mem_iff_getElem?.mp hq
    rcases made_set hp rule hj made with ⟨old, ho, before⟩ | ⟨-, rfl, next⟩
    · exact (h.below old (List.mem_of_getElem? ho) source id before).trans_le rule.nextId_le
    · exact next ▸ Nat.lt_succ_self _
  · intro i j q r s s' id hq hr mq mr
    have fresh {l : Nat} {old : Call} {source : Source} (ho : c.procs[l]? = some old)
        (before : old.stage.made = some (source, c.store.nextId)) : False :=
      absurd (h.below old (List.mem_of_getElem? ho) source _ before) (lt_irrefl _)
    rcases made_set hp rule hq mq with ⟨a, ha, ma⟩ | ⟨rfl, rfl, -⟩ <;>
      rcases made_set hp rule hr mr with ⟨b, hb, mb⟩ | ⟨rfl, eq, -⟩
    · exact h.apart i j a b s s' id ha hb ma mb
    · exact (fresh ha (eq ▸ ma)).elim
    · exact (fresh hb mb).elim
    · rfl

theorem boot (h : Sound d c) (key : Key) : Sound d ⟨c.store.apply (.boot key), c.procs⟩ where
  rows row hr := (Later.boot c key).wrote (h.rows row hr)
  held q hq row hr := (Later.boot c key).wrote (h.held q hq row hr)
  handed _ ha := nomatch ha
  told := h.told
  below := h.below
  apart := h.apart

theorem exec (sound : d.fernet.Sound) (h : Sound d c) {c' : Config (Store Key) Call}
    {a : Action Call Input (Effect Key)} (hs : (system d).exec c a = some c') : Sound d c' := by
  rcases System.exec_cases hs with ⟨p, -, fresh, rfl⟩ | ⟨k, i, p, e, p', -, hp, hstep, rfl⟩ |
    ⟨e, -, out, rfl⟩
  · exact h.spawn fresh
  · obtain ⟨same, key, running, rule⟩ := step_rule hstep
    exact h.step sound hp same running rule
  · cases e with
    | boot key => exact h.boot key
    | none | insert | delete | updateStatus | hand => cases out

end Sound

theorem sound_of_run (sound : d.fernet.Sound) {c : Config (Store Key) Call}
    (hr : (system d).Runs (fun _ _ => True) ⟨{}, []⟩ c) : Sound d c :=
  hr.invariant .empty fun h _ hs => h.exec sound hs

/-! ## The registry -/

/-- Of each agent the registry of a process was ever given, it has the name, the URL and the token
that one request asked for, the one that stored this agent; and no row holds a token but
encrypted. -/
theorem tokens_own (sound : d.fernet.Sound) {c : Config (Store Key) Call}
    (hr : (system d).Runs (fun _ _ => True) ⟨{}, []⟩ c) :
    (∀ a ∈ c.store.handed, ∃ maker ∈ c.procs, ∃ source,
      maker.stage.made = some (source, a.id) ∧ source.agent d = some (a.name, a.url, a.token) ∧
      ∀ other ∈ c.procs, ∀ source', other.stage.made = some (source', a.id) → other = maker) ∧
    ∀ row ∈ c.store.rows, ∃ maker ∈ c.procs, Wrote d c.store.keys maker row := by
  have inv := sound_of_run sound hr
  refine ⟨fun a ha => ?_, inv.rows⟩
  obtain ⟨maker, hm, source, made, agent⟩ := inv.handed a ha
  exact ⟨maker, hm, source, made, agent, fun other ho _ made' => inv.same ho hm made' made⟩

/-- An agent that is in the table is listed with its own token, unless it has one and the key was
another when it was added; then it is left out, never listed without. -/
theorem listed_iff (sound : d.fernet.Sound) {c : Config (Store Key) Call}
    (hr : (system d).Runs (fun _ _ => True) ⟨{}, []⟩ c) {key : Key}
    (running : c.store.keys.getLast? = some key) {maker : Call} (hm : maker ∈ c.procs)
    {source : Source} {row : Agent} (made : maker.stage.made = some (source, row.id))
    (stored : row ∈ c.store.rows) :
    ∃ token, source.agent d = some (row.name, row.url, token) ∧
      ((∃ a ∈ list d key c.store.rows, a.id = row.id) ↔
        token = "" ∨ c.store.keys[maker.boot]? = c.store.keys.getLast?) ∧
      ∀ a ∈ list d key c.store.rows, a.id = row.id →
        a.name = row.name ∧ a.url = row.url ∧ a.token = token := by
  have inv := sound_of_run sound hr
  -- the rows of this id were written by this call
  have wrote {row' : Agent} (hr' : row' ∈ c.store.rows) (id : row'.id = row.id) :
      Wrote d c.store.keys maker row' := by
    obtain ⟨other, ho, wrote⟩ := inv.rows row' hr'
    have ⟨_, _, _, _, made', _⟩ := wrote
    rwa [inv.same ho hm made' (id ▸ made)] at wrote
  obtain ⟨source', token, used, random, made', agent, boot, encrypted⟩ := wrote stored rfl
  rw [made] at made'
  cases made'
  have written {row' : Agent} (hr' : row' ∈ c.store.rows) (id : row'.id = row.id) :
      row'.name = row.name ∧ row'.url = row.url ∧
        ∃ random, row'.tokenEncrypted = TokenCipher.encrypt d.fernet used random token := by
    obtain ⟨source', token', used', random, made', agent', boot', encrypted'⟩ := wrote hr' id
    rw [id, made] at made'
    cases made'
    rw [boot] at boot'
    cases boot'
    obtain ⟨name, rest⟩ := Prod.mk.inj (Option.some.inj (agent'.symm.trans agent))
    obtain ⟨url, same⟩ := Prod.mk.inj rest
    exact ⟨name, url, random, same ▸ encrypted'⟩
  have same_key : key = used ↔ c.store.keys[maker.boot]? = c.store.keys.getLast? := by
    rw [boot, running, Option.some.injEq]
    exact eq_comm
  refine ⟨token, agent, ⟨?_, fun readable => ?_⟩, ?_⟩
  · rintro ⟨a, ha, id⟩
    obtain ⟨row', hr', id', -, -, opened⟩ := mem_list ha
    obtain ⟨-, -, random', eq⟩ := written hr' (id'.symm.trans id)
    rw [← same_key]
    apply (TokenCipher.decrypt_isSome sound).mp
    rw [← eq, opened]
    rfl
  · rw [← same_key] at readable
    have opens : (TokenCipher.decrypt d.fernet key row.tokenEncrypted).isSome := by
      rw [encrypted]
      exact (TokenCipher.decrypt_isSome sound).mpr readable
    obtain ⟨text, opened⟩ := Option.isSome_iff_exists.mp opens
    exact ⟨_, List.mem_filterMap.mpr ⟨row, stored, congrArg (Option.map _) opened⟩, rfl⟩
  · intro a ha id
    obtain ⟨row', hr', id', name, url, opened⟩ := mem_list ha
    obtain ⟨name', url', random', eq⟩ := written hr' (id'.symm.trans id)
    rw [eq] at opened
    exact ⟨name.trans name', url.trans url', TokenCipher.decrypt_eq_some sound opened⟩

/-! ## Two keys -/

/-- A cipher whose keys are characters. -/
def marked : Fernet Char where
  encrypt key _ plaintext :=
    String.ofList (key :: plaintext.data.toList.map fun b => Char.ofNat b.toNat)
  decrypt key ciphertext :=
    match ciphertext.toList with
    | [] => none
    | mark :: text =>
      if mark = key then some ⟨(text.map fun c => UInt8.ofNat c.toNat).toArray⟩ else none

theorem marked_sound : marked.Sound where
  decrypt_encrypt key random plaintext := by
    have bytes (b : UInt8) : UInt8.ofNat (Char.ofNat b.toNat).toNat = b := by
      have valid : b.toNat.isValidChar := Or.inl (b.toNat_lt.trans (by decide))
      have same : (Char.ofNat b.toNat).toNat = b.toNat := by
        rw [Char.ofNat, dif_pos valid]
        rfl
      rw [same, UInt8.ofNat_toNat]
    have text : (plaintext.data.toList.map fun b => Char.ofNat b.toNat).map
        (fun c => UInt8.ofNat c.toNat) = plaintext.data.toList := by
      rw [List.map_map]
      exact (List.map_congr_left fun b _ => bytes b).trans (List.map_id _)
    simp only [marked, String.toList_ofList, if_true, text, Array.toArray_toList]
  authentic key other random plaintext ne := by
    simp only [marked, String.toList_ofList, if_neg ne.symm]
  encrypt_ne key random plaintext empty := by
    have none := congrArg String.toList empty
    rw [marked, String.toList_ofList] at none
    cases none

def deployment : Deployment Char := ⟨marked, ⟨fun _ => true, id⟩, fun _ => true⟩

def withToken : Source := .create ⟨"a", "http://a", "t"⟩

def withoutToken : Source := .create ⟨" b ", "http://b/", ""⟩

/-- Two agents of a process with one key, listed by the next, which has another. -/
def rotated : Config (Store Char) Call where
  store :=
    { keys := ['k', 'l']
      rows := [{ id := 0, name := "a", url := "http://a", tokenEncrypted := "kt" },
        { id := 1, name := "b", url := "http://b", tokenEncrypted := "" }]
      nextId := 2
      handed := [{ id := 1, name := "b", url := "http://b", token := "" }] }
  procs := [⟨0, .stored withToken 0⟩, ⟨0, .stored withoutToken 1⟩, ⟨1, .ended⟩]

theorem withToken_agent : withToken.agent deployment = some ("a", "http://a", "t") := by
  decide

theorem rotated_run : (system deployment).Runs (fun _ _ => True) ⟨{}, []⟩ rotated := by
  have run : (system deployment).Runs (fun _ _ => True) ⟨{}, []⟩ ⟨{}, []⟩ := .refl
  have run := run.step (a := .outside (.boot 'k')) trivial rfl
  have run := run.step (a := .spawn ⟨0, .add withToken⟩) trivial rfl
  have run := run.step (a := .spawn ⟨0, .add withoutToken⟩) trivial rfl
  have run := run.step (a := .proc 0 (.run 0)) trivial rfl
  have run := run.step (a := .proc 1 (.run 0)) trivial rfl
  have run := run.step (a := .proc 0 (.run 0)) trivial rfl
  have run := run.step (a := .proc 0 (.run 0)) trivial rfl
  have run := run.step (a := .proc 1 (.run 0)) trivial rfl
  have run := run.step (a := .proc 0 (.run 0)) trivial rfl
  have run := run.step (a := .proc 1 (.run 0)) trivial rfl
  have run := run.step (a := .proc 1 (.run 0)) trivial rfl
  have run := run.step (a := .outside (.boot 'l')) trivial rfl
  have run := run.step (a := .spawn ⟨1, .list⟩) trivial rfl
  have run := run.step (a := .proc 2 (.run 0)) trivial rfl
  exact run.step (a := .proc 2 (.run 0)) trivial rfl

theorem tokens_own_rotated :
    (∀ a ∈ rotated.store.handed, ∃ maker ∈ rotated.procs, ∃ source,
      maker.stage.made = some (source, a.id) ∧
      source.agent deployment = some (a.name, a.url, a.token) ∧
      ∀ other ∈ rotated.procs, ∀ source', other.stage.made = some (source', a.id) →
        other = maker) ∧
    ∀ row ∈ rotated.store.rows, ∃ maker ∈ rotated.procs,
      Wrote deployment rotated.store.keys maker row :=
  tokens_own marked_sound rotated_run

/-- The second process does not list the agent that has a token. -/
theorem listed_iff_rotated :
    ¬ ∃ a ∈ list deployment 'l' rotated.store.rows, a.id = 0 := by
  have maker : ⟨0, .stored withToken 0⟩ ∈ rotated.procs := List.mem_cons_self
  have row : { id := 0, name := "a", url := "http://a", tokenEncrypted := "kt" } ∈
      rotated.store.rows := List.mem_cons_self
  have running : rotated.store.keys.getLast? = some 'l' := rfl
  obtain ⟨token, agent, listed, -⟩ :=
    listed_iff marked_sound rotated_run running maker rfl row
  obtain rfl : token = "t" := by
    rw [withToken_agent] at agent
    cases agent
    rfl
  intro found
  rcases listed.mp found with told | same
  · exact absurd told (by decide)
  · exact absurd same (by decide)

end Karr.BonnieStore
