import Mathlib.Data.List.Nodup
import Mathlib.Data.List.Perm.Subperm
import Karr.Services.Registrations

/-!
# One agent for a token

A row that a register has claimed is locked until its transaction ends, so it is
still the pending row the claim found when the claim, the agent and the link
between them are committed. The record of all commits then has each row and each
agent once.
-/

set_option autoImplicit false

namespace Karr.Registrations

open Interleaving

variable (s : Settings)

/-! ## What an effect can do -/

def Effect.update : Effect → Registration → Registration
  | .expire began, r => if r.stale began then { r with status := .expired } else r
  | .commit m, r =>
    if r.id = m.claim.row.id then
      { r with status := .claimed, claimedAt := some m.claim.claimedAt, agentId := some m.agent.id }
    else r
  | .deleteAgent id, r => if r.agentId = some id then { r with agentId := Option.none } else r
  | _, r => r

def Effect.drops : Effect → Registration → Bool
  | .deleteRegistration id, r => decide (r.id = id)
  | _, _ => false

def Effect.inserts : Effect → Bool
  | .insertRegistration _ _ => true
  | _ => false

def Effect.commits : Effect → Bool
  | .commit _ => true
  | _ => false

theorem update_id (e : Effect) (r : Registration) : (e.update r).id = r.id := by
  cases e <;> simp only [Effect.update] <;> split <;> rfl

theorem update_tokenHash (e : Effect) (r : Registration) :
    (e.update r).tokenHash = r.tokenHash := by
  cases e <;> simp only [Effect.update] <;> split <;> rfl

/-- The three writes of a commit, as one update of each row. -/
theorem commit_registrations (db : Db) (m : Mint) :
    (db.apply (.commit m)).registrations = db.registrations.map (Effect.commit m).update := by
  simp only [Db.apply, Db.unlock, Mint.writes, List.foldl_cons, List.foldl_nil, Db.write,
    List.map_map]
  refine List.map_congr_left fun r _ => ?_
  simp only [Function.comp_apply, Effect.update]
  by_cases h : r.id = m.claim.row.id <;> simp [h]

theorem commit_agents (db : Db) (m : Mint) :
    (db.apply (.commit m)).agents = db.agents ++ [m.agent] := by
  simp [Db.apply, Db.unlock, Mint.writes, Db.write]

theorem mem_registrations_apply {db : Db} {e : Effect} {row : Registration} :
    row ∈ (db.apply e).registrations ↔
      (∃ token, e = .insertRegistration row token) ∨
        ∃ r ∈ db.registrations, e.drops r = false ∧ e.update r = row := by
  cases e
  case insertRegistration r token =>
    simp only [Db.apply, List.mem_append, List.mem_singleton, Effect.insertRegistration.injEq,
      Effect.drops, Effect.update, true_and, exists_eq_right]
    constructor
    · rintro (h | rfl)
      · exact Or.inr h
      · exact Or.inl ⟨token, rfl, rfl⟩
    · rintro (⟨_, rfl, _⟩ | h)
      · exact Or.inr rfl
      · exact Or.inl h
  case commit m => simp [commit_registrations, Effect.drops]
  all_goals simp [Db.apply, Db.unlock, Effect.update, Effect.drops]

theorem mem_agents_apply {db : Db} {e : Effect} {a : Agent} :
    a ∈ (db.apply e).agents ↔
      (∃ m, e = .commit m ∧ a = m.agent) ∨
      (∃ name url token, e = .addAgent name url token ∧
        a = ⟨db.nextAgent, name, url, token, .offline⟩) ∨
      (a ∈ db.agents ∧ e ≠ .deleteAgent a.id) := by
  cases e
  case commit m => simp [commit_agents, or_comm]
  case addAgent name url token =>
    simp only [Db.apply, List.mem_append, List.mem_singleton]
    constructor
    · rintro (h | rfl)
      · exact Or.inr (Or.inr ⟨h, by simp⟩)
      · exact Or.inr (Or.inl ⟨name, url, token, rfl, rfl⟩)
    · rintro (⟨_, h, _⟩ | ⟨_, _, _, h, rfl⟩ | ⟨h, _⟩)
      · cases h
      · cases h
        exact Or.inr rfl
      · exact Or.inl h
  case deleteAgent id =>
    simp only [Db.apply, List.mem_filter, decide_eq_true_eq, reduceCtorEq, false_and, exists_false,
      false_or, ne_eq, Effect.deleteAgent.injEq]
    exact and_congr_right fun _ => not_congr eq_comm
  all_goals simp [Db.apply, Db.unlock]

theorem nextAgent_le_apply (db : Db) (e : Effect) : db.nextAgent ≤ (db.apply e).nextAgent := by
  cases e <;> simp [Db.apply, Db.unlock, Mint.writes, Db.write]

theorem minted_apply (db : Db) {e : Effect} (h : e.commits = false) :
    (db.apply e).minted = db.minted := by
  cases e <;> first
    | rfl
    | cases h

theorem commit_minted (db : Db) (m : Mint) : (db.apply (.commit m)).minted = db.minted ++ [m] := by
  simp [Db.apply, Db.unlock, Mint.writes, Db.write]

theorem issued_apply (db : Db) {e : Effect} (h : e.inserts = false) :
    (db.apply e).issued = db.issued ∧ (db.apply e).nextRegistration = db.nextRegistration := by
  cases e
  case insertRegistration => cases h
  all_goals simp [Db.apply, Db.unlock, Mint.writes, Db.write]

/-! ## The invariant -/

/-- What the link to the agent of a registration is: nothing once the agent is deleted. -/
def Db.linkTo (db : Db) (m : Mint) : Option Nat :=
  if db.agents.any fun a => decide (a.id = m.agent.id) then some m.agent.id else none

structure RowOk (db : Db) (r : Registration) : Prop where
  claimed : r.status = .claimed → ∃ m ∈ db.minted, m.claim.row.id = r.id ∧
    r.claimedAt = some m.claim.claimedAt ∧ r.agentId = db.linkTo m
  unclaimed : r.status ≠ .claimed → r.claimedAt = none ∧ r.agentId = none ∧
    ∀ m ∈ db.minted, m.claim.row.id ≠ r.id

/-- The row was pending and unexpired when its token was claimed. -/
structure ClaimedInTime (c : Claim) : Prop where
  pending : c.row.status = .pending
  unexpired : c.began < c.row.expiresAt
  token : c.row.tokenHash = s.hash c.request.token

structure DbOk (db : Db) : Prop where
  id_lt : ∀ r ∈ db.registrations, r.id < db.nextRegistration
  id_inj : ∀ r ∈ db.registrations, ∀ t ∈ db.registrations, r.id = t.id → r = t
  agent_lt : ∀ a ∈ db.agents, a.id < db.nextAgent
  issued : ∀ r ∈ db.registrations, ∃ token, (r.id, token) ∈ db.issued ∧ r.tokenHash = s.hash token
  issued_lt : ∀ x ∈ db.issued, x.1 < db.nextRegistration
  row : ∀ r ∈ db.registrations, RowOk db r
  inTime : ∀ m ∈ db.minted, ClaimedInTime s m.claim
  minted : ∀ m ∈ db.minted, m.agent.id < db.nextAgent ∧
    ∃ token, (m.claim.row.id, token) ∈ db.issued ∧ m.claim.row.tokenHash = s.hash token
  distinct : db.minted.Pairwise fun m n =>
    m.claim.row.id ≠ n.claim.row.id ∧ m.agent.id ≠ n.agent.id

/-- The row of an open claim is in the table as the claim found it, and locked. -/
structure ClaimOk (db : Db) (c : Claim) : Prop where
  inTime : ClaimedInTime s c
  mem : c.row ∈ db.registrations
  locked : c.row.id ∈ db.locks

/-- The agent of an open claim has an id of its own. -/
structure MintOk (db : Db) (m : Mint) : Prop where
  lt : m.agent.id < db.nextAgent
  agents : ∀ a ∈ db.agents, a.id ≠ m.agent.id
  minted : ∀ n ∈ db.minted, n.agent.id ≠ m.agent.id

def CallOk (db : Db) (p : Call) : Prop :=
  (∀ c, p.claim = some c → ClaimOk s db c) ∧ ∀ m, p.mint = some m → MintOk db m

/-- Two open claims are of different rows and make different agents. -/
def Different (p q : Call) : Prop :=
  (∀ c, p.claim = some c → ∀ d, q.claim = some d → c.row.id ≠ d.row.id) ∧
  ∀ m, p.mint = some m → ∀ n, q.mint = some n → m.agent.id ≠ n.agent.id

theorem Different.symm {p q : Call} (h : Different p q) : Different q p :=
  ⟨fun c hc d hd => (h.1 d hd c hc).symm, fun m hm n hn => (h.2 n hn m hm).symm⟩

theorem claim_fresh {p : Call} (h : p.fresh = true) : p.claim = none := by
  cases p with
  | register p => cases p <;> first | rfl | cases h
  | _ => rfl

theorem mint_claim {p : Call} {m : Mint} (h : p.mint = some m) : p.claim = some m.claim := by
  cases p with
  | register p => cases p <;> cases h <;> rfl
  | _ => cases h

variable {s}

/-! ## Open claims are left alone -/

theorem StatementRule.update_claimed {db : Db} {i : Input} {e : Effect} (h : StatementRule s db i e)
    (hdb : DbOk s db) {c : Claim} (hc : ClaimOk s db c) :
    e.drops c.row = false ∧ e.update c.row = c.row ∧ c.row.id ∈ (db.apply e).locks := by
  cases h with
  | none => exact ⟨rfl, rfl, hc.locked⟩
  | @expire _ began free =>
    refine ⟨rfl, if_neg fun hs => ?_, hc.locked⟩
    -- a stale row in a transaction would make the statement wait
    have := List.any_eq_false.mp free c.row hc.mem
    simp [hs, hc.locked] at this
  | issue => exact ⟨rfl, rfl, hc.locked⟩
  | cancel unlocked =>
    refine ⟨decide_eq_false fun hid => unlocked ?_, rfl, hc.locked⟩
    rw [← hid]
    exact hc.locked
  | deleteAgent =>
    refine ⟨rfl, if_neg fun ha => ?_, hc.locked⟩
    have pending : c.row.status ≠ .claimed := by simp [hc.inTime.pending]
    rw [((hdb.row c.row hc.mem).unclaimed pending).2.1] at ha
    cases ha

/-- A transaction touches no row but the one it has claimed. -/
theorem CallRule.update_claimed {db : Db} {p p' : Call} {i : Input} {e : Effect}
    (h : CallRule s db p i e p') (hdb : DbOk s db) {c : Claim} (hc : ClaimOk s db c)
    (other : ∀ d, p.claim = some d → d.row.id ≠ c.row.id) :
    e.drops c.row = false ∧ e.update c.row = c.row ∧ c.row.id ∈ (db.apply e).locks := by
  cases h with
  | statement h => exact h.update_claimed hdb hc
  | claim => exact ⟨rfl, rfl, List.mem_cons_of_mem _ hc.locked⟩
  | insert => exact ⟨rfl, rfl, hc.locked⟩
  | link => exact ⟨rfl, rfl, hc.locked⟩
  | commit =>
    have hne := other _ rfl
    exact ⟨rfl, if_neg hne.symm, List.mem_filter.mpr ⟨hc.locked, by simpa using hne.symm⟩⟩
  | rollback h =>
    have hne := other _ h
    exact ⟨rfl, rfl, List.mem_filter.mpr ⟨hc.locked, by simpa using hne.symm⟩⟩

theorem claimOk_apply {db : Db} {e : Effect} {c : Claim} (hc : ClaimOk s db c)
    (h : e.drops c.row = false ∧ e.update c.row = c.row ∧ c.row.id ∈ (db.apply e).locks) :
    ClaimOk s (db.apply e) c :=
  ⟨hc.inTime, mem_registrations_apply.mpr (Or.inr ⟨c.row, hc.mem, h.1, h.2.1⟩), h.2.2⟩

theorem mintOk_apply {db : Db} {e : Effect} {m : Mint} (h : MintOk db m)
    (other : ∀ n, e = .commit n → n.agent.id ≠ m.agent.id) : MintOk (db.apply e) m := by
  refine ⟨Nat.lt_of_lt_of_le h.lt (nextAgent_le_apply db e), fun a ha => ?_, fun n hn => ?_⟩
  · rcases mem_agents_apply.mp ha with ⟨n, he, rfl⟩ | ⟨_, _, _, _, rfl⟩ | ⟨ha, _⟩
    · exact other n he
    · have := h.lt
      simp only [ne_eq]
      omega
    · exact h.agents a ha
  · cases e with
    | commit n' =>
      rw [commit_minted] at hn
      rcases List.mem_append.mp hn with hn | hn
      · exact h.minted n hn
      · rw [List.mem_singleton.mp hn]
        exact other n' rfl
    | _ => exact h.minted n hn

/-! ## The tables keep the invariant -/

theorem linkTo_congr {db db' : Db} {m : Mint}
    (h : (∃ a ∈ db'.agents, a.id = m.agent.id) ↔ ∃ a ∈ db.agents, a.id = m.agent.id) :
    db'.linkTo m = db.linkTo m := by
  simp only [Db.linkTo, List.any_eq_true, decide_eq_true_eq, h]

theorem DbOk.keys {db : Db} (h : DbOk s db) {e : Effect}
    (he : e.inserts = false) :
    (∀ r ∈ (db.apply e).registrations, r.id < (db.apply e).nextRegistration) ∧
    (∀ r ∈ (db.apply e).registrations, ∀ t ∈ (db.apply e).registrations, r.id = t.id → r = t) ∧
    (∀ r ∈ (db.apply e).registrations,
      ∃ token, (r.id, token) ∈ (db.apply e).issued ∧ r.tokenHash = s.hash token) := by
  obtain ⟨hissued, hnext⟩ := issued_apply db he
  have old : ∀ r ∈ (db.apply e).registrations, ∃ r' ∈ db.registrations, e.update r' = r := by
    intro r hr
    rcases mem_registrations_apply.mp hr with ⟨token, rfl⟩ | ⟨r', hr', _, hu⟩
    · cases he
    · exact ⟨r', hr', hu⟩
  refine ⟨fun r hr => ?_, fun r hr t ht hid => ?_, fun r hr => ?_⟩
  · obtain ⟨r', hr', rfl⟩ := old r hr
    rw [update_id, hnext]
    exact h.id_lt r' hr'
  · obtain ⟨r', hr', rfl⟩ := old r hr
    obtain ⟨t', ht', rfl⟩ := old t ht
    rw [update_id, update_id] at hid
    rw [h.id_inj r' hr' t' ht' hid]
  · obtain ⟨r', hr', rfl⟩ := old r hr
    rw [update_id, update_tokenHash, hissued]
    exact h.issued r' hr'

/-- An effect that commits nothing keeps the invariant if it keeps that of each row. -/
theorem DbOk.keep {db : Db} (h : DbOk s db) {e : Effect}
    (hi : e.inserts = false) (hc : e.commits = false)
    (agents : ∀ a ∈ (db.apply e).agents, a.id < (db.apply e).nextAgent)
    (rows : ∀ r ∈ db.registrations, e.drops r = false → RowOk (db.apply e) (e.update r)) :
    DbOk s (db.apply e) := by
  obtain ⟨id_lt, id_inj, issued⟩ := h.keys hi
  obtain ⟨hissued, hnext⟩ := issued_apply db hi
  have hminted := minted_apply db hc
  exact {
    id_lt, id_inj, issued
    agent_lt := agents
    issued_lt := by
      rw [hissued, hnext]
      exact h.issued_lt
    row := by
      intro r hr
      rcases mem_registrations_apply.mp hr with ⟨token, rfl⟩ | ⟨r', hr', hd, rfl⟩
      · cases hi
      · exact rows r' hr' hd
    inTime := by
      rw [hminted]
      exact h.inTime
    minted := by
      rw [hminted, hissued]
      intro m hm
      exact ⟨Nat.lt_of_lt_of_le (h.minted m hm).1 (nextAgent_le_apply db e), (h.minted m hm).2⟩
    distinct := by
      rw [hminted]
      exact h.distinct }

/-- A row keeps what holds of it when its agent is neither made nor deleted. -/
theorem RowOk.keep {db db' : Db} {r : Registration} (h : RowOk db r)
    (minted : db'.minted = db.minted)
    (link : ∀ m ∈ db.minted, db'.linkTo m = db.linkTo m) : RowOk db' r := by
  refine ⟨fun hr => ?_, fun hr => ?_⟩
  · obtain ⟨m, hm, hid, hat, hagent⟩ := h.claimed hr
    exact ⟨m, minted ▸ hm, hid, hat, hagent.trans (link m hm).symm⟩
  · rw [minted]
    exact h.unclaimed hr

theorem DbOk.quiet {db : Db} (h : DbOk s db) {e : Effect}
    (hi : e.inserts = false) (hc : e.commits = false)
    (update : ∀ r, e.update r = r) (agents : (db.apply e).agents = db.agents) :
    DbOk s (db.apply e) := by
  refine h.keep hi hc (fun a ha => ?_) fun r hr _ => ?_
  · rw [agents] at ha
    exact Nat.lt_of_lt_of_le (h.agent_lt a ha) (nextAgent_le_apply db e)
  · rw [update]
    exact (h.row r hr).keep (minted_apply db hc) fun m _ => linkTo_congr (by rw [agents])

theorem DbOk.expire {db : Db} (h : DbOk s db) (began : Int) : DbOk s (db.apply (.expire began)) := by
  refine h.keep rfl rfl h.agent_lt fun r hr _ => ?_
  have keep : RowOk (db.apply (.expire began)) r :=
    (h.row r hr).keep rfl fun _ _ => rfl
  simp only [Effect.update]
  split
  · rename_i hs
    simp only [Registration.stale, decide_eq_true_eq] at hs
    exact ⟨nofun, fun _ => keep.unclaimed (by simp [hs.1])⟩
  · exact keep

theorem DbOk.deleteAgent {db : Db} (h : DbOk s db) (id : Nat) :
    DbOk s (db.apply (.deleteAgent id)) := by
  have agents {a : Agent} : a ∈ (db.apply (.deleteAgent id)).agents ↔ a ∈ db.agents ∧ a.id ≠ id := by
    simp [Db.apply]
  refine h.keep rfl rfl (fun a ha => h.agent_lt a (agents.mp ha).1) fun r hr _ => ?_
  have row := h.row r hr
  simp only [Effect.update]
  refine ⟨fun hs => ?_, fun hs => ?_⟩
  · -- the link goes exactly when it points to this agent
    have hs' : r.status = .claimed := by
      split at hs <;> exact hs
    obtain ⟨m, hm, hid, hat, hagent⟩ := row.claimed hs'
    refine ⟨m, hm, ?_, ?_, ?_⟩
    · split <;> exact hid
    · split <;> exact hat
    · by_cases hmid : m.agent.id = id
      · have gone : (db.apply (.deleteAgent id)).linkTo m = none := by
          refine if_neg fun h => ?_
          simp only [List.any_eq_true, decide_eq_true_eq] at h
          obtain ⟨a, ha, he⟩ := h
          exact (agents.mp ha).2 (he.trans hmid)
        rw [gone]
        split
        · rfl
        · rename_i hne
          rw [hagent] at hne ⊢
          simp only [Db.linkTo, hmid] at hne ⊢
          split
          · rename_i hany
            simp [hany] at hne
          · rfl
      · have same : (db.apply (.deleteAgent id)).linkTo m = db.linkTo m := by
          refine linkTo_congr ⟨fun ⟨a, ha, he⟩ => ⟨a, (agents.mp ha).1, he⟩, fun ⟨a, ha, he⟩ => ?_⟩
          exact ⟨a, agents.mpr ⟨ha, he ▸ hmid⟩, he⟩
        rw [same, ← hagent]
        split
        · rename_i heq
          rw [hagent, Db.linkTo] at heq
          split at heq
          · cases heq
            exact absurd rfl hmid
          · cases heq
        · rfl
  · have hs' : r.status ≠ .claimed := by
      split at hs <;> exact hs
    obtain ⟨hat, hagent, hm⟩ := row.unclaimed hs'
    simp only [hagent, reduceCtorEq, if_false]
    exact ⟨hat, trivial, hm⟩

theorem DbOk.addAgent {db : Db} (h : DbOk s db) (name url token : String) :
    DbOk s (db.apply (.addAgent name url token)) := by
  have agents {a : Agent} : a ∈ (db.apply (.addAgent name url token)).agents ↔
      a ∈ db.agents ∨ a = ⟨db.nextAgent, name, url, token, .offline⟩ := by
    simp [Db.apply]
  refine h.keep rfl rfl (fun a ha => ?_) fun r hr _ => (h.row r hr).keep rfl fun m hm => ?_
  · rcases agents.mp ha with ha | rfl
    · exact Nat.lt_succ_of_lt (h.agent_lt a ha)
    · exact Nat.lt_succ_self _
  · refine linkTo_congr ⟨fun ⟨a, ha, he⟩ => ?_, fun ⟨a, ha, he⟩ => ⟨a, agents.mpr (Or.inl ha), he⟩⟩
    rcases agents.mp ha with ha | rfl
    · exact ⟨a, ha, he⟩
    · exact absurd he (Nat.ne_of_gt (h.minted m hm).1)

theorem DbOk.issue {db : Db} (h : DbOk s db) {row : Registration} {token : String}
    (id : row.id = db.nextRegistration) (hash : row.tokenHash = s.hash token)
    (pending : row.status = .pending) (claimedAt : row.claimedAt = none)
    (agentId : row.agentId = none) : DbOk s (db.apply (.insertRegistration row token)) := by
  have rows {r : Registration} : r ∈ (db.apply (.insertRegistration row token)).registrations ↔
      r ∈ db.registrations ∨ r = row := by
    simp [Db.apply]
  have issued {x : Nat × String} : x ∈ (db.apply (.insertRegistration row token)).issued ↔
      x ∈ db.issued ∨ x = (row.id, token) := by
    simp [Db.apply]
  have next : (db.apply (.insertRegistration row token)).nextRegistration = row.id + 1 := by
    simp [Db.apply, id]
  have old {r : Registration} (hr : r ∈ db.registrations) : r.id < row.id := id ▸ h.id_lt r hr
  refine {
    id_lt := fun r hr => ?_
    id_inj := fun r hr t ht hid => ?_
    agent_lt := h.agent_lt
    issued := fun r hr => ?_
    issued_lt := fun x hx => ?_
    row := fun r hr => ?_
    inTime := h.inTime
    minted := fun m hm => ⟨(h.minted m hm).1, ?_⟩
    distinct := h.distinct }
  · rw [next]
    rcases rows.mp hr with hr | rfl
    · exact Nat.lt_succ_of_lt (old hr)
    · exact Nat.lt_succ_self _
  · rcases rows.mp hr with hr | hr <;> rcases rows.mp ht with ht | ht
    · exact h.id_inj r hr t ht hid
    · rw [ht] at hid
      exact absurd hid (Nat.ne_of_lt (old hr))
    · rw [hr] at hid
      exact absurd hid.symm (Nat.ne_of_lt (old ht))
    · rw [hr, ht]
  · rcases rows.mp hr with hr | rfl
    · obtain ⟨t, ht, heq⟩ := h.issued r hr
      exact ⟨t, issued.mpr (Or.inl ht), heq⟩
    · exact ⟨token, issued.mpr (Or.inr rfl), hash⟩
  · rw [next]
    rcases issued.mp hx with hx | rfl
    · exact Nat.lt_succ_of_lt (id ▸ h.issued_lt x hx)
    · exact Nat.lt_succ_self _
  · rcases rows.mp hr with hr | rfl
    · exact (h.row r hr).keep rfl fun _ _ => rfl
    · -- no agent was made with a row that did not exist
      refine ⟨fun hs => ?_, fun _ => ⟨claimedAt, agentId, fun m hm hid => ?_⟩⟩
      · rw [pending] at hs
        cases hs
      · obtain ⟨t, ht, _⟩ := (h.minted m hm).2
        have := h.issued_lt _ ht
        simp only at this
        omega
  · obtain ⟨t, ht, heq⟩ := (h.minted m hm).2
    exact ⟨t, issued.mpr (Or.inl ht), heq⟩

theorem DbOk.commit {db : Db} (h : DbOk s db) {m : Mint} (hc : ClaimOk s db m.claim)
    (hm : MintOk db m) : DbOk s (db.apply (.commit m)) := by
  obtain ⟨id_lt, id_inj, issued⟩ := h.keys (e := .commit m) rfl
  obtain ⟨hissued, hnext⟩ := issued_apply db (e := .commit m) rfl
  have agents {a : Agent} : a ∈ (db.apply (.commit m)).agents ↔ a ∈ db.agents ∨ a = m.agent := by
    simp [commit_agents]
  have minted {n : Mint} : n ∈ (db.apply (.commit m)).minted ↔ n ∈ db.minted ∨ n = m := by
    simp [commit_minted]
  have next : (db.apply (.commit m)).nextAgent = db.nextAgent := by
    simp [Db.apply, Db.unlock, Mint.writes, Db.write]
  -- the claimed row is still unclaimed, so no agent was made with it before
  have first : ∀ n ∈ db.minted, n.claim.row.id ≠ m.claim.row.id :=
    ((h.row _ hc.mem).unclaimed (by simp [hc.inTime.pending])).2.2
  have link {n : Mint} (hn : n ∈ db.minted) : (db.apply (.commit m)).linkTo n = db.linkTo n := by
    refine linkTo_congr ⟨fun ⟨a, ha, he⟩ => ?_, fun ⟨a, ha, he⟩ => ⟨a, agents.mpr (Or.inl ha), he⟩⟩
    rcases agents.mp ha with ha | rfl
    · exact ⟨a, ha, he⟩
    · exact absurd he.symm (hm.minted n hn)
  have own : (db.apply (.commit m)).linkTo m = some m.agent.id :=
    if_pos (List.any_eq_true.mpr ⟨m.agent, agents.mpr (Or.inr rfl), decide_eq_true rfl⟩)
  refine {
    id_lt, id_inj, issued
    agent_lt := fun a ha => ?_
    issued_lt := by
      rw [hissued, hnext]
      exact h.issued_lt
    row := fun r hr => ?_
    inTime := fun n hn => ?_
    minted := fun n hn => ?_
    distinct := ?_ }
  · rw [next]
    rcases agents.mp ha with ha | rfl
    · exact h.agent_lt a ha
    · exact hm.lt
  · rw [commit_registrations] at hr
    obtain ⟨r', hr', rfl⟩ := List.mem_map.mp hr
    simp only [Effect.update]
    split
    · rename_i hid
      exact ⟨fun _ => ⟨m, minted.mpr (Or.inr rfl), hid.symm, rfl, own.symm⟩, fun hs => absurd rfl hs⟩
    · rename_i hid
      have row := h.row r' hr'
      refine ⟨fun hs => ?_, fun hs => ?_⟩
      · obtain ⟨n, hn, hnid, hat, hagent⟩ := row.claimed hs
        exact ⟨n, minted.mpr (Or.inl hn), hnid, hat, hagent.trans (link hn).symm⟩
      · obtain ⟨hat, hagent, hno⟩ := row.unclaimed hs
        refine ⟨hat, hagent, fun n hn => ?_⟩
        rcases minted.mp hn with hn | rfl
        · exact hno n hn
        · exact fun h => hid h.symm
  · rcases minted.mp hn with hn | rfl
    · exact h.inTime n hn
    · exact hc.inTime
  · rw [next, hissued]
    rcases minted.mp hn with hn | rfl
    · exact h.minted n hn
    · exact ⟨hm.lt, h.issued _ hc.mem⟩
  · rw [commit_minted, List.pairwise_append]
    refine ⟨h.distinct, List.pairwise_singleton _ _, fun n hn m' hm' => ?_⟩
    rw [List.mem_singleton.mp hm']
    exact ⟨first n hn, hm.minted n hn⟩

/-! ## The steps of a call -/

theorem StatementRule.dbOk {db : Db} {i : Input} {e : Effect} (h : StatementRule s db i e)
    (hdb : DbOk s db) : DbOk s (db.apply e) := by
  cases h with
  | none => exact hdb
  | expire => exact hdb.expire _
  | issue => exact hdb.issue rfl rfl rfl rfl rfl
  | cancel =>
    exact hdb.keep rfl rfl hdb.agent_lt fun r hr _ => (hdb.row r hr).keep rfl fun _ _ => rfl
  | deleteAgent => exact hdb.deleteAgent _

theorem call_rule {db : Db} {p p' : Call} {i : Input} {e : Effect}
    (h : Call.step s db p i = some (e, p')) : CallRule s db p i e p' := by
  cases p with
  | register p =>
    obtain ⟨q, hq, rfl⟩ := step_of_sum h
    exact register_rule s hq
  | provision p =>
    obtain ⟨q, hq, rfl⟩ := step_of_sum h
    exact .statement (provision_rule s hq) rfl rfl
  | listing p =>
    obtain ⟨q, hq, rfl⟩ := step_of_sum h
    exact .statement (listing_rule s hq) rfl rfl
  | cancel p =>
    obtain ⟨q, hq, rfl⟩ := step_of_sum h
    exact .statement (cancel_rule s hq) rfl rfl
  | agentDelete p =>
    obtain ⟨q, hq, rfl⟩ := step_of_sum h
    exact .statement (agentDelete_rule s hq) rfl rfl

theorem callOk_of_claim_none {db : Db} {p : Call} (h : p.claim = none) : CallOk s db p := by
  refine ⟨fun c hc => ?_, fun m hm => ?_⟩
  · rw [h] at hc
    cases hc
  · rw [mint_claim hm] at h
    cases h

theorem different_of_claim_none {p q : Call} (h : p.claim = none) : Different p q := by
  refine ⟨fun c hc => ?_, fun m hm => ?_⟩
  · rw [h] at hc
    cases hc
  · rw [mint_claim hm] at h
    cases h

theorem CallRule.own {db : Db} {p p' : Call} {i : Input} {e : Effect}
    (h : CallRule s db p i e p') (hdb : DbOk s db) (hp : CallOk s db p) :
    DbOk s (db.apply e) ∧ CallOk s (db.apply e) p' := by
  cases h with
  | statement h _ after => exact ⟨h.dbOk hdb, callOk_of_claim_none after⟩
  | @claim request began clock row found claimable _ =>
    simp only [Registration.claimable, decide_eq_true_eq] at claimable
    refine ⟨hdb.quiet rfl rfl (fun _ => rfl) rfl, fun c hc => ?_, fun m hm => by cases hm⟩
    cases hc
    exact ⟨⟨claimable.2.1, claimable.2.2, claimable.1⟩, found, List.mem_cons_self ..⟩
  | @insert claim =>
    refine ⟨hdb.quiet rfl rfl (fun _ => rfl) rfl, fun c hc => ?_, fun m hm => ?_⟩
    · cases hc
      have open_ := hp.1 claim rfl
      exact claimOk_apply open_ ⟨rfl, rfl, open_.locked⟩
    · cases hm
      exact ⟨Nat.lt_succ_self _, fun a ha => Nat.ne_of_lt (hdb.agent_lt a ha),
        fun n hn => Nat.ne_of_lt (hdb.minted n hn).1⟩
  | link => exact ⟨hdb, hp⟩
  | commit => exact ⟨hdb.commit (hp.1 _ rfl) (hp.2 _ rfl), callOk_of_claim_none rfl⟩
  | rollback => exact ⟨hdb.quiet rfl rfl (fun _ => rfl) rfl, callOk_of_claim_none rfl⟩

theorem CallRule.other {db : Db} {p p' q : Call} {i : Input} {e : Effect}
    (h : CallRule s db p i e p') (hdb : DbOk s db) (hq : CallOk s db q) (hpq : Different p q) :
    CallOk s (db.apply e) q ∧ Different p' q := by
  refine ⟨⟨fun c hc => ?_, fun m hm => mintOk_apply (hq.2 m hm) ?_⟩, ?_⟩
  · refine claimOk_apply (hq.1 c hc) (h.update_claimed hdb (hq.1 c hc) fun d hd => ?_)
    exact hpq.1 d hd c hc
  · rintro n rfl
    cases h with
    | statement h => cases h
    | commit => exact hpq.2 n rfl m hm
  · cases h with
    | statement _ _ after => exact different_of_claim_none after
    | claim _ _ unlocked =>
      refine ⟨fun c hc d hd hid => unlocked ?_, fun m hm => by cases hm⟩
      cases hc
      exact hid ▸ (hq.1 d hd).locked
    | insert =>
      refine ⟨fun c hc => ?_, fun m hm n hn => ?_⟩
      · cases hc
        exact hpq.1 _ rfl
      · cases hm
        exact Nat.ne_of_gt (hq.2 n hn).lt
    | link => exact hpq
    | commit => exact different_of_claim_none rfl
    | rollback => exact different_of_claim_none rfl

theorem registrations_inductive (ok : Config → Action → Prop) :
    Inductive (service s) ok (DbOk s) (CallOk s) Different where
  spawn := by
    intro c p _ _ hf
    exact callOk_of_claim_none (claim_fresh hf)
  spawn_pair := by
    intro c p q _ _ hf _
    have h := different_of_claim_none (q := q) (claim_fresh hf)
    exact ⟨h, h.symm⟩
  outside := by
    intro c e hc _ ho
    have quiet : DbOk s (c.store.apply e) ∧ (∀ r, e.drops r = false ∧ e.update r = r) ∧
        (c.store.apply e).locks = c.store.locks ∧ e.commits = false := by
      cases e with
      | tick d => exact ⟨hc.store.quiet rfl rfl (fun _ => rfl) rfl, fun _ => ⟨rfl, rfl⟩, rfl, rfl⟩
      | addAgent => exact ⟨hc.store.addAgent _ _ _, fun _ => ⟨rfl, rfl⟩, rfl, rfl⟩
      | _ => cases ho
    obtain ⟨store, rows, locks, hcommit⟩ := quiet
    refine ⟨store, fun p hp => ⟨fun d hd => ?_, fun m hm => ?_⟩⟩
    · have open_ := (hc.proc p hp).1 d hd
      exact claimOk_apply open_ ⟨(rows _).1, (rows _).2, locks.symm ▸ open_.locked⟩
    · refine mintOk_apply ((hc.proc p hp).2 m hm) ?_
      rintro n rfl
      cases hcommit
  own := fun hc _ hp hs =>
    (call_rule hs).own hc.store (hc.proc _ (List.mem_of_getElem? hp))
  other := by
    intro c k i p e p' j q hc _ hp hs hj hq
    have h := (call_rule hs).other hc.store (hc.proc q (List.mem_of_getElem? hq))
      (hc.pair hj.symm hp hq)
    exact ⟨h.1, h.2, h.2.symm⟩

theorem holds_of_run {ok : Config → Action → Prop} {now : Int} {c : Config}
    (h : (service s).Runs ok (boot now) c) : Holds (DbOk s) (CallOk s) Different c := by
  refine (registrations_inductive ok).holds_of_run ⟨?_, by simp [boot], by simp [boot]⟩ h
  constructor <;> simp [boot]

/-! ## The laws -/

def Status.moves (before after : Status) : Prop :=
  after = before ∨ before = .pending ∧ (after = .claimed ∨ after = .expired)

theorem CallRule.moves {db : Db} {p p' : Call} {i : Input} {e : Effect}
    (h : CallRule s db p i e p') (hdb : DbOk s db) (hp : CallOk s db p)
    {r : Registration} (hr : r ∈ db.registrations) : r.status.moves (e.update r).status := by
  cases h with
  | statement h =>
    cases h with
    | expire =>
      simp only [Effect.update]
      split
      · rename_i hs
        simp only [Registration.stale, decide_eq_true_eq] at hs
        exact Or.inr ⟨hs.1, Or.inr rfl⟩
      · exact Or.inl rfl
    | deleteAgent =>
      simp only [Effect.update]
      split <;> exact Or.inl rfl
    | _ => exact Or.inl rfl
  | commit =>
    have open_ := hp.1 _ rfl
    simp only [Effect.update]
    split
    · rename_i hid
      rw [hdb.id_inj r hr _ open_.mem hid]
      exact Or.inr ⟨open_.inTime.pending, Or.inl rfl⟩
    · exact Or.inl rfl
  | _ => exact Or.inl rfl

theorem CallRule.inserts_next {db : Db} {p p' : Call} {i : Input} {row : Registration}
    {token : String} (h : CallRule s db p i (.insertRegistration row token) p') :
    row.id = db.nextRegistration := by
  cases h with
  | statement h =>
    cases h
    rfl

theorem status_moves {c c' : Config} (hc : Holds (DbOk s) (CallOk s) Different c) {a : Action}
    (he : (service s).exec c a = some c') {r r' : Registration} (hr : r ∈ c.store.registrations)
    (hr' : r' ∈ c'.store.registrations) (hid : r'.id = r.id) : r.status.moves r'.status := by
  have same (h : r' ∈ c.store.registrations) : r.status.moves r'.status :=
    Or.inl (by rw [hc.store.id_inj r' h r hr hid])
  rcases System.exec_cases he with ⟨p, rfl, _, rfl⟩ | ⟨k, i, p, e, p', rfl, hp, hs, rfl⟩ |
    ⟨e, rfl, ho, rfl⟩
  · exact same hr'
  · have rule := call_rule hs
    rcases mem_registrations_apply.mp hr' with ⟨token, rfl⟩ | ⟨t, ht, _, rfl⟩
    · have := hc.store.id_lt r hr
      rw [rule.inserts_next] at hid
      omega
    · rw [update_id] at hid
      rw [hc.store.id_inj t ht r hr hid]
      exact rule.moves hc.store (hc.proc p (List.mem_of_getElem? hp)) hr
  · cases e with
    | tick => exact same hr'
    | addAgent => exact same hr'
    | _ => cases ho

/-- A token makes no more agents than it was issued times. -/
theorem tokens_minted {db : Db} (h : DbOk s db) (hash : Function.Injective s.hash)
    (token : String) :
    (db.minted.filter fun m => decide (m.claim.request.token = token)).length ≤
      (db.issued.filter fun x => decide (x.2 = token)).length := by
  -- the registrations of the first list are distinct and all in the second
  have rows : ((db.minted.filter fun m => decide (m.claim.request.token = token)).map
      fun m => m.claim.row.id).Nodup :=
    List.pairwise_map.mpr ((h.distinct.filter _).imp And.left)
  have issued : ((db.minted.filter fun m => decide (m.claim.request.token = token)).map
      fun m => m.claim.row.id) ⊆ (db.issued.filter fun x => decide (x.2 = token)).map Prod.fst := by
    intro id hid
    obtain ⟨m, hm, rfl⟩ := List.mem_map.mp hid
    obtain ⟨hm, htoken⟩ := List.mem_filter.mp hm
    obtain ⟨t, ht, hhash⟩ := (h.minted m hm).2
    have : t = m.claim.request.token := hash (hhash.symm.trans (h.inTime m hm).token)
    exact List.mem_map.mpr ⟨_, List.mem_filter.mpr ⟨ht, by simpa [this] using htoken⟩, rfl⟩
  simpa using (List.Nodup.subperm rows issued).length_le

/-- Two claimed rows with one agent would be one registration. -/
theorem agentId_inj {db : Db} (h : DbOk s db) {r t : Registration} (hr : r ∈ db.registrations)
    (ht : t ∈ db.registrations) {agentId : Nat} (hra : r.agentId = some agentId)
    (hta : t.agentId = some agentId) : r = t := by
  have minted {r : Registration} (hr : r ∈ db.registrations) (hra : r.agentId = some agentId) :
      ∃ m ∈ db.minted, m.claim.row.id = r.id ∧ m.agent.id = agentId := by
    have row := h.row r hr
    by_cases hs : r.status = .claimed
    · obtain ⟨m, hm, hid, _, hagent⟩ := row.claimed hs
      refine ⟨m, hm, hid, ?_⟩
      rw [hagent, Db.linkTo] at hra
      split at hra
      · exact Option.some.inj hra
      · cases hra
    · rw [(row.unclaimed hs).2.1] at hra
      cases hra
  obtain ⟨m, hm, hmid, hma⟩ := minted hr hra
  obtain ⟨n, hn, hnid, hna⟩ := minted ht hta
  have agents : (db.minted.map fun m => m.agent.id).Nodup :=
    List.pairwise_map.mpr (h.distinct.imp And.right)
  obtain rfl : m = n := List.inj_on_of_nodup_map agents hm hn (hma.trans hna.symm)
  exact h.id_inj r hr t ht (hmid.symm.trans hnid)

structure Laws (db : Db) : Prop where
  /-- The agents of one token are as many as the registrations issued with it, at most. -/
  token : ∀ token, (db.minted.filter fun m => decide (m.claim.request.token = token)).length ≤
    (db.issued.filter fun x => decide (x.2 = token)).length
  once : db.minted.Pairwise fun m n =>
    m.claim.row.id ≠ n.claim.row.id ∧ m.agent.id ≠ n.agent.id
  inTime : ∀ m ∈ db.minted, m.claim.row.status = .pending ∧ m.claim.began < m.claim.row.expiresAt
  unclaimed : ∀ r ∈ db.registrations, r.status ≠ .claimed → r.claimedAt = none ∧ r.agentId = none
  claimed : ∀ r ∈ db.registrations, r.status = .claimed → ∃ m ∈ db.minted,
    m.claim.row.id = r.id ∧ r.claimedAt = some m.claim.claimedAt ∧ r.agentId = db.linkTo m
  agentId : ∀ r ∈ db.registrations, ∀ t ∈ db.registrations, ∀ agentId,
    r.agentId = some agentId → t.agentId = some agentId → r = t

/-- The laws of the tables in every state, and the ways a status can go. -/
theorem registration_laws {s : Settings} (hash : Function.Injective s.hash) {now : Int} {c : Config}
    (h : (service s).Runs (fun _ _ => True) (boot now) c) :
    Laws c.store ∧ ∀ (a : Action) (c' : Config), (service s).exec c a = some c' →
      ∀ r ∈ c.store.registrations, ∀ r' ∈ c'.store.registrations, r'.id = r.id →
        r.status.moves r'.status := by
  have hc := holds_of_run h
  refine ⟨?_, fun a c' he r hr r' hr' => status_moves hc he hr hr'⟩
  exact {
    token := tokens_minted hc.store hash
    once := hc.store.distinct
    inTime := fun m hm => ⟨(hc.store.inTime m hm).pending, (hc.store.inTime m hm).unexpired⟩
    unclaimed := fun r hr hs =>
      ⟨((hc.store.row r hr).unclaimed hs).1, ((hc.store.row r hr).unclaimed hs).2.1⟩
    claimed := fun r hr => (hc.store.row r hr).claimed
    agentId := fun r hr t ht _ => agentId_inj hc.store hr ht }

def zeroToken : String := String.ofList (List.replicate 64 '0')

/-- SHA-256 on one token, and any injective continuation of it. -/
def zeroHash (token : String) : String :=
  if token = zeroToken then "60e05bd1b195af2f94112fa7197a5c88289058840ce7c6df9693756bc6250f55"
  else "x" ++ token

theorem zeroHash_injective : Function.Injective zeroHash := by
  intro t u h
  have hne (v : String) :
      "60e05bd1b195af2f94112fa7197a5c88289058840ce7c6df9693756bc6250f55" ≠ "x" ++ v := by
    intro h
    have := congrArg String.toList h
    simp at this
  unfold zeroHash at h
  split at h <;> split at h
  · rename_i ht hu
    rw [ht, hu]
  · exact absurd h (hne u)
  · exact absurd h.symm (hne t)
  · exact String.append_right_inj "x" |>.mp h

def zeroSettings : Settings :=
  ⟨zeroHash, id, id, fun _ => true, .valid, fun url token => .ok (url ++ token), 3600⟩

/-- Two registers with one token, of which the second waits for the first to commit,
and the delete of the agent made. -/
def raceActions : List Action :=
  [.spawn (.provision (.start " gpu " "https://karr")), .proc 0 (.run 0), .proc 0 (.run 0),
    .proc 0 (.token zeroToken), .proc 0 (.run 0),
    .spawn (.register (.start ⟨zeroToken, "10.0.0.9", 7777, "secret", none⟩)),
    .spawn (.register (.start ⟨zeroToken, "10.0.0.8", 7777, "secret", none⟩)),
    .proc 1 (.run 5), .proc 2 (.run 6), .proc 1 (.run 7), .proc 1 (.run 8), .proc 1 (.run 9),
    .proc 1 (.run 10), .proc 2 (.run 11),
    .spawn (.agentDelete (.start 0)), .proc 3 (.run 12), .proc 3 (.run 13)]

theorem registration_laws_race : ∃ c,
    (service zeroSettings).Runs (fun _ _ => True) (boot 0) c ∧ c.store.agents = [] ∧
      c.store.minted.length = 1 ∧ Laws c.store := by
  obtain ⟨c, hr, hp⟩ := exists_run_of_execute (service zeroSettings).exec (fun _ _ => true) (boot 0)
    raceActions (fun c => decide (c.store.agents = [] ∧ c.store.minted.length = 1))
    (fun _ _ _ => trivial) (by decide)
  simp only [decide_eq_true_eq] at hp
  exact ⟨c, hr, hp.1, hp.2, (registration_laws zeroHash_injective hr).1⟩

end Karr.Registrations
