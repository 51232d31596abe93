import Karr.RegistrationViews

/-!
# Registering is all or nothing

A `register` that nothing overlaps either commits the claim, the agent and the
link together, or leaves the tables as they were. A failure of the registry
comes after the commit and is not reported.
-/

set_option autoImplicit false

namespace Karr.Registrations

open Interleaving

variable (s : Settings)

/-- `register` with nothing else going on; the upsert of the registry succeeds or raises. -/
def registerAlone (request : RegisterRequest) (clock : Int) (upsert : Bool) (db : Db) : Db × Call :=
  (service s).drive
    (fun p =>
      match p with
      | .register (.refreshed _) => if upsert then .run clock else .raise
      | _ => .run clock)
    7 db (.register (.start request))

/-- One new agent, and the registration it came from claimed for it; nothing else. -/
structure Registered (request : RegisterRequest) (clock : Int) (db db' : Db)
    (row : Registration) (agent : Agent) : Prop where
  matching : claimMatch s db request.token db.now = some row
  agents : db'.agents = db.agents ++ [agent]
  fresh : ∀ a ∈ db.agents, a.id ≠ agent.id
  name : agent.name = row.label
  url : s.validateAgentUrl ("http://" ++ request.host ++ ":" ++ toString request.port) =
    .valid agent.url
  token : agent.tokenEncrypted = s.encrypt request.authToken
  offline : agent.status = .offline
  registrations : db'.registrations = db.registrations.map fun r =>
    if r = row then
      { row with status := .claimed, claimedAt := some clock, agentId := some agent.id }
    else r
  unlocked : db'.locks = db.locks ∧ db'.names = db.names

/-! ## The phases of the transaction -/

section Phases
variable {db : Db} {request : RegisterRequest} {clock : Int}

/-- The checks after the claim: each that fails rolls the claim back. -/
theorem claimed_cases (db : Db) (claim : Claim) (clock : Int) (free : db.names = []) :
    (∃ reply, reply ≠ .ok ∧ registerStep s db (.claimed claim) (.run clock) =
        some (.rollback claim.row.id none, .done reply)) ∨
      ∃ url, s.validateAgentUrl
          ("http://" ++ claim.request.host ++ ":" ++ toString claim.request.port) = .valid url ∧
        registerStep s db (.claimed claim) (.run clock) = some (.insertAgent claim.name,
          .inserted ⟨claim, db.nextAgent, claim.name, url,
            s.encrypt claim.request.authToken, .offline⟩) := by
  simp only [registerStep]
  split
  · exact Or.inl ⟨_, Reply.noConfusion, rfl⟩
  · split
    · exact Or.inl ⟨_, Reply.noConfusion, rfl⟩
    · exact Or.inl ⟨_, Reply.noConfusion, rfl⟩
    · rename_i url valid
      split
      · exact Or.inl ⟨_, Reply.noConfusion, rfl⟩
      · exact Or.inr ⟨url, valid, by simp [free]⟩

/-- From the flush on nothing can fail, whatever the registry does. -/
theorem drive_inserted (db : Db) (mint : Mint) (clock : Int) (upsert : Bool) :
    (service s).drive
        (fun p =>
          match p with
          | .register (.refreshed _) => if upsert then .run clock else .raise
          | _ => .run clock)
        4 db (.register (.inserted mint)) =
      (db.apply (.commit mint), .register (.done .ok)) := by
  have link : (service s).step db (.register (.inserted mint)) (.run clock) =
      some (.none, .register (.linked mint)) := rfl
  have commit : (service s).step db (.register (.linked mint)) (.run clock) =
      some (.commit mint, .register (.committed mint.agent)) := rfl
  have refresh : (service s).step (db.apply (.commit mint)) (.register (.committed mint.agent))
      (.run clock) = some (.none, .register (.refreshed mint.agent)) := by
    simp [service, Call.step, registerStep, commit_agents]
  have reload : (service s).step (db.apply (.commit mint)) (.register (.refreshed mint.agent))
      (if upsert then .run clock else .raise) = some (.none, .register (.done .ok)) := by
    cases upsert <;> rfl
  rw [System.drive_step 3 link]
  change (service s).drive _ 3 db _ = _
  rw [System.drive_step 2 commit]
  change (service s).drive _ 2 (db.apply (.commit mint)) _ = _
  rw [System.drive_step 1 refresh]
  change (service s).drive _ 1 (db.apply (.commit mint)) _ = _
  rw [System.drive_step 0 reload]
  rfl

theorem rollback_claim (db : Db) (id : Nat) (unlocked : db.locks = []) :
    (db.apply (.lock id)).apply (.rollback id none) = db := by
  obtain ⟨now, registrations, agents, nextRegistration, nextAgent, locks, names, issued, minted⟩ :=
    db
  obtain rfl : locks = [] := unlocked
  simp [Db.apply, Db.unlock]

/-- The tables a claim and a commit leave, seen from before the claim. -/
def Claim.committed (c : Claim) (db : Db) (url token : String) : Db :=
  ((db.apply (.lock c.row.id)).apply (.insertAgent c.name)).apply
    (.commit ⟨c, db.nextAgent, c.name, url, token, .offline⟩)

theorem committed_agents (c : Claim) (db : Db) (url token : String) :
    (c.committed db url token).agents =
      db.agents ++ [⟨db.nextAgent, c.name, url, token, .offline⟩] := by
  rw [Claim.committed, commit_agents]
  rfl

theorem committed_registrations (c : Claim) (db : Db) (url token : String) :
    (c.committed db url token).registrations = db.registrations.map fun r =>
      if r.id = c.row.id then { r with
        status := .claimed, claimedAt := some c.claimedAt, agentId := some db.nextAgent }
      else r := by
  rw [Claim.committed, commit_registrations]
  rfl

theorem registered_commit {row : Registration} {url : String} (ok : TablesOk db)
    (unlocked : db.locks = []) (free : db.names = [])
    (found : claimMatch s db request.token db.now = some row)
    (valid : s.validateAgentUrl ("http://" ++ request.host ++ ":" ++ toString request.port) =
      .valid url) :
    Registered s request clock db
      (Claim.committed ⟨request, db.now, row, clock⟩ db url (s.encrypt request.authToken)) row
      ⟨db.nextAgent, Claim.name ⟨request, db.now, row, clock⟩, url, s.encrypt request.authToken,
        .offline⟩ := by
  have hrow : row ∈ db.registrations := List.mem_of_find?_eq_some found
  refine ⟨found, committed_agents _ _ _ _, ?_, if_neg (ok.labelled row hrow), valid, rfl, rfl,
    ?_, ?_⟩
  · intro a ha
    exact Nat.ne_of_lt (ok.agent_lt a ha)
  · rw [committed_registrations]
    refine List.map_congr_left fun r hr => ?_
    by_cases hid : r.id = row.id
    · obtain rfl := ok.id_inj r hr row hrow hid
      simp
    · have hne : r ≠ row := fun h => hid (congrArg Registration.id h)
      simp [hid, hne]
  · simp [Claim.committed, Db.apply, Db.unlock, Mint.writes, Db.write, unlocked, free]

/-- The call commits, or it refuses and the database is as it was. -/
theorem registerAlone_cases (db : Db) (request : RegisterRequest) (clock : Int) (upsert : Bool)
    (unlocked : db.locks = []) (free : db.names = []) :
    (∃ row url, claimMatch s db request.token db.now = some row ∧
        s.validateAgentUrl ("http://" ++ request.host ++ ":" ++ toString request.port) =
          .valid url ∧
        registerAlone s request clock upsert db =
          (Claim.committed ⟨request, db.now, row, clock⟩ db url (s.encrypt request.authToken),
            .register (.done .ok))) ∨
      ∃ reply, reply ≠ .ok ∧
        registerAlone s request clock upsert db = (db, .register (.done reply)) := by
  have begin_ : (service s).step db (.register (.start request)) (.run clock) =
      some (.none, .register (.begun request db.now)) := rfl
  unfold registerAlone claimMatch
  rw [System.drive_step 6 begin_]
  change (∃ row url, _ ∧ _ ∧ (service s).drive _ 6 db _ = _) ∨
    ∃ reply, _ ∧ (service s).drive _ 6 db _ = _
  cases found : db.registrations.find? (Registration.claimable (s.hash request.token) db.now) with
  | none =>
    have refused : (service s).step db (.register (.begun request db.now)) (.run clock) =
        some (.none, .register
          (.done (.registrationFailed "invalid or expired registration token"))) := by
      simp [service, Call.step, registerStep, found]
    rw [System.drive_step 5 refused, System.drive_stop 5 rfl]
    exact Or.inr ⟨_, Reply.noConfusion, rfl⟩
  | some row =>
    have claim : (service s).step db (.register (.begun request db.now)) (.run clock) =
        some (.lock row.id, .register (.claimed ⟨request, db.now, row, clock⟩)) := by
      simp [service, Call.step, registerStep, found, unlocked]
    rw [System.drive_step 5 claim]
    change (∃ row url, _ ∧ _ ∧ (service s).drive _ 5 (db.apply (.lock _)) _ = _) ∨
      ∃ reply, _ ∧ (service s).drive _ 5 (db.apply (.lock _)) _ = _
    rcases claimed_cases s (db.apply (.lock row.id)) ⟨request, db.now, row, clock⟩ clock free with
      ⟨reply, hreply, fail⟩ | ⟨url, valid, insert⟩
    · have step : (service s).step (db.apply (.lock row.id))
          (.register (.claimed ⟨request, db.now, row, clock⟩)) (.run clock) =
          some (.rollback row.id none, .register (.done reply)) := by
        simp only [service, Call.step, fail, Option.map_some]
      rw [System.drive_step 4 step, System.drive_stop 4 rfl]
      refine Or.inr ⟨reply, hreply, ?_⟩
      exact congrArg (·, _) (rollback_claim db row.id unlocked)
    · have step : (service s).step (db.apply (.lock row.id))
          (.register (.claimed ⟨request, db.now, row, clock⟩)) (.run clock) =
          some (.insertAgent (Claim.name ⟨request, db.now, row, clock⟩),
            .register (.inserted ⟨⟨request, db.now, row, clock⟩, db.nextAgent,
              Claim.name ⟨request, db.now, row, clock⟩, url, s.encrypt request.authToken,
              .offline⟩)) := by
        simp only [service, Call.step, insert, Option.map_some]
        rfl
      rw [System.drive_step 4 step, drive_inserted]
      exact Or.inl ⟨row, url, rfl, valid, rfl⟩

end Phases

/-- `register` either returns an agent, with exactly its own writes made, or raises, and
leaves the database as it was. -/
theorem register_all_or_nothing {db : Db} (ok : TablesOk db) (unlocked : db.locks = [])
    (free : db.names = []) (request : RegisterRequest) (clock : Int) (upsert : Bool) :
    ∃ db' reply, registerAlone s request clock upsert db = (db', .register (.done reply)) ∧
      ((reply = .ok ∧ ∃ row agent, Registered s request clock db db' row agent) ∨
        (reply ≠ .ok ∧ db' = db)) := by
  rcases registerAlone_cases s db request clock upsert unlocked free with
    ⟨row, url, found, valid, run⟩ | ⟨reply, hreply, run⟩
  · exact ⟨_, _, run, Or.inl ⟨rfl, row, _, registered_commit s ok unlocked free found valid⟩⟩
  · exact ⟨_, _, run, Or.inr ⟨hreply, rfl⟩⟩

/-- A database with one registration, as `provision` leaves it. -/
def oneRegistration : Db := ⟨0, [zeroRow], [], 1, 0, [], [], [(0, zeroToken)], []⟩

/-- A valid registration, after which the registry raises: the call answers with its writes. -/
theorem register_all_or_nothing_upsert :
    ∃ db' row agent,
      registerAlone zeroSettings ⟨zeroToken, "10.0.0.9", 7777, "secret", none⟩ 5 false
        oneRegistration = (db', .register (.done .ok)) ∧
      Registered zeroSettings ⟨zeroToken, "10.0.0.9", 7777, "secret", none⟩ 5 oneRegistration db'
        row agent := by
  obtain ⟨db', reply, run, ⟨rfl, row, agent, written⟩ | ⟨failed, -⟩⟩ :=
    register_all_or_nothing zeroSettings
      (⟨by decide, by decide, by decide, by decide⟩ : TablesOk oneRegistration) rfl rfl
      ⟨zeroToken, "10.0.0.9", 7777, "secret", none⟩ 5 false
  · exact ⟨db', row, agent, run, written⟩
  · have answered : (registerAlone zeroSettings ⟨zeroToken, "10.0.0.9", 7777, "secret", none⟩ 5
        false oneRegistration).2 = .register (.done .ok) := by decide
    rw [run] at answered
    cases answered
    exact absurd rfl failed

end Karr.Registrations
