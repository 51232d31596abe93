import Karr.Lib.Solo
import Karr.Registrations

/-!
# Three views of a registration

The list, the lookup for the install script and the claim each decide from
status and expiry whether a registration can still be used. They agree in every
state of the tables, at every instant.
-/

set_option autoImplicit false

namespace Karr.Registrations

open Interleaving

variable (s : Settings)

/-- `list` in a transaction begun at this instant, with nothing else going on. -/
def list (db : Db) (t clock : Int) : Db × Call :=
  (service s).drive (fun _ => .run clock) 2 db (.listing (.expiring true t))

/-- The answer shows the row as pending. -/
def ShowsPending (rows : List Registration) (row : Registration) : Prop :=
  ∃ r ∈ rows, r.id = row.id ∧ r.status = .pending

/-- The claim of a `register` matches the row: the call goes on with it, or waits for the
transaction that holds it. -/
def Claims (db : Db) (request : RegisterRequest) (t clock : Int) (row : Registration) : Prop :=
  registerStep s db (.begun request t) (.run clock) =
    if row.id ∈ db.locks then none
    else some (.lock row.id, .claimed ⟨request, t, row, clock⟩)

/-- The row a `register` with this token claims in a transaction begun at this instant. -/
def claimMatch (db : Db) (token : String) (t : Int) : Option Registration :=
  db.registrations.find? (Registration.claimable (s.hash token) t)

/-- The keys of the tables, and that every registration has a label. -/
structure TablesOk (db : Db) : Prop where
  id_inj : ∀ r ∈ db.registrations, ∀ t ∈ db.registrations, r.id = t.id → r = t
  hash_inj : ∀ r ∈ db.registrations, ∀ t ∈ db.registrations, r.tokenHash = t.tokenHash → r = t
  labelled : ∀ r ∈ db.registrations, r.label ≠ ""
  agent_lt : ∀ a ∈ db.agents, a.id < db.nextAgent

/-! ## The keys hold in every state -/

/-- Hashes are unique, and `provision` asks for a label. -/
structure RowsKeyed (db : Db) : Prop where
  hash_inj : ∀ r ∈ db.registrations, ∀ t ∈ db.registrations, r.tokenHash = t.tokenHash → r.id = t.id
  labelled : ∀ r ∈ db.registrations, r.label ≠ ""

def Labelled : Call → Prop
  | .provision (.expiring label _ _) => label ≠ ""
  | .provision (.expired label _) => label ≠ ""
  | _ => True

/-- A new row has a label, and a hash that no other row has. -/
def InsertsKeyed (db : Db) (e : Effect) : Prop :=
  ∀ row token, e = .insertRegistration row token →
    row.label ≠ "" ∧ ∀ r ∈ db.registrations, r.tokenHash ≠ row.tokenHash

theorem update_label (e : Effect) (r : Registration) : (e.update r).label = r.label := by
  cases e <;> simp only [Effect.update] <;> split <;> rfl

theorem rowsKeyed_apply {db : Db} {e : Effect} (h : RowsKeyed db) (he : InsertsKeyed db e) :
    RowsKeyed (db.apply e) := by
  constructor
  · intro r' hr' t' ht' hash
    rcases mem_registrations_apply.mp hr' with ⟨token, rfl⟩ | ⟨r, hr, _, rfl⟩ <;>
      rcases mem_registrations_apply.mp ht' with ⟨_, h'⟩ | ⟨t, ht, _, rfl⟩
    · cases h'
      rfl
    · exact absurd hash.symm ((he _ token rfl).2 t ht)
    · subst h'
      exact absurd hash ((he _ _ rfl).2 r hr)
    · rw [update_tokenHash, update_tokenHash] at hash
      rw [update_id, update_id]
      exact h.hash_inj r hr t ht hash
  · intro r' hr'
    rcases mem_registrations_apply.mp hr' with ⟨token, rfl⟩ | ⟨r, hr, _, rfl⟩
    · exact (he _ token rfl).1
    · rw [update_label]
      exact h.labelled r hr

theorem provisionStep_keyed {db : Db} {p p' : Provision} {i : Input} {e : Effect}
    (h : provisionStep s db p i = some (e, p')) (hp : Labelled (.provision p)) :
    InsertsKeyed db e ∧ Labelled (.provision p') := by
  have quiet : InsertsKeyed db .none := by
    intro row token h
    cases h
  revert h
  revert hp
  fun_cases provisionStep s db p i <;> intro hp h <;> cases h
  case case2 named => exact ⟨quiet, named⟩
  case case4 =>
    refine ⟨?_, hp⟩
    intro row token h
    cases h
  case case7 unique row =>
    refine ⟨?_, trivial⟩
    intro r token h
    obtain ⟨rfl, -⟩ := Effect.insertRegistration.inj h
    exact ⟨hp, by simpa using unique⟩
  all_goals exact ⟨quiet, trivial⟩

theorem step_insert {db : Db} {p p' : Call} {i : Input} {row : Registration} {token : String}
    (h : (service s).step db p i = some (.insertRegistration row token, p')) :
    ∃ q, p = .provision q := by
  cases p <;> obtain ⟨q, hs, -⟩ := step_of_sum h
  case provision p => exact ⟨p, rfl⟩
  all_goals revert hs
  case listing p => fun_cases listingStep db p i <;> intro hs <;> cases hs
  case cancel p => fun_cases cancelStep db p i <;> intro hs <;> cases hs
  case agentDelete p => fun_cases agentDeleteStep db p i <;> intro hs <;> cases hs
  case register p => fun_cases registerStep s db p i <;> intro hs <;> cases hs

theorem step_keyed {db : Db} {p p' : Call} {i : Input} {e : Effect}
    (h : (service s).step db p i = some (e, p')) (hp : Labelled p) :
    InsertsKeyed db e ∧ Labelled p' := by
  have others (hne : ∀ q, p ≠ .provision q) : InsertsKeyed db e := by
    rintro row token rfl
    obtain ⟨q, rfl⟩ := step_insert s h
    exact absurd rfl (hne q)
  cases p with
  | provision p =>
    obtain ⟨q, hs, rfl⟩ := step_of_sum h
    exact provisionStep_keyed s hs hp
  | _ =>
    refine ⟨others fun _ => Call.noConfusion, ?_⟩
    obtain ⟨q, -, rfl⟩ := step_of_sum h
    trivial

theorem fresh_labelled {p : Call} (h : p.fresh = true) : Labelled p := by
  rcases p with p | p | p | p | p <;> cases p <;> trivial

theorem keyed_inductive (ok : Config → Action → Prop) :
    Inductive (service s) ok RowsKeyed (fun _ p => Labelled p) (fun _ _ => True) where
  spawn := fun _ _ hp => fresh_labelled hp
  spawn_pair := fun _ _ _ _ => ⟨trivial, trivial⟩
  outside := by
    intro c e hc _ he
    refine ⟨rowsKeyed_apply hc.store ?_, hc.proc⟩
    rintro row token rfl
    cases he
  own := by
    intro c k i p e p' hc _ hp hs
    have keyed := step_keyed s hs (hc.proc p (List.mem_of_getElem? hp))
    exact ⟨rowsKeyed_apply hc.store keyed.1, keyed.2⟩
  other := fun hc _ _ _ _ hq => ⟨hc.proc _ (List.mem_of_getElem? hq), trivial, trivial⟩

theorem tablesOk_of_run {ok : Config → Action → Prop} {now : Int} {c : Config}
    (h : (service s).Runs ok (boot now) c) : TablesOk c.store := by
  have db := (holds_of_run h).store
  have keyed : RowsKeyed c.store := ((keyed_inductive s ok).holds_of_run
    ⟨⟨by simp [boot], by simp [boot]⟩, by simp [boot], fun _ _ _ => trivial⟩ h).store
  exact ⟨db.id_inj, fun r hr t ht hash => db.id_inj r hr t ht (keyed.hash_inj r hr t ht hash),
    keyed.labelled, db.agent_lt⟩

/-! ## The three views -/

section Views
variable {db : Db} {row : Registration} {token : String} {t : Int}

/-- The rows `list` answers with, once its two statements have run. -/
def listed (db : Db) (t : Int) : List Registration :=
  newestFirst (db.apply (.expire t)).registrations

theorem mem_listed {r : Registration} : r ∈ listed db t ↔
    ∃ row ∈ db.registrations, Effect.update (.expire t) row = r := by
  unfold listed newestFirst
  rw [(List.perm_insertionSort _ _).mem_iff, mem_registrations_apply]
  simp [Effect.drops]

/-- The list shows a row as pending where it is pending and not stale. -/
theorem showsPending_iff (ok : TablesOk db) (hr : row ∈ db.registrations) :
    ShowsPending (listed db t) row ↔ row.status = .pending ∧ t < row.expiresAt := by
  have shown : (Effect.update (.expire t) row).status = .pending ↔
      row.status = .pending ∧ t < row.expiresAt := by
    by_cases stale : row.status = .pending ∧ row.expiresAt ≤ t
    · have flipped : Effect.update (.expire t) row = { row with status := .expired } :=
        if_pos (decide_eq_true stale)
      rw [flipped]
      exact ⟨fun h => (by cases h), fun h => absurd stale.2 (Int.not_le.mpr h.2)⟩
    · have kept : Effect.update (.expire t) row = row :=
        if_neg (by simpa [Registration.stale] using stale)
      rw [kept]
      exact ⟨fun h => ⟨h, Int.not_le.mp fun hle => stale ⟨h, hle⟩⟩, And.left⟩
  constructor
  · rintro ⟨r, hlisted, hid, pending⟩
    obtain ⟨u, hu, rfl⟩ := mem_listed.mp hlisted
    rw [update_id] at hid
    obtain rfl := ok.id_inj u hu row hr hid
    exact shown.mp pending
  · exact fun h => ⟨_, mem_listed.mpr ⟨row, hr, rfl⟩, update_id _ _, shown.mpr h⟩

theorem find_hash (ok : TablesOk db) (hr : row ∈ db.registrations)
    (hash : row.tokenHash = s.hash token) :
    db.registrations.find? (fun r => decide (r.tokenHash = s.hash token)) = some row := by
  cases h : db.registrations.find? fun r => decide (r.tokenHash = s.hash token) with
  | none => exact absurd (decide_eq_true hash) (List.find?_eq_none.mp h row hr)
  | some r =>
    have hm := List.mem_of_find?_eq_some h
    have hh : r.tokenHash = s.hash token := by simpa using List.find?_some h
    rw [ok.hash_inj r hm row hr (hh.trans hash.symm)]

theorem lookup_ok_iff (ok : TablesOk db) (hr : row ∈ db.registrations)
    (hash : row.tokenHash = s.hash token) :
    lookupForInstall s db token t = .ok row ↔ row.status = .pending ∧ t < row.expiresAt := by
  simp only [lookupForInstall, find_hash s ok hr hash]
  split
  · rename_i unusable
    refine ⟨fun h => (by cases h), fun ⟨pending, fresh⟩ => ?_⟩
    exact absurd unusable (not_or.mpr ⟨not_not.mpr pending, Int.not_le.mpr fresh⟩)
  · rename_i usable
    obtain ⟨pending, fresh⟩ := not_or.mp usable
    exact ⟨fun _ => ⟨not_not.mp pending, Int.not_le.mp fresh⟩, fun _ => rfl⟩

theorem lookup_gone (ok : TablesOk db) (hr : row ∈ db.registrations)
    (hash : row.tokenHash = s.hash token) (h : ¬ (row.status = .pending ∧ t < row.expiresAt)) :
    lookupForInstall s db token t = .error (410, "registration is claimed or expired") := by
  simp only [lookupForInstall, find_hash s ok hr hash]
  refine if_pos ?_
  by_contra usable
  obtain ⟨pending, fresh⟩ := not_or.mp usable
  exact h ⟨not_not.mp pending, Int.not_le.mp fresh⟩

theorem lookup_missing_iff :
    lookupForInstall s db token t = .error (404, "registration not found") ↔
      ∀ r ∈ db.registrations, r.tokenHash ≠ s.hash token := by
  cases h : db.registrations.find? fun r => decide (r.tokenHash = s.hash token) with
  | none =>
    simp only [lookupForInstall, h, true_iff]
    intro r hr hash
    exact List.find?_eq_none.mp h r hr (decide_eq_true hash)
  | some r =>
    have hh : r.tokenHash = s.hash token := by simpa using List.find?_some h
    simp only [lookupForInstall, h]
    refine ⟨fun herr => ?_, fun hno => absurd hh (hno r (List.mem_of_find?_eq_some h))⟩
    split at herr <;> cases herr

theorem claimMatch_iff (ok : TablesOk db) (hr : row ∈ db.registrations)
    (hash : row.tokenHash = s.hash token) :
    claimMatch s db token t = some row ↔ row.status = .pending ∧ t < row.expiresAt := by
  unfold claimMatch
  constructor
  · intro h
    have := List.find?_some h
    exact (of_decide_eq_true this).2
  · intro usable
    cases h : db.registrations.find? (Registration.claimable (s.hash token) t) with
    | none => exact absurd (decide_eq_true ⟨hash, usable⟩) (List.find?_eq_none.mp h row hr)
    | some r =>
      have hc := List.find?_some h
      have hh : r.tokenHash = s.hash token := (of_decide_eq_true hc).1
      rw [ok.hash_inj r (List.mem_of_find?_eq_some h) row hr (hh.trans hash.symm)]

theorem claims_of_match {request : RegisterRequest} (clock : Int)
    (found : claimMatch s db request.token t = some row) : Claims s db request t clock row := by
  unfold claimMatch at found
  simp only [Claims, registerStep, found]

/-- A token whose row cannot be claimed is refused, and nothing is written. -/
theorem register_refused (ok : TablesOk db) (hr : row ∈ db.registrations)
    {request : RegisterRequest} (hash : row.tokenHash = s.hash request.token)
    (h : ¬ (row.status = .pending ∧ t < row.expiresAt)) (clock : Int) :
    registerStep s db (.begun request t) (.run clock) =
      some (.none, .done (.registrationFailed "invalid or expired registration token")) := by
  have none : db.registrations.find? (Registration.claimable (s.hash request.token) t) = none := by
    refine List.find?_eq_none.mpr fun r hm hclaim => ?_
    obtain ⟨hh, usable⟩ := of_decide_eq_true hclaim
    obtain rfl := ok.hash_inj r hm row hr (hh.trans hash.symm)
    exact h usable
  simp only [registerStep, none]

/-- The claim of a register goes on with a row it can claim, and with no other. -/
theorem claims_iff (ok : TablesOk db) (hr : row ∈ db.registrations) {request : RegisterRequest}
    (hash : row.tokenHash = s.hash request.token) (clock : Int) :
    Claims s db request t clock row ↔ row.status = .pending ∧ t < row.expiresAt := by
  constructor
  · intro claims
    by_contra unusable
    rw [Claims, register_refused s ok hr hash unusable clock] at claims
    split at claims <;> cases claims
  · exact fun usable => claims_of_match s clock ((claimMatch_iff s ok hr hash).mpr usable)

/-- `list` alone answers with what the tables say at its instant, unless it has to wait. -/
theorem list_alone (db : Db) (t clock : Int) (free : db.expireWaits t = false) :
    list s db t clock = (db.apply (.expire t), .listing (.done .ok (listed db t))) := by
  have expire : (service s).step db (.listing (.expiring true t)) (.run clock) =
      some (.expire t, .listing .expired) := by
    simp [service, Call.step, listingStep, free]
  unfold list
  rw [System.drive_step 1 expire, System.drive_step 0 rfl]
  rfl

theorem list_waits (db : Db) (t clock : Int) (held : db.expireWaits t = true) :
    list s db t clock = (db, .listing (.expiring true t)) :=
  System.drive_stop 2 (by simp [service, Call.step, listingStep, held])

end Views

/-- In every state of the tables and at every instant the three views of a row agree: where
`list` answers, it shows the row as pending just where the lookup serves it and the claim of
a register goes on with it. Where they do not show it as usable, the lookup answers 410 and
the register is refused; 404 is for a token without a row. `list` answers unless a row that
has gone stale is held by a register. -/
theorem views_agree {now : Int} {c : Config} (h : (service s).Runs (fun _ _ => True) (boot now) c)
    (t clock : Int) :
    (∀ row ∈ c.store.registrations, ∀ token, row.tokenHash = s.hash token →
      ((∃ rows, list s c.store t clock =
            (c.store.apply (.expire t), .listing (.done .ok rows)) ∧
          (ShowsPending rows row ↔ lookupForInstall s c.store token t = .ok row)) ∨
        (list s c.store t clock = (c.store, .listing (.expiring true t)) ∧
          ∃ r ∈ c.store.registrations, r.stale t = true ∧ r.id ∈ c.store.locks)) ∧
      (∀ request : RegisterRequest, request.token = token →
        (lookupForInstall s c.store token t = .ok row ↔ Claims s c.store request t clock row)) ∧
      (lookupForInstall s c.store token t ≠ .ok row →
        lookupForInstall s c.store token t = .error (410, "registration is claimed or expired") ∧
        ∀ request : RegisterRequest, request.token = token →
          registerStep s c.store (.begun request t) (.run clock) = some (.none,
            .done (.registrationFailed "invalid or expired registration token")))) ∧
    ∀ token, lookupForInstall s c.store token t = .error (404, "registration not found") ↔
      ∀ r ∈ c.store.registrations, r.tokenHash ≠ s.hash token := by
  have ok := tablesOk_of_run s h
  refine ⟨fun row hr token hash => ⟨?_, ?_, fun unusable => ?_⟩, fun _ => lookup_missing_iff s⟩
  · cases held : c.store.expireWaits t with
    | false =>
      refine Or.inl ⟨listed c.store t, list_alone s c.store t clock held, ?_⟩
      rw [showsPending_iff ok hr, lookup_ok_iff s ok hr hash]
    | true =>
      obtain ⟨r, hrow, hstale⟩ := List.any_eq_true.mp held
      rw [Bool.and_eq_true, decide_eq_true_eq] at hstale
      exact Or.inr ⟨list_waits s c.store t clock held, r, hrow, hstale⟩
  · rintro request rfl
    rw [lookup_ok_iff s ok hr hash, claims_iff s ok hr hash clock]
  · rw [Ne, lookup_ok_iff s ok hr hash] at unusable
    refine ⟨lookup_gone s ok hr hash unusable, ?_⟩
    rintro request rfl
    exact register_refused s ok hr hash unusable clock

def zeroRow : Registration where
  id := 0
  tokenHash := zeroHash zeroToken
  label := "gpu"
  createdAt := 0
  expiresAt := 3600

/-- A registration just before and at the very instant it expires. -/
theorem views_agree_boundary : ∃ c,
    (service zeroSettings).Runs (fun _ _ => True) (boot 0) c ∧
      c.store.registrations = [zeroRow] ∧
      (∃ rows, list zeroSettings c.store 3599 7 =
          (c.store.apply (.expire 3599), .listing (.done .ok rows)) ∧ ShowsPending rows zeroRow) ∧
      Claims zeroSettings c.store ⟨zeroToken, "10.0.0.9", 7777, "secret", none⟩ 3599 7 zeroRow ∧
      (∃ rows, list zeroSettings c.store 3600 7 =
          (c.store.apply (.expire 3600), .listing (.done .ok rows)) ∧
        ¬ ShowsPending rows zeroRow) ∧
      registerStep zeroSettings c.store
          (.begun ⟨zeroToken, "10.0.0.9", 7777, "secret", none⟩ 3600) (.run 7) =
        some (.none, .done (.registrationFailed "invalid or expired registration token")) := by
  obtain ⟨c, hr, hp⟩ := exists_run_of_execute (service zeroSettings).exec (fun _ _ => true) (boot 0)
    (raceActions.take 4) (fun c => decide (c.store.registrations = [zeroRow] ∧ c.store.locks = []))
    (fun _ _ _ => trivial) (by decide)
  obtain ⟨rows, unlocked⟩ := of_decide_eq_true hp
  have hrow : zeroRow ∈ c.store.registrations := by simp [rows]
  have usable : lookupForInstall zeroSettings c.store zeroToken 3599 = .ok zeroRow := by
    simp only [lookupForInstall, rows]
    rfl
  have gone : lookupForInstall zeroSettings c.store zeroToken 3600 ≠ .ok zeroRow := by
    simp only [lookupForInstall, rows]
    exact nofun
  obtain ⟨before, claims, _⟩ := (views_agree zeroSettings hr 3599 7).1 zeroRow hrow zeroToken rfl
  obtain ⟨after, _, refused⟩ := (views_agree zeroSettings hr 3600 7).1 zeroRow hrow zeroToken rfl
  refine ⟨c, hr, rows, ?_, (claims _ rfl).mp usable, ?_, (refused gone).2 _ rfl⟩
  · rcases before with ⟨shown, listed, same⟩ | ⟨_, _, _, _, held⟩
    · exact ⟨shown, listed, same.mpr usable⟩
    · simp [unlocked] at held
  · rcases after with ⟨shown, listed, same⟩ | ⟨_, _, _, _, held⟩
    · exact ⟨shown, listed, fun pending => gone (same.mp pending)⟩
    · simp [unlocked] at held

end Karr.Registrations
