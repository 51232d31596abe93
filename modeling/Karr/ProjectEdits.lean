import Karr.Services.Projects

/-!
# Edits of projects

Whatever calls run beside each other: no two projects have one name, no name is
blank, and an edit of one field is not undone by edits of others.
-/

set_option autoImplicit false

namespace Karr.Projects

open Interleaving

/-! ## The table -/

def Stripped (s : String) : Prop := Python.strip s = s

theorem stripped_strip (s : String) : Stripped (Python.strip s) := by
  rw [Stripped, Python.strip, Python.strip, String.toList_ofList]
  congr 1
  exact Python.stripChars_eq_self (fun _ h => Python.stripChars_head h)
    fun _ h => Python.stripChars_last h

structure Project.Clean (p : Project) : Prop where
  told : p.name ≠ ""
  name : Stripped p.name
  description : Stripped p.description

structure Table.Tidy (t : Table) : Prop where
  names : (t.rows.map Project.name).Nodup
  ids : (t.rows.map Project.id).Nodup
  below : ∀ p ∈ t.rows, p.id < t.nextId
  clean : ∀ p ∈ t.rows, p.Clean

structure ProjectUpdate.Clean (set : ProjectUpdate) : Prop where
  name : ∀ name, set.name = some name → name ≠ "" ∧ Stripped name
  description : ∀ description, set.description = some description → Stripped description

/-- What a call is about to write. -/
def Call.Clean : Call → Prop
  | .added name description => name ≠ "" ∧ Stripped name ∧ Stripped description
  | .loaded _ set => set.Clean
  | _ => True

theorem ProjectUpdate.Clean.changes {set : ProjectUpdate} (h : set.Clean) (row : Project) :
    (set.changes row).Clean where
  name _ hn := h.name _ (Option.filter_eq_some_iff.mp hn).1
  description _ hd := h.description _ (Option.filter_eq_some_iff.mp hd).1

theorem Project.Clean.set {p : Project} (h : p.Clean) {set : ProjectUpdate} (hs : set.Clean) :
    (p.set set).Clean := by
  refine ⟨?_, ?_, ?_⟩
  · cases hn : set.name with
    | none => simpa only [Project.set, hn, Option.getD_none] using h.told
    | some name => simpa only [Project.set, hn, Option.getD_some] using (hs.name name hn).1
  · cases hn : set.name with
    | none => simpa only [Project.set, hn, Option.getD_none] using h.name
    | some name => simpa only [Project.set, hn, Option.getD_some] using (hs.name name hn).2
  · cases hd : set.description with
    | none => simpa only [Project.set, hd, Option.getD_none] using h.description
    | some d => simpa only [Project.set, hd, Option.getD_some] using hs.description d hd

namespace Table.Tidy
variable {t : Table}

theorem empty : Tidy {} where
  names := List.nodup_nil
  ids := List.nodup_nil
  below _ h := nomatch h
  clean _ h := nomatch h

theorem insert (h : t.Tidy) {name description : String}
    (clean : Call.Clean (.added name description)) (unique : ∀ p ∈ t.rows, p.name ≠ name) :
    (t.apply (.insert name description)).Tidy where
  names := by
    rw [Table.apply, List.map_append, List.nodup_append]
    refine ⟨h.names, List.nodup_singleton _, ?_⟩
    rintro a ha b hb rfl
    obtain ⟨p, hp, rfl⟩ := List.mem_map.mp ha
    exact unique p hp (List.mem_singleton.mp hb)
  ids := by
    rw [Table.apply, List.map_append, List.nodup_append]
    refine ⟨h.ids, List.nodup_singleton _, ?_⟩
    rintro a ha b hb rfl
    obtain ⟨p, hp, rfl⟩ := List.mem_map.mp ha
    exact absurd (List.mem_singleton.mp hb) (Nat.ne_of_lt (h.below p hp))
  below p hp := by
    rcases List.mem_append.mp hp with hp | hp
    · exact Nat.lt_succ_of_lt (h.below p hp)
    · rw [List.mem_singleton.mp hp]
      exact Nat.lt_succ_self _
  clean p hp := by
    rcases List.mem_append.mp hp with hp | hp
    · exact h.clean p hp
    · rw [List.mem_singleton.mp hp]
      exact ⟨clean.1, clean.2.1, clean.2.2⟩

theorem mem_write {id : Nat} {set : ProjectUpdate} {q : Project}
    (h : q ∈ (t.apply (.write id set)).rows) :
    ∃ p ∈ t.rows, q.id = p.id ∧ q = if p.id = id then p.set set else p := by
  obtain ⟨p, hp, rfl⟩ := List.mem_map.mp h
  refine ⟨p, hp, ?_, rfl⟩
  split <;> rfl

theorem write (h : t.Tidy) {id : Nat} {set : ProjectUpdate} (clean : set.Clean)
    (unique : ∀ p ∈ t.rows, p.id ≠ id → some p.name ≠ set.name) :
    (t.apply (.write id set)).Tidy where
  names := by
    rw [Table.apply, List.map_map]
    refine h.ids.of_map.map_on fun p hp q hq same => ?_
    have rows {a b : Project} (ha : a ∈ t.rows) (hb : b ∈ t.rows) (hid : a.id = b.id) : a = b :=
      List.inj_on_of_nodup_map h.ids ha hb hid
    -- the written name belongs to no other row
    have other {a b : Project} (hb : b ∈ t.rows) (away : b.id ≠ id)
        (eq : (a.set set).name = b.name) : a.name = b.name := by
      rw [Project.set] at eq
      cases hn : set.name with
      | none => simpa only [hn, Option.getD_none] using eq
      | some name =>
        simp only [hn, Option.getD_some] at eq
        exact absurd (congrArg some eq.symm) (hn ▸ unique b hb away)
    have names {a b : Project} (ha : a ∈ t.rows) (hb : b ∈ t.rows) (eq : a.name = b.name) :
        a = b := List.inj_on_of_nodup_map h.names ha hb eq
    dsimp only [Function.comp_apply] at same
    split at same <;> split at same
    · rename_i hp' hq'
      exact rows hp hq (hp'.trans hq'.symm)
    · exact names hp hq (other hq ‹_› same)
    · exact (names hq hp (other hp ‹_› same.symm)).symm
    · exact names hp hq same
  ids := by
    have same : (t.apply (.write id set)).rows.map Project.id = t.rows.map Project.id := by
      rw [Table.apply, List.map_map]
      refine List.map_congr_left fun p _ => ?_
      rw [Function.comp_apply]
      split <;> rfl
    rw [same]
    exact h.ids
  below q hq := by
    obtain ⟨p, hp, hid, -⟩ := mem_write hq
    rw [hid]
    exact h.below p hp
  clean q hq := by
    obtain ⟨p, hp, -, rfl⟩ := mem_write hq
    split
    · exact (h.clean p hp).set clean
    · exact h.clean p hp

theorem remove (h : t.Tidy) (id : Nat) : (t.apply (.remove id)).Tidy where
  names := h.names.sublist (List.filter_sublist.map _)
  ids := h.ids.sublist (List.filter_sublist.map _)
  below p hp := h.below p (List.mem_of_mem_filter hp)
  clean p hp := h.clean p (List.mem_of_mem_filter hp)

/-- What a step writes is clean, and so is what the call will write. -/
theorem step (h : t.Tidy) {p p' : Call} {e : Effect} (clean : p.Clean) (hr : StepRule t p e p') :
    (t.apply e).Tidy ∧ p'.Clean := by
  cases hr with
  | quit => exact ⟨h, trivial⟩
  | add told => exact ⟨h, told, stripped_strip _, stripped_strip _⟩
  | insert unique => exact ⟨h.insert clean unique, trivial⟩
  | load _ told =>
    refine ⟨h, fun name hn => ?_, fun d hd => ?_⟩
    · obtain ⟨raw, -, rfl⟩ := Option.map_eq_some_iff.mp hn
      exact ⟨fun blank => told (blank ▸ hn), stripped_strip raw⟩
    · obtain ⟨raw, -, rfl⟩ := Option.map_eq_some_iff.mp hd
      exact stripped_strip raw
  | same => exact ⟨h, trivial⟩
  | write unique => exact ⟨h.write (ProjectUpdate.Clean.changes clean _) unique, trivial⟩
  | find => exact ⟨h, trivial⟩
  | remove => exact ⟨h.remove _, trivial⟩
  | answer => exact ⟨h, trivial⟩

end Table.Tidy

theorem tidy_inductive : Inductive service (fun _ _ => True) Table.Tidy (fun _ p => p.Clean)
    fun _ _ => True where
  spawn {c p} _ _ fresh := by
    cases p with
    | create | update | delete => trivial
    | added | loaded | found | refresh | done => cases fresh
  spawn_pair _ _ _ _ := ⟨trivial, trivial⟩
  outside _ _ out := nomatch out
  own h _ hp hs := h.store.step (h.proc _ (List.mem_of_getElem? hp)) (step_rule hs)
  other h _ hp hs _ hq := ⟨h.proc _ (List.mem_of_getElem? hq), trivial, trivial⟩

theorem tidy_of_run {c : Config Table Call}
    (hr : service.Runs (fun _ _ => True) ⟨{}, []⟩ c) :
    Holds Table.Tidy (fun _ p => p.Clean) (fun _ _ => True) c :=
  tidy_inductive.holds_of_run
    ⟨.empty, fun _ h => absurd h List.not_mem_nil, fun _ _ _ => trivial⟩ hr

/-- In every state that is reached, names are distinct, not blank and have no white space
around them. -/
theorem projects_tidy {c : Config Table Call}
    (hr : service.Runs (fun _ _ => True) ⟨{}, []⟩ c) : c.store.Tidy :=
  (tidy_of_run hr).store

/-! ## One field -/

inductive Field where
  | name
  | description
  deriving DecidableEq, Repr

def Project.get : Field → Project → String
  | .name, p => p.name
  | .description, p => p.description

def ProjectUpdate.get : Field → ProjectUpdate → Option String
  | .name, set => set.name
  | .description, set => set.description

variable {f : Field} {id : Nat}

/-- The call may write this field of this row. -/
def Call.sets (f : Field) (id : Nat) : Call → Bool
  | .update id' body => id' == id && (body.get f).isSome
  | .loaded row set => row.id == id && (set.get f).isSome
  | _ => false

theorem get_set (f : Field) (p : Project) (set : ProjectUpdate) :
    (p.set set).get f = (set.get f).getD (p.get f) := by
  cases f <;> rfl

theorem get_changes (f : Field) (set : ProjectUpdate) (row : Project) :
    (set.changes row).get f = (set.get f).filter fun value => value ≠ row.get f := by
  cases f <;> rfl

theorem get_stripped (f : Field) (body : ProjectUpdate) :
    (⟨body.name.map Python.strip, body.description.map Python.strip⟩ : ProjectUpdate).get f =
      (body.get f).map Python.strip := by
  cases f <;> rfl

/-- The row has been there, and if it is there it has this value. -/
structure Shows (f : Field) (id : Nat) (t : Table) (value : String) : Prop where
  known : id < t.nextId
  value : ∀ p ∈ t.rows, p.id = id → p.get f = value

theorem Shows.of_mem {t : Table} (h : t.Tidy) {row : Project} (hr : row ∈ t.rows) :
    Shows f row.id t (row.get f) where
  known := h.below row hr
  value p hp hid := by rw [List.inj_on_of_nodup_map h.ids hp hr hid]

/-- Calls that do not set the field leave it alone. -/
theorem Shows.frame {t : Table} {value : String} (h : Shows f id t value) {p p' : Call} {e : Effect}
    (hr : StepRule t p e p') (away : p.sets f id = false) :
    Shows f id (t.apply e) value ∧ p'.sets f id = false := by
  cases hr with
  | insert =>
    refine ⟨⟨Nat.lt_succ_of_lt h.known, fun q hq hid => ?_⟩, rfl⟩
    rcases List.mem_append.mp hq with hq | hq
    · exact h.value q hq hid
    · rw [List.mem_singleton.mp hq] at hid
      exact absurd hid (Nat.ne_of_gt h.known)
  | @load row body =>
    refine ⟨h, ?_⟩
    simp only [Call.sets] at away ⊢
    rwa [get_stripped, Option.isSome_map]
  | @write row set =>
    refine ⟨⟨h.known, fun q hq hid => ?_⟩, rfl⟩
    obtain ⟨p, hp, same, rfl⟩ := Table.Tidy.mem_write hq
    have before := h.value p hp (same.symm.trans hid)
    split
    · rename_i mine
      have unset : set.get f = none := by
        have target : row.id = id := by rw [← mine, ← same, hid]
        simp only [Call.sets, target, beq_self_eq_true, Bool.true_and] at away
        exact Option.not_isSome_iff_eq_none.mp (Bool.eq_false_iff.mp away)
      rw [get_set, get_changes, unset]
      exact before
    · exact before
  | remove =>
    exact ⟨⟨h.known, fun q hq hid => h.value q (List.mem_of_mem_filter hq) hid⟩, rfl⟩
  | quit | add | same | find | answer => exact ⟨h, rfl⟩

/-! ## One edit -/

/-- How far the edit has come, and what the row shows. -/
def Progress (f : Field) (id : Nat) (value : String) (t : Table) : Call → Prop
  | .update id' body => id' = id ∧ body.get f = some value
  | .loaded row set => row.id = id ∧ set.get f = some (Python.strip value) ∧
      Shows f id t (row.get f)
  | .refresh id' => id' = id ∧ Shows f id t (Python.strip value)
  | .done (.ok row) => row.get f = Python.strip value ∧ Shows f id t (Python.strip value)
  | .done _ => True
  | _ => False

theorem Progress.frame {value : String} {t : Table} {q : Call} (h : Progress f id value t q)
    {p p' : Call} {e : Effect} (hr : StepRule t p e p') (away : p.sets f id = false) :
    Progress f id value (t.apply e) q := by
  cases q with
  | update => exact h
  | loaded row set => exact ⟨h.1, h.2.1, (h.2.2.frame hr away).1⟩
  | refresh id' => exact ⟨h.1, (h.2.frame hr away).1⟩
  | done reply =>
    cases reply with
    | ok row => exact ⟨h.1, (h.2.frame hr away).1⟩
    | noContent | apiError | exception => trivial
  | create | added | delete | found => exact h.elim

theorem Progress.step {value : String} {t : Table} (tidy : t.Tidy) {p p' : Call} {e : Effect}
    (h : Progress f id value t p) (hr : StepRule t p e p') :
    Progress f id value (t.apply e) p' := by
  cases hr with
  | quit not_ok =>
    rename_i reply
    cases reply with
    | ok row => exact absurd rfl (not_ok row)
    | noContent | apiError | exception => trivial
  | @load row body found =>
    obtain ⟨rfl, hbody⟩ := h
    refine ⟨rfl, ?_, .of_mem tidy found⟩
    rw [get_stripped, hbody]
    rfl
  | @same row set same =>
    obtain ⟨rfl, hset, shows⟩ := h
    -- the row has the value already
    have unchanged : (set.changes row).get f = none := by
      rw [same]
      cases f <;> rfl
    rw [get_changes, hset, Option.filter_eq_none_iff] at unchanged
    have equal : Python.strip value = row.get f := by simpa using unchanged
    exact ⟨rfl, equal ▸ shows⟩
  | @write row set unique =>
    obtain ⟨rfl, hset, shows⟩ := h
    refine ⟨rfl, shows.known, fun q hq hid => ?_⟩
    obtain ⟨p, hp, same, rfl⟩ := Table.Tidy.mem_write hq
    have mine : p.id = row.id := same.symm.trans hid
    have before := shows.value p hp mine
    rw [if_pos mine, get_set, get_changes, hset]
    by_cases equal : Python.strip value = row.get f
    · rw [Option.filter_some, if_neg (by simp [equal]), Option.getD_none, before, equal]
    · rw [Option.filter_some, if_pos (by simp [equal]), Option.getD_some]
  | @answer row found =>
    obtain ⟨rfl, shows⟩ := h
    exact ⟨shows.value row found rfl, shows⟩
  | add | insert | find | remove => exact h.elim

/-- An edit among calls that do not set its field. -/
structure Edit (f : Field) (id : Nat) (value : String) (k : Nat) (c : Config Table Call) : Prop where
  tidy : c.store.Tidy
  clean : ∀ p ∈ c.procs, p.Clean
  others : ∀ j p, j ≠ k → c.procs[j]? = some p → p.sets f id = false
  edit : ∃ p, c.procs[k]? = some p ∧ Progress f id value c.store p

theorem Edit.exec {value : String} {k : Nat} {c c' : Config Table Call}
    {a : Action Call Input Effect} (h : Edit f id value k c)
    (ok : ∀ p, a = .spawn p → p.sets f id = false) (hs : service.exec c a = some c') :
    Edit f id value k c' := by
  obtain ⟨edit, hk, progress⟩ := h.edit
  have inside : k < c.procs.length := (List.getElem?_eq_some_iff.mp hk).1
  rcases System.exec_cases hs with ⟨p, rfl, fresh, rfl⟩ | ⟨j, i, p, e, p', rfl, hp, hstep, rfl⟩ |
    ⟨e, rfl, out, rfl⟩
  · refine ⟨h.tidy, fun q hq => ?_, fun j q hj hq => ?_, edit, ?_, progress⟩
    · rcases List.mem_append.mp hq with hq | hq
      · exact h.clean q hq
      · rw [List.mem_singleton.mp hq]
        cases p with
        | create | update | delete => trivial
        | added | loaded | found | refresh | done => cases fresh
    · rcases List.mem_append.mp (List.mem_of_getElem? hq) with _ | hq'
      · by_cases old : j < c.procs.length
        · rw [List.getElem?_append_left old] at hq
          exact h.others j q hj hq
        · rw [List.getElem?_append_right (Nat.le_of_not_lt old)] at hq
          rw [List.mem_singleton.mp (List.mem_of_getElem? hq)]
          exact ok p rfl
      · rw [List.mem_singleton.mp hq']
        exact ok p rfl
    · rw [List.getElem?_append_left inside]
      exact hk
  · have rule := step_rule hstep
    have next := h.tidy.step (h.clean p (List.mem_of_getElem? hp)) rule
    refine ⟨next.1, fun q hq => ?_, fun l q hl hq => ?_, ?_⟩
    · rcases List.mem_or_eq_of_mem_set hq with hq | rfl
      · exact h.clean q hq
      · exact next.2
    · rw [List.getElem?_set] at hq
      split at hq
      · rename_i same
        split at hq <;> cases hq
        subst same
        -- what it shows does not matter here
        have away := h.others j p hl hp
        cases rule with
        | @load row body =>
          simp only [Call.sets] at away ⊢
          rwa [get_stripped, Option.isSome_map]
        | quit | add | insert | same | write | find | remove | answer => rfl
      · exact h.others l q hl hq
    · by_cases mine : j = k
      · subst mine
        rw [hk] at hp
        cases hp
        refine ⟨p', ?_, progress.step h.tidy rule⟩
        rw [List.getElem?_set, if_pos rfl, if_pos inside]
      · refine ⟨edit, ?_, progress.frame rule (h.others j p mine hp)⟩
        rw [List.getElem?_set, if_neg mine]
        exact hk
  · cases out

/-- An edit that is answered has its value in the row, with whatever other edits ran beside it
that do not set the same field of the same row, and keeps it as long as these are the only ones. -/
theorem edit_survives {value : String} {body : ProjectUpdate} {k : Nat} {start c : Config Table Call}
    (reached : service.Runs (fun _ _ => True) ⟨{}, []⟩ start)
    (edit : start.procs[k]? = some (.update id body)) (asks : body.get f = some value)
    (others : ∀ j p, j ≠ k → start.procs[j]? = some p → p.sets f id = false)
    (hr : service.Runs (fun _ a => ∀ p, a = .spawn p → p.sets f id = false) start c)
    {row : Project} (answered : c.procs[k]? = some (.done (.ok row))) :
    row.get f = Python.strip value ∧
      ∀ p ∈ c.store.rows, p.id = id → p.get f = Python.strip value := by
  have holds := tidy_of_run reached
  have init : Edit f id value k start :=
    ⟨holds.store, holds.proc, others, _, edit, rfl, asks⟩
  obtain ⟨p, hp, progress⟩ := (hr.invariant init fun h ok hs => h.exec ok hs).edit
  rw [answered] at hp
  cases hp
  exact ⟨progress.1, progress.2.value⟩

/-! ## Two edits at a time -/

/-- A project, and two edits of it that have not begun. -/
def twoEdits : Config Table Call where
  store := { rows := [⟨0, "a", ""⟩], nextId := 1 }
  procs := [.done (.ok ⟨0, "a", ""⟩), .update 0 ⟨some " b", none⟩, .update 0 ⟨none, some "c "⟩]

theorem twoEdits_run : service.Runs (fun _ _ => True) ⟨{}, []⟩ twoEdits := by
  have run : service.Runs (fun _ _ => True) ⟨{}, []⟩ ⟨{}, []⟩ := .refl
  have run := run.step (a := .spawn (.create "a" "")) trivial rfl
  have run := run.step (a := .proc 0 .run) trivial rfl
  have run := run.step (a := .proc 0 .run) trivial rfl
  have run := run.step (a := .proc 0 .run) trivial rfl
  have run := run.step (a := .spawn (.update 0 ⟨some " b", none⟩)) trivial rfl
  exact run.step (a := .spawn (.update 0 ⟨none, some "c "⟩)) trivial rfl

theorem projects_tidy_twoEdits : twoEdits.store.Tidy := projects_tidy twoEdits_run

/-- Both have read the row before either writes it. -/
theorem edit_survives_twoEdits : ∃ c : Config Table Call,
    c.store.rows = [⟨0, "b", "c"⟩] ∧
      ∀ p ∈ c.store.rows, p.id = 0 → p.get .name = Python.strip " b" := by
  have run : service.Runs
      (fun _ a => ∀ p, a = .spawn p → p.sets .name 0 = false) twoEdits twoEdits := .refl
  have run := run.step (a := .proc 1 .run) (fun _ h => nomatch h) rfl
  have run := run.step (a := .proc 2 .run) (fun _ h => nomatch h) rfl
  have run := run.step (a := .proc 1 .run) (fun _ h => nomatch h) rfl
  have run := run.step (a := .proc 2 .run) (fun _ h => nomatch h) rfl
  have run := run.step (a := .proc 1 .run) (fun _ h => nomatch h) rfl
  refine ⟨_, rfl, (edit_survives (f := .name) twoEdits_run (k := 1) rfl rfl ?_ run rfl).2⟩
  intro j p hj hp
  match j, hj with
  | 0, _ =>
    cases hp
    rfl
  | 2, _ =>
    cases hp
    rfl
  | j + 3, _ => cases hp

end Karr.Projects
