import Karr.Api.Schemas

/-!
# The records on the wire

What the client reads of a record is what the server wrote, but for what is left
out, and nothing is lost in leaving it out.
-/

set_option autoImplicit false

namespace Karr.Schemas

open Json JavaScript

def Omitted (keys : List String) (m : String × Value String) : Prop :=
  m.1 ∈ keys ∧ isEmpty m.2 = true

instance (keys : List String) (m : String × Value String) : Decidable (Omitted keys m) :=
  inferInstanceAs (Decidable (_ ∧ _))

theorem mem_omitEmpty {keys : List String} {data : Members} {m : String × Value String} :
    m ∈ omitEmpty keys data ↔ m ∈ data ∧ ¬ Omitted keys m := by
  rw [omitEmpty, List.mem_filter, Omitted, Bool.not_eq_true', Bool.and_eq_false_iff, not_and,
    Bool.not_eq_true]
  constructor
  · rintro ⟨hm, h⟩
    refine ⟨hm, fun key => h.resolve_left ?_⟩
    simp [key]
  · rintro ⟨hm, h⟩
    refine ⟨hm, ?_⟩
    by_cases key : m.1 ∈ keys
    · exact Or.inr (h key)
    · exact Or.inl (by simp [key])

namespace Out

/-! ## The data of a record -/

theorem distinct (o : Out) : (o.data.map Prod.fst).Nodup := by
  cases o <;> simp only [data, List.map_cons, List.map_nil] <;> decide

theorem lawful_optional {α : Type} (text : α → String) (x : Option α) :
    (optional text x).Lawful := by
  cases x <;> trivial

theorem lawful_strings (xs : List String) : (strings xs).Lawful := by
  refine (lawfulElements_iff _).mpr fun v hv => ?_
  obtain ⟨s, -, rfl⟩ := List.mem_map.mp hv
  trivial

theorem lawful_data (o : Out) : ∀ m ∈ o.data, m.2.Lawful := by
  cases o <;> simp only [data, List.forall_mem_cons, List.not_mem_nil, false_implies, implies_true,
    lawful_optional, lawful_strings, and_true] <;> simp only [Value.Lawful, and_self]

theorem lawful_wire (o : Out) : o.wire.Lawful :=
  (lawfulMembers_iff _).mpr fun m hm => lawful_data o m (mem_omitEmpty.mp hm).1

theorem distinct_wire (o : Out) : ((omitEmpty o.omitKeys o.data).map Prod.fst).Nodup :=
  (List.filter_sublist.map Prod.fst).nodup o.distinct

/-- A field is there unless it may be left out and is empty. -/
theorem wire_get {o : Out} {m : String × Value String} (hm : m ∈ o.data) :
    o.wire.get m.1 = if Omitted o.omitKeys m then none else some m.2 := by
  split
  · rename_i omitted
    refine get_of_not_mem fun n hn same => ?_
    obtain ⟨hn, kept⟩ := mem_omitEmpty.mp hn
    rw [List.inj_on_of_nodup_map o.distinct hn hm same] at kept
    exact kept omitted
  · rename_i kept
    exact get_of_mem o.distinct_wire (mem_omitEmpty.mpr ⟨hm, kept⟩)

/-- What a client that has read `v` knows of a record. -/
structure ReadAs (o : Out) (v : Value JsString) : Prop where
  fields : ∀ m ∈ o.data,
    v.get (js m.1) = if Omitted o.omitKeys m then none else some (m.2.map js)
  others : ∀ key, (∀ m ∈ o.data, js m.1 ≠ key) → v.get key = none

theorem readAs_wire (o : Out) : o.ReadAs (o.wire.map js) where
  fields m hm := by
    rw [map_get (fun _ _ => js_inj), wire_get hm]
    split <;> rfl
  others key other := by
    rw [wire, Value.map, mapMembers_eq]
    refine get_of_not_mem fun m hm => ?_
    obtain ⟨n, hn, rfl⟩ := List.mem_map.mp hm
    exact other n (mem_omitEmpty.mp hn).1

/-! ## Nothing is lost -/

/-- Two fields of one name that look the same on the wire. -/
theorem field_eq {o o' : Out} (h : o.wire = o'.wire) (keys : o.omitKeys = o'.omitKeys)
    {name : String} {v v' : Value String} (hm : (name, v) ∈ o.data) (hm' : (name, v') ∈ o'.data) :
    v = v' ∨ (isEmpty v = true ∧ isEmpty v' = true) := by
  have read := wire_get hm
  rw [h, wire_get hm', keys] at read
  split at read <;> split at read
  · rename_i empty empty'
    exact Or.inr ⟨empty'.2, empty.2⟩
  · cases read
  · cases read
  · exact Or.inl (Option.some.inj read).symm

theorem string_eq {s s' : String} (h : Value.string s = Value.string s' ∨
    (isEmpty (.string s) = true ∧ isEmpty (.string s') = true)) : s = s' := by
  rcases h with h | ⟨h, h'⟩
  · exact Value.string.inj h
  · rw [of_decide_eq_true h, of_decide_eq_true h']

theorem optional_eq {α : Type} {text : α → String} (inj : Function.Injective text)
    (told : ∀ x, text x ≠ "") {x x' : Option α} (h : optional text x = optional text x' ∨
      (isEmpty (optional text x) = true ∧ isEmpty (optional text x') = true)) : x = x' := by
  cases x with
  | none =>
    cases x' with
    | none => rfl
    | some b =>
      rcases h with h | ⟨-, h⟩
      · cases h
      · exact absurd (of_decide_eq_true h) (told b)
  | some a =>
    cases x' with
    | none =>
      rcases h with h | ⟨h, -⟩
      · cases h
      · exact absurd (of_decide_eq_true h) (told a)
    | some b =>
      rcases h with h | ⟨h, -⟩
      · rw [inj (Value.string.inj h)]
      · exact absurd (of_decide_eq_true h) (told a)

theorem strings_eq {xs xs' : List String} (h : strings xs = strings xs' ∨
    (isEmpty (strings xs) = true ∧ isEmpty (strings xs') = true)) : xs = xs' := by
  have empty {xs : List String} (h : isEmpty (strings xs) = true) : xs = [] := by
    cases xs with
    | nil => rfl
    | cons x xs => cases h
  rcases h with h | ⟨h, h'⟩
  · exact List.map_injective_iff.mpr (fun _ _ => Value.string.inj) (Value.array.inj h)
  · rw [empty h, empty h']

/-- A field that is never left out tells the kind of a record. -/
theorem field_there {o o' : Out} (h : o.wire = o'.wire) (i : Nat) {m : String × Value String}
    (hm : o.data[i]? = some m) (kept : m.1 ∉ o.omitKeys) : m.1 ∈ o'.data.map Prod.fst := by
  by_contra absent
  have missing : o'.wire.get m.1 = none := get_of_not_mem fun n hn same =>
    absent (List.mem_map.mpr ⟨n, (mem_omitEmpty.mp hn).1, same⟩)
  rw [← h, wire_get (List.mem_of_getElem? hm), if_neg fun omitted => kept omitted.1] at missing
  cases missing

section Kinds
variable {o o' : Out} (h : o.wire = o'.wire) (keys : o.omitKeys = o'.omitKeys)
include h keys

theorem text_at (i : Nat) {name s s' : String} (hm : o.data[i]? = some (name, .string s))
    (hm' : o'.data[i]? = some (name, .string s')) : s = s' :=
  string_eq (field_eq h keys (List.mem_of_getElem? hm) (List.mem_of_getElem? hm'))

theorem time_at (i : Nat) {name : String} {d d' : Datetime}
    (hm : o.data[i]? = some (name, .string (rfc3339 d)))
    (hm' : o'.data[i]? = some (name, .string (rfc3339 d'))) : d = d' :=
  rfc3339_inj (text_at h keys i hm hm')

theorem uuid_at (i : Nat) {name : String} {u u' : Uuid}
    (hm : o.data[i]? = some (name, .string u.text))
    (hm' : o'.data[i]? = some (name, .string u'.text)) : u = u' :=
  uuid_text_inj (text_at h keys i hm hm')

theorem optional_at {α : Type} {text : α → String} (inj : Function.Injective text)
    (told : ∀ x, text x ≠ "") (i : Nat) {name : String} {x x' : Option α}
    (hm : o.data[i]? = some (name, optional text x))
    (hm' : o'.data[i]? = some (name, optional text x')) : x = x' :=
  optional_eq inj told
    (field_eq h keys (List.mem_of_getElem? hm) (List.mem_of_getElem? hm'))

theorem strings_at (i : Nat) {name : String} {xs xs' : List String}
    (hm : o.data[i]? = some (name, strings xs)) (hm' : o'.data[i]? = some (name, strings xs')) :
    xs = xs' :=
  strings_eq (field_eq h keys (List.mem_of_getElem? hm) (List.mem_of_getElem? hm'))

end Kinds

theorem rfc3339_injective : Function.Injective rfc3339 := fun _ _ => rfc3339_inj

theorem uuid_injective : Function.Injective Uuid.text := fun _ _ => uuid_text_inj

theorem agent_inj {a a' : AgentOut} (h : (agent a).wire = (agent a').wire) : a = a' := by
  have id : a.id = a'.id := uuid_at h rfl 0 rfl rfl
  have name : a.name = a'.name := text_at h rfl 1 rfl rfl
  have url : a.url = a'.url := text_at h rfl 2 rfl rfl
  have status : a.status = a'.status := text_at h rfl 3 rfl rfl
  have seen : a.lastSeenAt = a'.lastSeenAt :=
    optional_at h rfl rfc3339_injective rfc3339_ne 4 rfl rfl
  have checked : a.lastCheckedAt = a'.lastCheckedAt :=
    optional_at h rfl rfc3339_injective rfc3339_ne 5 rfl rfl
  have created : a.createdAt = a'.createdAt := time_at h rfl 6 rfl rfl
  have updated : a.updatedAt = a'.updatedAt := time_at h rfl 7 rfl rfl
  exact (AgentOut.mk.injEq ..).mpr ⟨id, name, url, status, seen, checked, created, updated⟩

theorem project_inj {p p' : ProjectOut} (h : (project p).wire = (project p').wire) : p = p' := by
  have id : p.id = p'.id := uuid_at h rfl 0 rfl rfl
  have name : p.name = p'.name := text_at h rfl 1 rfl rfl
  have description : p.description = p'.description := text_at h rfl 2 rfl rfl
  have created : p.createdAt = p'.createdAt := time_at h rfl 3 rfl rfl
  have updated : p.updatedAt = p'.updatedAt := time_at h rfl 4 rfl rfl
  exact (ProjectOut.mk.injEq ..).mpr ⟨id, name, description, created, updated⟩

theorem environment_inj {e e' : EnvironmentOut}
    (h : (environment e).wire = (environment e').wire) : e = e' := by
  have id : e.id = e'.id := uuid_at h rfl 0 rfl rfl
  have projectId : e.projectId = e'.projectId :=
    optional_at h rfl uuid_injective uuid_text_ne 1 rfl rfl
  have agentId : e.agentId = e'.agentId := uuid_at h rfl 2 rfl rfl
  have name : e.name = e'.name := text_at h rfl 3 rfl rfl
  have image : e.image = e'.image := text_at h rfl 4 rfl rfl
  have containerId : e.containerId = e'.containerId := text_at h rfl 5 rfl rfl
  have status : e.status = e'.status := text_at h rfl 6 rfl rfl
  have statusMessage : e.statusMessage = e'.statusMessage := text_at h rfl 7 rfl rfl
  have gpu : e.gpu = e'.gpu := by
    have mem (e : EnvironmentOut) : ("gpu", Value.bool e.gpu) ∈ (environment e).data :=
      List.mem_of_getElem? (i := 8) rfl
    have value := field_eq h rfl (mem e) (mem e')
    exact Value.bool.inj (value.resolve_right fun empty => nomatch empty.1)
  have env : e.env = e'.env := strings_at h rfl 9 rfl rfl
  have mounts : e.mounts = e'.mounts := strings_at h rfl 10 rfl rfl
  have command : e.command = e'.command := strings_at h rfl 11 rfl rfl
  have created : e.createdAt = e'.createdAt := time_at h rfl 12 rfl rfl
  have updated : e.updatedAt = e'.updatedAt := time_at h rfl 13 rfl rfl
  exact (EnvironmentOut.mk.injEq ..).mpr ⟨id, projectId, agentId, name, image, containerId,
    status, statusMessage, gpu, env, mounts, command, created, updated⟩

theorem registration_inj {r r' : RegistrationOut}
    (h : (registration r).wire = (registration r').wire) : r = r' := by
  have id : r.id = r'.id := uuid_at h rfl 0 rfl rfl
  have label : r.label = r'.label := text_at h rfl 1 rfl rfl
  have status : r.status = r'.status := text_at h rfl 2 rfl rfl
  have agentId : r.agentId = r'.agentId := optional_at h rfl uuid_injective uuid_text_ne 3 rfl rfl
  have created : r.createdAt = r'.createdAt := time_at h rfl 4 rfl rfl
  have claimed : r.claimedAt = r'.claimedAt :=
    optional_at h rfl rfc3339_injective rfc3339_ne 5 rfl rfl
  have expires : r.expiresAt = r'.expiresAt := time_at h rfl 6 rfl rfl
  exact (RegistrationOut.mk.injEq ..).mpr ⟨id, label, status, agentId, created, claimed, expires⟩

theorem wire_inj {o o' : Out} (h : o.wire = o'.wire) : o = o' := by
  -- the kinds differ in a field that is never left out
  cases o with
  | agent a =>
    have url := field_there h 2 rfl (by simp [omitKeys])
    cases o' with
    | agent a' => rw [agent_inj h]
    | _ => simp [data] at url
  | project p =>
    cases o' with
    | project p' => rw [project_inj h]
    | agent a' =>
      have url := field_there h.symm 2 rfl (by simp [omitKeys])
      simp [data] at url
    | environment e' =>
      have image := field_there h.symm 4 rfl (by simp [omitKeys])
      simp [data] at image
    | registration r' =>
      have label := field_there h.symm 1 rfl (by simp [omitKeys])
      simp [data] at label
  | environment e =>
    have image := field_there h 4 rfl (by simp [omitKeys])
    cases o' with
    | environment e' => rw [environment_inj h]
    | _ => simp [data] at image
  | registration r =>
    have label := field_there h 1 rfl (by simp [omitKeys])
    cases o' with
    | registration r' => rw [registration_inj h]
    | _ => simp [data] at label

end Out

/-! ## The answers -/

theorem parse_text (o : Out) : parse (js o.text) = some (o.wire.map js) :=
  parse_dumps Errors.compact o.lawful_wire

theorem parse_listText (os : List Out) :
    parse (js (listText os)) = some (.array (os.map fun o => o.wire.map js)) := by
  have lawful : (Value.array (os.map Out.wire)).Lawful := by
    refine (lawfulElements_iff _).mpr fun v hv => ?_
    obtain ⟨o, -, rfl⟩ := List.mem_map.mp hv
    exact o.lawful_wire
  rw [listText, parse_dumps Errors.compact lawful, Value.map, mapElements_eq, List.map_map]
  rfl

theorem wire_map_injective : Function.Injective fun o : Out => o.wire.map js :=
  fun _ _ h => Out.wire_inj (map_inj (fun _ _ => js_inj) _ _ h)

/-- A client reads of every record what the server has of it, and no two different answers
look the same on the wire. -/
theorem records_read :
    (∀ os, ∃ vs, parse (js (listText os)) = some (.array vs) ∧ List.Forall₂ Out.ReadAs os vs) ∧
    (∀ o : Out, ∃ v, parse (js o.text) = some v ∧ o.ReadAs v) ∧
    Function.Injective listText ∧ Function.Injective Out.text := by
  refine ⟨fun os => ⟨_, parse_listText os, ?_⟩, fun o => ⟨_, parse_text o, o.readAs_wire⟩,
    fun os os' same => ?_, fun o o' same => ?_⟩
  · rw [List.forall₂_map_right_iff]
    exact List.forall₂_same.mpr fun o _ => o.readAs_wire
  · have read := parse_listText os
    rw [same, parse_listText os'] at read
    exact wire_map_injective.list_map (Value.array.inj (Option.some.inj read)).symm
  · have read := parse_text o
    rw [same, parse_text o'] at read
    exact wire_map_injective (Option.some.inj read).symm

end Karr.Schemas
