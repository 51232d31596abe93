import Karr.Frontend.Api
import Karr.OpenRoutes

/-!
# Calls and routes

Each call of the client is answered by the operation it is named after, with the
id it was given, whatever characters are in that; there are ids no path can carry.
-/

set_option autoImplicit false

namespace Karr.Frontend

open Routing PercentEncoding Routes

/-! ## Encoded paths -/

def keepPath (c : Char) : Bool := isUnreserved c || c == '/'

theorem keepPath_percent : keepPath '%' = false := by decide

theorem alphanum_unreserved {c : Char} (h : c.isAlphanum = true) : isUnreserved c = true := by
  rw [isUnreserved, h, Bool.true_or]

/-- An id is encoded as a part of the path where it has no slash. -/
theorem enc_eq {id : String} (plain : '/' ∉ id.toList) : enc id = encode keepPath id.toList := by
  refine encode_congr fun c hc => ?_
  have other : c ≠ '/' := fun same => plain (same ▸ hc)
  rw [keepPath, beq_false_of_ne other, Bool.or_false]

theorem unreserved_eq {s : List Char} (kept : ∀ c ∈ s, isUnreserved c = true) :
    encode keepPath s = s :=
  encode_kept fun c hc => by rw [keepPath, kept c hc, Bool.true_or]

theorem slash_not_mem_encode {p : List Char} (plain : '/' ∉ p) : '/' ∉ encode keepPath p := by
  intro mem
  rcases mem_encode mem with ⟨inside, -⟩ | percent | alphanum
  · exact plain inside
  · exact absurd percent (by decide)
  · exact absurd alphanum (by decide)

theorem encode_joined (ps : List (List Char)) :
    encode keepPath (joined ps) = joined (ps.map (encode keepPath)) := by
  induction ps with
  | nil => rfl
  | cons p ps ih =>
    cases ps with
    | nil => rfl
    | cons q qs =>
      change encode keepPath (p ++ '/' :: joined (q :: qs)) =
        encode keepPath p ++ '/' :: joined ((q :: qs).map (encode keepPath))
      rw [encode_append, ← ih]
      rfl

/-- A segment that the way to the server leaves alone. -/
def Plain (p : List Char) : Prop := '/' ∉ p ∧ p ≠ ".".toList ∧ p ≠ "..".toList

instance (p : List Char) : Decidable (Plain p) := inferInstanceAs (Decidable (_ ∧ _ ∧ _))

/-- Dot segments stand for themselves. -/
theorem dot_decoded {p q : List Char} (h : q = encode keepPath p) (text : List Char)
    (decoded : decodeText q = some text) : p = text := by
  rw [h, decodeText_encode keepPath_percent] at decoded
  exact Option.some.inj decoded

theorem Plain.not_dot {p : List Char} (h : Plain p) :
    isDoubleDot (encode keepPath p) = false ∧ isSingleDot (encode keepPath p) = false := by
  have single : ∀ q ∈ dots, decodeText q = some ".".toList := by decide
  have double : ∀ a ∈ dots, ∀ b ∈ dots, decodeText (a ++ b) = some "..".toList := by decide
  constructor
  · rw [Bool.eq_false_iff]
    intro dot
    obtain ⟨a, ha, rest⟩ := List.any_eq_true.mp dot
    obtain ⟨b, hb, same⟩ := List.any_eq_true.mp rest
    exact h.2.2 (dot_decoded (of_decide_eq_true same).symm _ (double a ha b hb))
  · rw [Bool.eq_false_iff]
    intro dot
    exact h.2.1 (dot_decoded rfl _ (single _ (List.contains_iff_mem.mp dot)))

theorem resolve_eq {ps : List (List Char)}
    (plain : ∀ p ∈ ps, isDoubleDot p = false ∧ isSingleDot p = false) (done : List (List Char)) :
    resolve done ps = done ++ ps := by
  induction ps generalizing done with
  | nil => exact (List.append_nil done).symm
  | cons p ps ih =>
    have here := plain p List.mem_cons_self
    rw [resolve, here.1, here.2, if_neg Bool.false_ne_true, if_neg Bool.false_ne_true,
      ih fun q hq => plain q (List.mem_cons_of_mem p hq), List.append_assoc, List.singleton_append]

/-- A path of plain segments comes to the server as it was before it was encoded. -/
theorem received_encode {ps : List (List Char)} (some_ : ps ≠ []) (plain : ∀ p ∈ ps, Plain p) :
    received (encode keepPath (joined ([] :: ps))) = some (joined ([] :: ps)) := by
  have made (c : Char) (hc : c ∈ encode keepPath (joined ([] :: ps))) :
      (isUnreserved c || c == '%' || c == '/') = true := by
    rcases mem_encode hc with ⟨-, kept⟩ | rfl | alphanum
    · rw [keepPath, Bool.or_eq_true] at kept
      rcases kept with kept | slash
      · rw [kept, Bool.true_or, Bool.true_or]
      · rw [slash, Bool.or_true]
    · decide
    · rw [alphanum_unreserved alphanum, Bool.true_or, Bool.true_or]
  have cut : pieces (encode keepPath (joined ([] :: ps))) = [] :: ps.map (encode keepPath) := by
    rw [encode_joined]
    refine pieces_joined (List.cons_ne_nil _ _) fun q hq => ?_
    rcases List.mem_cons.mp hq with rfl | hq
    · exact List.not_mem_nil
    · obtain ⟨p, hp, rfl⟩ := List.mem_map.mp hq
      exact slash_not_mem_encode (plain p hp).1
  have kept : resolve [] (ps.map (encode keepPath)) = ps.map (encode keepPath) := by
    refine (resolve_eq (fun q hq => ?_) []).trans (List.nil_append _)
    obtain ⟨p, hp, rfl⟩ := List.mem_map.mp hq
    exact (plain p hp).not_dot
  have same : '/' :: joined (ps.map (encode keepPath)) = encode keepPath (joined ([] :: ps)) := by
    rw [encode_joined, List.map_cons]
    obtain ⟨p, qs, rfl⟩ := List.exists_cons_of_ne_nil some_
    rfl
  have fetched : fetchPath (encode keepPath (joined ([] :: ps))) =
      some (encode keepPath (joined ([] :: ps))) := by
    rw [fetchPath, if_pos (List.all_eq_true.mpr made), cut]
    exact congrArg some (kept.symm ▸ same)
  rw [received, fetched, Option.bind_some, decodeText_encode keepPath_percent]

/-! ## The segments of a call -/

namespace ApiCall

def id : ApiCall → Option String
  | .getAgent id | .deleteAgent id | .getAgentStatus id | .deleteRegistration id => some id
  | .getProject id | .updateProject id | .deleteProject id => some id
  | .getEnvironment id | .startEnvironment id | .stopEnvironment id => some id
  | .removeEnvironment id | .environmentLogs id => some id
  | _ => none

/-- The segments before the id. -/
def before : ApiCall → List (List Char)
  | .authCheck => ["api".toList, "v1".toList, "auth".toList, "check".toList]
  | .listAgents | .createAgent | .getAgent _ | .deleteAgent _ | .getAgentStatus _ =>
    ["api".toList, "v1".toList, "agents".toList]
  | .provisionAgent => ["api".toList, "v1".toList, "agents".toList, "provision".toList]
  | .listRegistrations | .deleteRegistration _ =>
    ["api".toList, "v1".toList, "agents".toList, "registrations".toList]
  | .listProjects | .createProject | .getProject _ | .updateProject _ | .deleteProject _ =>
    ["api".toList, "v1".toList, "projects".toList]
  | _ => ["api".toList, "v1".toList, "environments".toList]

/-- The segments behind the id. -/
def behind : ApiCall → List (List Char)
  | .getAgentStatus _ => ["status".toList]
  | .startEnvironment _ => ["start".toList]
  | .stopEnvironment _ => ["stop".toList]
  | .environmentLogs _ => ["logs".toList]
  | _ => []

def segments (c : ApiCall) : List (List Char) :=
  c.before ++ c.id.toList.map String.toList ++ c.behind

/-- The operation of the same name. -/
def endpoint : ApiCall → Endpoint
  | .authCheck => .check
  | .listAgents => .listAgents
  | .getAgent _ => .getAgent
  | .createAgent => .createAgent
  | .deleteAgent _ => .deleteAgent
  | .getAgentStatus _ => .agentStatus
  | .provisionAgent => .provision
  | .listRegistrations => .listRegistrations
  | .deleteRegistration _ => .deleteRegistration
  | .listProjects => .listProjects
  | .getProject _ => .getProject
  | .createProject => .createProject
  | .updateProject _ => .updateProject
  | .deleteProject _ => .deleteProject
  | .listEnvironments => .listEnvironments
  | .getEnvironment _ => .getEnvironment
  | .createEnvironment => .createEnvironment
  | .startEnvironment _ => .startEnvironment
  | .stopEnvironment _ => .stopEnvironment
  | .removeEnvironment _ => .removeEnvironment
  | .environmentLogs _ => .environmentLogs

def dependencies : ApiCall → List Dependency
  | .authCheck => [.rateLimited "auth_limiter", .requireAdmin]
  | .provisionAgent => [.requireAdmin, .rateLimited "provision_limiter"]
  | _ => [.requireAdmin]

/-- An agent's id is not the name of the route beside it. -/
def Apart : ApiCall → Prop
  | .getAgent id => id ≠ "registrations" ∧ id ≠ "registrations\n"
  | .environmentLogs id => ∀ c ∈ id.toList, isUnreserved c = true
  | _ => True

/-- The id can be a segment of a path, and does not make it another one. -/
structure Safe (c : ApiCall) : Prop where
  told : ∀ id, c.id = some id → id ≠ ""
  plain : ∀ id, c.id = some id → Plain id.toList
  apart : c.Apart

variable {c : ApiCall}

theorem segments_ne_nil (c : ApiCall) : c.segments ≠ [] := by
  cases c <;> exact List.cons_ne_nil _ _

/-- The segments around the id are plain, and made of characters that are kept. -/
theorem around (c : ApiCall) :
    ∀ p ∈ c.before ++ c.behind, Plain p ∧ p.all isUnreserved = true := by
  cases c <;> dsimp only [ApiCall.before, ApiCall.behind] <;> decide

theorem segments_plain (h : c.Safe) : ∀ p ∈ c.segments, Plain p := by
  intro p hp
  rcases List.mem_append.mp hp with hp | hp
  · rcases List.mem_append.mp hp with hp | hp
    · exact (c.around p (List.mem_append_left _ hp)).1
    · obtain ⟨id, given, rfl⟩ := List.mem_map.mp hp
      exact h.plain id (Option.mem_toList.mp given)
  · exact (c.around p (List.mem_append_right _ hp)).1

/-- The id as it stands in the URL. -/
def sent : ApiCall → List (List Char)
  | .environmentLogs id => [id.toList]
  | c => c.id.toList.map enc

theorem url_joined (c : ApiCall) : c.url = joined ([] :: (c.before ++ c.sent ++ c.behind)) := by
  cases c <;> rfl

theorem sent_eq (h : c.Safe) : c.sent = (c.id.toList.map String.toList).map (encode keepPath) := by
  have same {id : String} (given : c.id = some id) : enc id = encode keepPath id.toList :=
    enc_eq (h.plain id given).1
  have encoded (given : c.sent = c.id.toList.map enc) :
      c.sent = (c.id.toList.map String.toList).map (encode keepPath) := by
    rw [given, List.map_map]
    exact List.map_congr_left fun id hid => same (Option.mem_toList.mp hid)
  cases c with
  | environmentLogs id => exact congrArg ([·]) (unreserved_eq h.apart).symm
  | _ => exact encoded rfl

theorem received_url (h : c.Safe) : received c.url = some (joined ([] :: c.segments)) := by
  have around {ps : List (List Char)} (inside : ∀ p ∈ ps, p ∈ c.before ++ c.behind) :
      ps.map (encode keepPath) = ps := by
    refine (List.map_congr_left fun p hp => ?_).trans (List.map_id ps)
    exact unreserved_eq (List.all_eq_true.mp (c.around p (inside p hp)).2)
  have url : c.url = encode keepPath (joined ([] :: c.segments)) := by
    rw [url_joined, sent_eq h, encode_joined, segments, List.map_cons, List.map_append,
      List.map_append, around fun p hp => List.mem_append_left _ hp,
      around fun p hp => List.mem_append_right _ hp]
    rfl
  rw [url]
  exact received_encode c.segments_ne_nil (segments_plain h)

/-! ## The route of a call -/

theorem pieces_segments (h : c.Safe) : pieces (joined ([] :: c.segments)) = [] :: c.segments := by
  refine pieces_joined (List.cons_ne_nil _ _) fun p hp => ?_
  rcases List.mem_cons.mp hp with rfl | hp
  · exact List.not_mem_nil
  · exact (segments_plain h p hp).1

/-- The segments, of which the id is not known. -/
def shape (c : ApiCall) : List (Option (List Char)) :=
  some [] :: (c.before.map some ++ c.id.toList.map (fun _ => none) ++ c.behind.map some)

theorem shaped (c : ApiCall) : Shaped c.shape ([] :: c.segments) := by
  have known (ps : List (List Char)) : Shaped (ps.map some) ps := by
    rw [Shaped, List.forall₂_map_left_iff]
    exact List.forall₂_same.mpr fun p _ q same => (Option.some.inj same).symm
  have unknown (ids : List String) :
      Shaped (ids.map fun _ => none) (ids.map String.toList) := by
    rw [Shaped, List.forall₂_map_left_iff, List.forall₂_map_right_iff]
    exact List.forall₂_same.mpr fun id _ q same => nomatch same
  exact .cons (fun q same => (Option.some.inj same).symm)
    (List.rel_append (List.rel_append (known c.before) (unknown c.id.toList)) (known c.behind))

/-- `GET /api/v1/agents/registrations` comes before the route of an agent. -/
def listRegistrationsRoute : Route Operation where
  methods := some ["GET"]
  template := compile "/api/v1/agents/registrations"
  endpoint := ⟨.listRegistrations, [.requireAdmin]⟩

def getAgentRoute : Route Operation where
  methods := some ["GET"]
  template := compile "/api/v1/agents/{agent_id}"
  endpoint := ⟨.getAgent, [.requireAdmin]⟩

theorem getAgent_candidates (id : String) (built : Bool) :
    ((routes built).filter fun r =>
      (r.methods.all fun methods => decide ((getAgent id).method ∈ methods)) &&
        couldFit r.template (getAgent id).shape) =
      [listRegistrationsRoute, getAgentRoute, unknownApiRoute, spaFallback] := by
  cases built <;> rfl

theorem not_listRegistrations {id : String} (apart : (getAgent id).Apart) (method : String) :
    listRegistrationsRoute.takes method (joined ([] :: (getAgent id).segments)) = none := by
  rw [Option.eq_none_iff_forall_ne_some]
  intro params taken
  obtain ⟨-, fit⟩ := Route.takes_eq_some.mp taken
  have template : listRegistrationsRoute.template =
      (pieces "/api/v1/agents/registrations".toList).map .lit := by decide
  have split (t : List Char) (same : joined ([] :: (getAgent id).segments) =
      "/api/v1/agents/".toList ++ t) : id.toList = t := by
    change "/api/v1/agents/".toList ++ id.toList = _ at same
    exact List.append_cancel_left same
  rw [template] at fit
  have same := (fits_lit fit).2
  rw [joined_pieces, joined_pieces] at same
  rcases same with same | same
  · exact apart.1 (String.toList_inj.mp (split "registrations".toList same))
  · exact apart.2 (String.toList_inj.mp (split "registrations\n".toList same))

theorem dispatch_call (h : c.Safe) (built : Bool) :
    dispatch (routes built) c.method (joined ([] :: c.segments)) =
      .handled ⟨c.endpoint, c.dependencies⟩ (c.id.toList.map String.toList) := by
  have cut := pieces_segments h
  have shaped : Shaped c.shape (pieces (joined ([] :: c.segments))) := by
    rw [cut]
    exact c.shaped
  have told {id : String} (given : c.id = some id) : ∃ x s, id.toList = x :: s :=
    List.exists_cons_of_ne_nil fun none => h.told id given (String.toList_eq_nil_iff.mp none)
  cases c with
  | getAgent id =>
    obtain ⟨x, s, eq⟩ := told rfl
    rw [dispatch_candidates shaped (getAgent_candidates id built), List.findSome?_cons,
      not_listRegistrations h.apart]
    unfold Route.takes
    rw [cut]
    simp only [segments, ApiCall.id, Option.toList_some, List.map_cons, List.map_nil, eq]
    rfl
  | deleteAgent id | getAgentStatus id | deleteRegistration id | getProject id | updateProject id
  | deleteProject id | getEnvironment id | startEnvironment id | stopEnvironment id
  | removeEnvironment id | environmentLogs id =>
    obtain ⟨x, s, eq⟩ := told rfl
    rw [dispatch_candidates shaped rfl]
    unfold Route.takes
    rw [cut]
    simp only [segments, ApiCall.id, Option.toList_some, List.map_cons, List.map_nil, eq]
    cases built <;> rfl
  | authCheck | listAgents | createAgent | provisionAgent | listRegistrations | listProjects
  | createProject | listEnvironments | createEnvironment => cases built <;> rfl

/-- What the dependencies of its route answer a call without the token. -/
def unauthorized (allows : String → Bool) : ApiCall → Nat
  | .authCheck => if allows "auth_limiter" then 401 else 429
  | _ => 401

theorem refused (c : ApiCall) {adminToken : String} {presented : Option String}
    (anonymous : Auth.tokenMatches presented adminToken = false) (allows : String → Bool) :
    c.dependencies.findSome? (Dependency.refuses adminToken presented allows) =
      some (c.unauthorized allows) := by
  have admin (rest : List Dependency) :
      (Dependency.requireAdmin :: rest).findSome? (Dependency.refuses adminToken presented allows) =
        some 401 := by
    simp only [List.findSome?_cons, Dependency.refuses, anonymous, Bool.false_eq_true, if_false]
  cases c with
  | authCheck =>
    rw [dependencies, List.findSome?_cons, admin, unauthorized, Dependency.refuses]
    cases allows "auth_limiter" <;> rfl
  | _ => exact admin _

theorem passed (c : ApiCall) {adminToken : String} {presented : Option String}
    {allows : String → Bool} (token : Auth.tokenMatches presented adminToken = true)
    (limits : ∀ limiterName, allows limiterName = true) :
    c.dependencies.findSome? (Dependency.refuses adminToken presented allows) = none := by
  rw [List.findSome?_eq_none_iff]
  intro dependency _
  cases dependency with
  | requireAdmin => exact if_pos token
  | rateLimited limiterName => exact if_pos (limits limiterName)

/-- A call comes to the operation of its name with its very id, and without the token it gets no
further than the dependencies. -/
theorem calls_reach (safe : c.Safe) (built : Bool) (adminToken : String) (allows : String → Bool)
    (presented : Option String) :
    ∃ path, received c.url = some path ∧
      (Auth.tokenMatches presented adminToken = true →
        (∀ limiterName, allows limiterName = true) →
        serve built adminToken allows ⟨c.method, path, presented⟩ =
          .reached c.endpoint (c.id.toList.map String.toList)) ∧
      (Auth.tokenMatches presented adminToken = false →
        serve built adminToken allows ⟨c.method, path, presented⟩ =
          .refused (c.unauthorized allows)) := by
  refine ⟨_, received_url safe, fun token limits => ?_, fun anonymous => ?_⟩
  · rw [serve, dispatch_call safe built]
    simp only [passed c token limits]
  · rw [serve, dispatch_call safe built]
    simp only [refused c anonymous allows]

theorem getAgent_safe : (getAgent "é %2e?").Safe where
  told id given := by
    cases given
    decide
  plain id given := by
    cases given
    decide
  apart := ⟨by decide, by decide⟩

theorem calls_reach_getAgent : ∃ path, received (getAgent "é %2e?").url = some path ∧
    serve true "secret" (fun _ => true) ⟨"GET", path, some "secret"⟩ =
      .reached .getAgent ["é %2e?".toList] := by
  obtain ⟨path, arrived, reached, -⟩ :=
    calls_reach getAgent_safe true "secret" (fun _ => true) (some "secret")
  exact ⟨path, arrived, reached (by decide) fun _ => rfl⟩

end ApiCall

end Karr.Frontend
