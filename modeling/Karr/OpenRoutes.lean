import Karr.Api.Routes

/-!
# Open routes

What a request without the admin token reaches, whatever its method and path: the
five operations that the documentation calls open, the frontend, and the answer
for unknown paths of the API.
-/

set_option autoImplicit false

namespace Karr.Routes

open Routing

/-- The method and the path of an open operation. -/
def Endpoint.openAt : Endpoint → Option (String × String)
  | .health => some ("GET", "/health")
  | .ready => some ("GET", "/ready")
  | .metrics => some ("GET", "/metrics")
  | .installScript => some ("GET", "/api/v1/install.sh")
  | .register => some ("POST", "/api/v1/agents/register")
  | _ => none

/-- Those of a registration token. -/
def Endpoint.limited : Endpoint → Bool
  | .installScript | .register => true
  | _ => false

def Endpoint.frontend : Endpoint → Bool
  | .assets | .unknownApiRoute | .spaFallback => true
  | _ => false

/-! ## The table -/

/-- The route needs the admin token, is open at its own path, or is one of the last. -/
def Guarded (r : Route Operation) : Bool :=
  decide (.requireAdmin ∈ r.endpoint.dependencies) ||
    match r.endpoint.endpoint.openAt with
    | some (method, path) => decide (r.methods = some [method] ∧
        r.template = (pieces path.toList).map Segment.lit)
    | none => r.endpoint.endpoint.frontend

theorem routes_guarded (built : Bool) : ∀ r ∈ routes built, Guarded r = true := by
  cases built <;> decide

variable {built : Bool} {adminToken : String} {allows : String → Bool} {r : Request}

theorem served {endpoint : Endpoint} {params : List (List Char)}
    (h : serve built adminToken allows r = .reached endpoint params) :
    ∃ operation, operation.endpoint = endpoint ∧
      dispatch (routes built) r.method r.path = .handled operation params ∧
      ∀ dependency ∈ operation.dependencies,
        dependency.refuses adminToken r.presented allows = none := by
  unfold serve at h
  split at h
  · rename_i operation params' handled
    split at h
    · cases h
    · rename_i pass
      cases h
      exact ⟨operation, rfl, handled, List.findSome?_eq_none_iff.mp pass⟩
  · cases h
  · cases h
  · cases h

/-- Past the dependencies without the token, the route is not one that needs it. -/
theorem reached_open (anonymous : Auth.tokenMatches r.presented adminToken = false)
    {endpoint : Endpoint} {params : List (List Char)}
    (h : serve built adminToken allows r = .reached endpoint params) :
    (∃ method path, endpoint.openAt = some (method, path) ∧ r.method = method ∧
      (r.path = path.toList ∨ r.path = path.toList ++ ['\n'])) ∨ endpoint.frontend = true := by
  obtain ⟨operation, rfl, handled, pass⟩ := served h
  obtain ⟨route, hr, rfl, taken⟩ := takes_of_handled handled
  obtain ⟨methods, fit⟩ := Route.takes_eq_some.mp taken
  have guarded := routes_guarded built route hr
  rw [Guarded, Bool.or_eq_true, decide_eq_true_eq] at guarded
  rcases guarded with admin | guarded
  · have refused := pass _ admin
    rw [Dependency.refuses, anonymous] at refused
    cases refused
  · split at guarded
    · rename_i method path openAt
      obtain ⟨only, template⟩ := of_decide_eq_true guarded
      refine Or.inl ⟨method, path, openAt, List.mem_singleton.mp (methods _ only), ?_⟩
      rw [template] at fit
      have same := (fits_lit fit).2
      rwa [joined_pieces, joined_pieces] at same
    · exact Or.inr guarded

/-! ## The frontend -/

/-- A path of the API that the last route fits is one that the route before it fits. -/
theorem unknown_before_spa {path : List Char} (api : "/api/".toList <+: path)
    (fit : (fits (compile "/{path:path}") (pieces path)).isSome) :
    (fits (compile "/api/{path:path}") (pieces path)).isSome := by
  obtain ⟨s, rfl⟩ := api
  have cut : pieces ("/api/".toList ++ s) = [] :: "api".toList :: pieces s := by
    rw [← pieces_append (by decide) s, ← pieces_slash]
    rfl
  obtain ⟨p, ps, eq⟩ := List.exists_cons_of_ne_nil (pieces_ne_nil s)
  have spa : compile "/{path:path}" = [.lit [], .rest] := by decide
  have unknown : compile "/api/{path:path}" = [.lit [], .lit "api".toList, .rest] := by decide
  rw [cut, eq] at fit ⊢
  rw [spa, fits_lit_cons, fits, Option.isSome_map, joined] at fit
  · rw [unknown, fits_lit_cons, fits_lit_cons, fits, Option.isSome_map]
    exact untilNewline_append (p := "api/".toList) fit
  · exact List.cons_ne_nil p ps

/-- The routes before the last two. -/
theorem routes_split (built : Bool) : ∃ first, routes built = first ++ [unknownApiRoute, spaFallback] ∧
    ∀ route ∈ first, route.endpoint.endpoint ≠ .spaFallback := by
  refine ⟨_, (List.append_assoc _ _ _).symm, ?_⟩
  cases built <;> decide

theorem spa_outside_api {operation : Operation} {params : List (List Char)}
    (handled : dispatch (routes built) r.method r.path = .handled operation params)
    (spa : operation.endpoint = .spaFallback) : ¬ "/api/".toList <+: r.path := by
  intro api
  obtain ⟨first, split, other⟩ := routes_split built
  rw [dispatch_handled, split, List.findSome?_append, Option.or_eq_some_iff] at handled
  rcases handled with early | ⟨-, last⟩
  · obtain ⟨route, hr, taken⟩ := List.exists_of_findSome?_eq_some early
    obtain ⟨_, -, same⟩ := Option.map_eq_some_iff.mp taken
    cases same
    exact other route hr spa
  · -- the route before takes what the last one takes
    cases unknown : unknownApiRoute.takes r.method r.path with
    | some values =>
      rw [List.findSome?_cons, unknown] at last
      cases last
      cases spa
    | none =>
      rw [List.findSome?_cons, unknown, Option.map_none, List.findSome?_singleton] at last
      obtain ⟨values, taken, -⟩ := Option.map_eq_some_iff.mp last
      obtain ⟨methods, fit⟩ := Route.takes_eq_some.mp taken
      have method := methods _ rfl
      obtain ⟨values', fit'⟩ := Option.isSome_iff_exists.mp
        (unknown_before_spa api (Option.isSome_iff_exists.mpr ⟨values, fit⟩))
      have takes : unknownApiRoute.takes r.method r.path = some values' := by
        refine Route.takes_eq_some.mpr ⟨fun methods' same => ?_, fit'⟩
        cases same
        rcases List.mem_cons.mp method with get | head
        · rw [get]
          decide
        · rw [List.mem_singleton.mp head]
          decide
      rw [unknown] at takes
      cases takes

/-! ## Without the token -/

theorem limited_served {endpoint : Endpoint}
    (handled : dispatch (routes built) r.method r.path =
      .handled ⟨endpoint, [.rateLimited "register_limiter"]⟩ []) :
    serve built adminToken allows r =
      if !allows "register_limiter" then .refused 429 else .reached endpoint [] := by
  rw [serve, handled]
  simp only [List.findSome?_singleton, Dependency.refuses]
  cases allows "register_limiter" <;> rfl

theorem open_reached {endpoint : Endpoint} {method path : String}
    (openAt : endpoint.openAt = some (method, path)) (built : Bool) (adminToken : String)
    (allows : String → Bool) (presented : Option String) :
    serve built adminToken allows ⟨method, path.toList, presented⟩ =
      if endpoint.limited && !allows "register_limiter" then .refused 429
      else .reached endpoint [] := by
  cases endpoint
  case health | ready | metrics =>
    cases openAt
    cases built <;> rfl
  case installScript | register =>
    cases openAt
    refine limited_served ?_
    cases built <;> rfl
  all_goals cases openAt

/-- Without the admin token a request reaches an open operation, at its own method and path, or
what is not of the API; and the open operations are reached with or without it, unless their
limiter refuses. -/
theorem open_routes :
    (Auth.tokenMatches r.presented adminToken = false → ∀ endpoint params,
      serve built adminToken allows r = .reached endpoint params →
      (∃ method path, endpoint.openAt = some (method, path) ∧ r.method = method ∧
        (r.path = path.toList ∨ r.path = path.toList ++ ['\n'])) ∨
      endpoint = .assets ∨ endpoint = .unknownApiRoute ∨
      endpoint = .spaFallback ∧ ¬ "/api/".toList <+: r.path) ∧
    ∀ endpoint method path, endpoint.openAt = some (method, path) →
      r.method = method → r.path = path.toList →
      serve built adminToken allows r =
        if endpoint.limited && !allows "register_limiter" then .refused 429
        else .reached endpoint [] := by
  constructor
  · intro anonymous endpoint params reached
    rcases reached_open anonymous reached with known | frontend
    · exact Or.inl known
    · refine Or.inr ?_
      obtain ⟨operation, rfl, handled, -⟩ := served reached
      cases same : operation.endpoint with
      | assets => exact Or.inl rfl
      | unknownApiRoute => exact Or.inr (Or.inl rfl)
      | spaFallback => exact Or.inr (Or.inr ⟨rfl, spa_outside_api handled same⟩)
      | _ =>
        rw [same] at frontend
        cases frontend
  · rintro endpoint method path openAt rfl path_eq
    have request : r = ⟨r.method, path.toList, r.presented⟩ := by rw [← path_eq]
    rw [request]
    exact open_reached openAt built adminToken allows r.presented

/-- Without the token the agents are out of reach, and with it the health check is not. -/
theorem open_routes_agents :
    (¬ ∃ params, serve true "secret" (fun _ => true) ⟨"GET", "/api/v1/agents".toList, none⟩ =
      .reached .listAgents params) ∧
    serve true "secret" (fun _ => true) ⟨"GET", "/health".toList, some "secret"⟩ =
      .reached .health [] := by
  refine ⟨?_, (open_routes (r := ⟨"GET", "/health".toList, some "secret"⟩)).2 .health "GET"
    "/health" rfl rfl rfl⟩
  rintro ⟨params, reached⟩
  have law := (open_routes (r := ⟨"GET", "/api/v1/agents".toList, none⟩)).1 rfl _ _ reached
  rcases law with ⟨method, path, openAt, -⟩ | other | other | ⟨other, -⟩
  · cases openAt
  · cases other
  · cases other
  · cases other

end Karr.Routes
