import Mathlib.Data.List.Nodup
import Netknot.Http.Target
import Netknot.Lib.Assoc

/-!
# Registering and Finding Handlers

`HttpServer::registerHandler` fills the table of two levels in which the read callback looks a
request up: by path, and by method. A registry for a new path is reserved first; a guard takes
it out again when the handler cannot be inserted.

What the table is for is a relation: `RoutesTo` says where a request goes in terms of the
registrations alone, without an order. A run of calls of `registerHandler`, failed ones among
them, builds a table that routes every request so.

A `peff::HashMap` is the list of its entries; what `insert` makes of a key that is there
already is a parameter. The fields of `HttpURLHandlerState` that show the target refer to the
variables that the dispatch assigns, so a handler sees what was assigned to them.

## Main results

* `registerHandler_cases`: what one call does to the table.
* `routesTo_of_registered`: the table after a run of calls.
* `splitTarget_path`: the path of a target is what stands before its query and its fragment.
* `onBody_eq`: the dispatch, in terms of the route.
* `dispatch_routes`: every request goes where the registrations say.
* `target_partition`: what the dispatch makes of every raw path, and what the handler sees of it.
-/

namespace Netknot.Http

open Search

/-- `HttpServer::handlerRegistries`. -/
abbrev HandlerRegistries := List (Bytes × List (Bytes × HttpRequestHandler))

/-- The arguments of a call of `registerHandler`; the method is a field of the handler. -/
structure Registration where
  name : Bytes
  methodName : Bytes
  handleURL : HttpRequestHandler

/-- The allocations of `registerHandler`. -/
inductive RegisterAlloc
  | baseUrl
  | registry
  | handler
  deriving DecidableEq, Repr

section

variable (duplicate : HttpRequestHandler → HttpRequestHandler → Option HttpRequestHandler)
  (assertions : Bool) (oom : RegisterAlloc → Bool)

/-- `HttpServer::_reserveHandlerRegistry`. -/
def HttpServer.reserveHandlerRegistry (registries : HandlerRegistries) (name : Bytes) :
    ExceptionPointer × HandlerRegistries :=
  if oom .baseUrl then (some .outOfMemory, registries)
  else if oom .registry then (some .outOfMemory, registries)
  else (none, registries ++ [(name, [])])

/-- `HttpServer::_removeHandlerRegistry`; `none` is the failure of its assertion. -/
def HttpServer.removeHandlerRegistry (registries : HandlerRegistries) (name : Bytes) :
    Option HandlerRegistries :=
  if assertions && (registries.lookup name).isNone then none
  else some (Assoc.erase name registries)

/-- `handlers.insert(methodName, handler)`. -/
def insertHandler (handlers : List (Bytes × HttpRequestHandler)) (r : Registration) :
    Option (List (Bytes × HttpRequestHandler)) :=
  match handlers.lookup r.methodName with
  | none => if oom .handler then none else some (handlers ++ [(r.methodName, r.handleURL)])
  | some old => (duplicate old r.handleURL).map fun kept =>
      Assoc.modify r.methodName (fun _ => kept) handlers

/-- `HttpServer::registerHandler`: what it returns, and the table. When it returns early in a
call that found no registry, `removeHandlerGuard` runs. -/
def HttpServer.registerHandler (registries : HandlerRegistries) (r : Registration) :
    Option (ExceptionPointer × HandlerRegistries) :=
  match registries.lookup r.name with
  | some handlers =>
      match insertHandler duplicate oom handlers r with
      | none => some (some .outOfMemory, registries)
      | some handlers => some (none, Assoc.modify r.name (fun _ => handlers) registries)
  | none =>
      match HttpServer.reserveHandlerRegistry oom registries r.name with
      | (some e, registries) =>
          (HttpServer.removeHandlerRegistry assertions registries r.name).map fun registries =>
            (some e, registries)
      | (none, registries) =>
          match insertHandler duplicate oom [] r with
          | none =>
              (HttpServer.removeHandlerRegistry assertions registries r.name).map
                fun registries => (some .outOfMemory, registries)
          | some handlers => some (none, Assoc.modify r.name (fun _ => handlers) registries)

end

/-- **A run of calls** of `registerHandler` on an empty table: the registrations that
succeeded, and the table. -/
inductive Registered
    (duplicate : HttpRequestHandler → HttpRequestHandler → Option HttpRequestHandler)
    (assertions : Bool) : List Registration → HandlerRegistries → Prop
  | empty : Registered duplicate assertions [] []
  | success {registrations : List Registration} {registries registries' : HandlerRegistries}
      (oom : RegisterAlloc → Bool) (r : Registration)
      (before : Registered duplicate assertions registrations registries)
      (call : HttpServer.registerHandler duplicate assertions oom registries r =
        some (none, registries')) :
      Registered duplicate assertions (registrations ++ [r]) registries'
  | failure {registrations : List Registration} {registries registries' : HandlerRegistries}
      (oom : RegisterAlloc → Bool) (r : Registration) (e : Exception)
      (before : Registered duplicate assertions registrations registries)
      (call : HttpServer.registerHandler duplicate assertions oom registries r =
        some (some e, registries')) :
      Registered duplicate assertions registrations registries'

/-! ### Where a request goes -/

/-- Where a request goes. -/
inductive Route
  | handler (handleURL : HttpRequestHandler)
  | methodNotAllowed
  | notFound

/-- **Where the registrations say** that a request for a path and a method goes. -/
inductive RoutesTo (registrations : List Registration) (path method : Bytes) : Route → Prop
  | handler (r : Registration) (mem : r ∈ registrations) (name : r.name = path)
      (methodName : r.methodName = method) :
      RoutesTo registrations path method (.handler r.handleURL)
  | methodNotAllowed (some_path : ∃ r ∈ registrations, r.name = path)
      (no_method : ∀ r ∈ registrations, r.name = path → r.methodName ≠ method) :
      RoutesTo registrations path method .methodNotAllowed
  | notFound (no_path : ∀ r ∈ registrations, r.name ≠ path) :
      RoutesTo registrations path method .notFound

/-- The lookups of the read callback. -/
def route (registries : HandlerRegistries) (path method : Bytes) : Route :=
  match registries.lookup path with
  | none => .notFound
  | some handlers =>
      match handlers.lookup method with
      | none => .methodNotAllowed
      | some handleURL => .handler handleURL

/-- The registrations have pairwise different pairs of a path and a method. -/
def Distinct (registrations : List Registration) : Prop :=
  (registrations.map fun r => (r.name, r.methodName)).Nodup

/-- The registrations before the last ones are different as well. -/
theorem Distinct.left {registrations registrations' : List Registration}
    (h : Distinct (registrations ++ registrations')) : Distinct registrations := by
  rw [Distinct, List.map_append] at h
  exact (List.nodup_append.mp h).1

/-- **A request goes to one place** only. -/
theorem RoutesTo.unique {registrations : List Registration} (hdistinct : Distinct registrations)
    {path method : Bytes} {route route' : Route} (h : RoutesTo registrations path method route)
    (h' : RoutesTo registrations path method route') : route = route' := by
  cases h with
  | handler r mem name methodName =>
      cases h' with
      | handler r' mem' name' methodName' =>
          have hpair : (r.name, r.methodName) = (r'.name, r'.methodName) := by
            rw [name, name', methodName, methodName']
          rw [List.inj_on_of_nodup_map hdistinct mem mem' hpair]
      | methodNotAllowed _ no_method => exact absurd methodName (no_method r mem name)
      | notFound no_path => exact absurd name (no_path r mem)
  | methodNotAllowed some_path no_method =>
      cases h' with
      | handler r' mem' name' methodName' => exact absurd methodName' (no_method r' mem' name')
      | methodNotAllowed _ _ => rfl
      | notFound no_path =>
          obtain ⟨r, mem, name⟩ := some_path
          exact absurd name (no_path r mem)
  | notFound no_path =>
      cases h' with
      | handler r' mem' name' _ => exact absurd name' (no_path r' mem')
      | methodNotAllowed some_path _ =>
          obtain ⟨r, mem, name⟩ := some_path
          exact absurd name (no_path r mem)
      | notFound _ => rfl

/-- **The order does not matter**: only which registrations there are. -/
theorem RoutesTo.congr {registrations registrations' : List Registration} {path method : Bytes}
    {route : Route} (hmem : ∀ r, r ∈ registrations ↔ r ∈ registrations')
    (h : RoutesTo registrations path method route) :
    RoutesTo registrations' path method route := by
  cases h with
  | handler r mem name methodName => exact .handler r ((hmem r).mp mem) name methodName
  | methodNotAllowed some_path no_method =>
      obtain ⟨r, mem, name⟩ := some_path
      exact .methodNotAllowed ⟨r, (hmem r).mp mem, name⟩ fun r' mem' =>
        no_method r' ((hmem r').mpr mem')
  | notFound no_path => exact .notFound fun r mem => no_path r ((hmem r).mpr mem)

/-- A registration for another path or method changes nothing for a request, unless its path
was not known. -/
theorem RoutesTo.append {registrations : List Registration} {path method : Bytes}
    {route : Route} {r : Registration} (h : RoutesTo registrations path method route)
    (hother : r.name = path → r.methodName ≠ method)
    (hknown : route = .notFound → r.name ≠ path) :
    RoutesTo (registrations ++ [r]) path method route := by
  cases h with
  | handler r' mem name methodName =>
      exact .handler r' (List.mem_append_left _ mem) name methodName
  | methodNotAllowed some_path no_method =>
      obtain ⟨r', mem, name⟩ := some_path
      refine .methodNotAllowed ⟨r', List.mem_append_left _ mem, name⟩ fun r'' mem'' hname => ?_
      rcases List.mem_append.mp mem'' with mem'' | mem''
      · exact no_method r'' mem'' hname
      · obtain rfl := List.mem_singleton.mp mem''
        exact hother hname
  | notFound no_path =>
      refine .notFound fun r' mem => ?_
      rcases List.mem_append.mp mem with mem | mem
      · exact no_path r' mem
      · obtain rfl := List.mem_singleton.mp mem
        exact hknown rfl

/-! ### One call of `registerHandler` -/

section

variable {duplicate : HttpRequestHandler → HttpRequestHandler → Option HttpRequestHandler}
  {assertions : Bool} {oom : RegisterAlloc → Bool} {registries registries' : HandlerRegistries}
  {r : Registration}

/-- A handler for a new method is inserted. -/
theorem lookup_insertHandler {handlers handlers' : List (Bytes × HttpRequestHandler)}
    (hnew : handlers.lookup r.methodName = none)
    (h : insertHandler duplicate oom handlers r = some handlers') (method : Bytes) :
    handlers'.lookup method =
      if method = r.methodName then some r.handleURL else handlers.lookup method := by
  rw [insertHandler, hnew] at h
  dsimp only at h
  by_cases hoom : oom .handler = true
  · rw [if_pos hoom] at h
    cases h
  · rw [if_neg hoom] at h
    obtain rfl := Option.some.inj h
    exact Assoc.lookup_append_singleton hnew

/-- A registry that was reserved is empty. -/
theorem lookup_reserve {name : Bytes} (hnew : registries.lookup name = none) :
    (registries ++ [(name, [])]).lookup name = some [] :=
  (Assoc.lookup_append_singleton hnew).trans (if_pos rfl)

/-- A registry is reserved, or the table stays as it was. -/
theorem reserveHandlerRegistry_cases (registries : HandlerRegistries) (name : Bytes) :
    HttpServer.reserveHandlerRegistry oom registries name = (none, registries ++ [(name, [])]) ∨
      HttpServer.reserveHandlerRegistry oom registries name = (some .outOfMemory, registries) := by
  rw [HttpServer.reserveHandlerRegistry]
  split
  · exact .inr rfl
  · split
    · exact .inr rfl
    · exact .inl rfl

/-- The guard takes the registry of its path out. -/
theorem eq_of_removeHandlerRegistry {name : Bytes}
    (h : HttpServer.removeHandlerRegistry assertions registries name = some registries') :
    registries' = Assoc.erase name registries := by
  rw [HttpServer.removeHandlerRegistry] at h
  split at h
  · cases h
  · exact (Option.some.inj h).symm

/-- **What a call does**: it puts the handler into the registry of its path, which it reserves
if need be, and changes no other; or it fails, and the table is as it was, because the guard
takes a new registry out again. -/
theorem registerHandler_cases {e : ExceptionPointer}
    (h : HttpServer.registerHandler duplicate assertions oom registries r =
      some (e, registries')) :
    (e = none ∧ ∃ handlers', insertHandler duplicate oom ((registries.lookup r.name).getD []) r =
        some handlers' ∧
      ∀ path, registries'.lookup path =
        if path = r.name then some handlers' else registries.lookup path) ∨
    (e = some .outOfMemory ∧ registries' = registries) := by
  rw [HttpServer.registerHandler] at h
  cases hlookup : registries.lookup r.name with
  | some handlers =>
      rw [hlookup] at h
      dsimp only at h
      cases hinsert : insertHandler duplicate oom handlers r with
      | none =>
          rw [hinsert] at h
          obtain ⟨rfl, rfl⟩ := Prod.mk.inj (Option.some.inj h)
          exact .inr ⟨rfl, rfl⟩
      | some handlers' =>
          rw [hinsert] at h
          obtain ⟨rfl, rfl⟩ := Prod.mk.inj (Option.some.inj h)
          exact .inl ⟨rfl, handlers', hinsert, fun path => Assoc.lookup_modify_const hlookup⟩
  | none =>
      rw [hlookup] at h
      dsimp only at h
      rcases @reserveHandlerRegistry_cases oom registries r.name with hreserve | hreserve
      · rw [hreserve] at h
        dsimp only at h
        cases hinsert : insertHandler duplicate oom [] r with
        | none =>
            rw [hinsert] at h
            obtain ⟨registries₂, hguard, hresult⟩ := Option.map_eq_some_iff.mp h
            obtain ⟨rfl, rfl⟩ := Prod.mk.inj hresult
            rw [eq_of_removeHandlerRegistry hguard, Assoc.erase_append_singleton hlookup]
            exact .inr ⟨rfl, rfl⟩
        | some handlers' =>
            rw [hinsert] at h
            obtain ⟨rfl, rfl⟩ := Prod.mk.inj (Option.some.inj h)
            refine .inl ⟨rfl, handlers', hinsert, fun path => ?_⟩
            rw [Assoc.lookup_modify_const (lookup_reserve hlookup)]
            by_cases hpath : path = r.name
            · rw [if_pos hpath, if_pos hpath]
            · rw [if_neg hpath, if_neg hpath, Assoc.lookup_append_singleton hlookup, if_neg hpath]
      · rw [hreserve] at h
        dsimp only at h
        obtain ⟨registries₂, hguard, hresult⟩ := Option.map_eq_some_iff.mp h
        obtain ⟨rfl, rfl⟩ := Prod.mk.inj hresult
        rw [eq_of_removeHandlerRegistry hguard, Assoc.erase_eq_self hlookup]
        exact .inr ⟨rfl, rfl⟩

end

/-! ### The table after a run -/

section

variable {duplicate : HttpRequestHandler → HttpRequestHandler → Option HttpRequestHandler}
  {assertions : Bool} {registrations : List Registration} {registries : HandlerRegistries}

/-- **The step of the run**: after a call that succeeds the table routes every request as the
registrations say, the new one among them. -/
theorem routesTo_of_success {oom : RegisterAlloc → Bool} {registries' : HandlerRegistries}
    {r : Registration}
    (ih : ∀ path method, RoutesTo registrations path method (route registries path method))
    (hdistinct : Distinct (registrations ++ [r]))
    (h : HttpServer.registerHandler duplicate assertions oom registries r =
      some (none, registries')) (path method : Bytes) :
    RoutesTo (registrations ++ [r]) path method (route registries' path method) := by
  rcases registerHandler_cases h with ⟨-, handlers', hinsert, hlookup⟩ | ⟨he, -⟩
  case inr => cases he
  -- The method is new in its registry: a handler for it would be a second registration.
  have hnew : ((registries.lookup r.name).getD []).lookup r.methodName = none := by
    cases hregistry : registries.lookup r.name with
    | none => rfl
    | some handlers =>
        cases hmethod : handlers.lookup r.methodName with
        | none => exact hmethod
        | some old =>
            have hroute := ih r.name r.methodName
            simp only [route, hregistry, hmethod] at hroute
            obtain ⟨r', mem, name, methodName⟩ : ∃ r' ∈ registrations,
                r'.name = r.name ∧ r'.methodName = r.methodName := by
              cases hroute with
              | handler r' mem name methodName => exact ⟨r', mem, name, methodName⟩
            rw [Distinct, List.map_append, List.nodup_append] at hdistinct
            exact absurd (by rw [name, methodName]) (hdistinct.2.2 (r'.name, r'.methodName)
              (List.mem_map_of_mem mem) (r.name, r.methodName) List.mem_cons_self)
  have hmethods := lookup_insertHandler hnew hinsert
  have hlast : r ∈ registrations ++ [r] := List.mem_append_right _ List.mem_cons_self
  by_cases hpath : path = r.name
  · subst hpath
    by_cases hmethod : method = r.methodName
    · subst hmethod
      simp only [route, hlookup, if_true, hmethods]
      exact .handler r hlast rfl rfl
    · simp only [route, hlookup, if_true, hmethods, if_neg hmethod]
      have hroute := ih r.name method
      cases hregistry : registries.lookup r.name with
      | some handlers =>
          simp only [route, hregistry] at hroute
          refine hroute.append (fun _ heq => hmethod heq.symm) fun hnotFound => ?_
          revert hnotFound
          split
          · exact fun h => by cases h
          · exact fun h => by cases h
      | none =>
          simp only [route, hregistry] at hroute
          refine .methodNotAllowed ⟨r, hlast, rfl⟩ fun r' mem' name' => ?_
          rcases List.mem_append.mp mem' with mem' | mem'
          · cases hroute with
            | notFound no_path => exact absurd name' (no_path r' mem')
          · obtain rfl := List.mem_singleton.mp mem'
            exact fun heq => hmethod heq.symm
  · have hsame : route registries' path method = route registries path method := by
      simp only [route, hlookup, if_neg hpath]
    rw [hsame]
    exact (ih path method).append (fun name => absurd name.symm hpath) fun _ name =>
      hpath name.symm

/-- **The table after a run of calls** routes every request as the registrations say. -/
theorem routesTo_of_registered (h : Registered duplicate assertions registrations registries)
    (hdistinct : Distinct registrations) (path method : Bytes) :
    RoutesTo registrations path method (route registries path method) := by
  induction h generalizing path method with
  | empty => exact .notFound fun r mem => absurd mem List.not_mem_nil
  | success oom r before call ih =>
      exact routesTo_of_success (ih hdistinct.left) hdistinct call path method
  | failure oom r e before call ih =>
      rcases registerHandler_cases call with ⟨he, -⟩ | ⟨-, rfl⟩
      · cases he
      · exact ih hdistinct path method

end

/-! ### The dispatch -/

/-- **The path of a target** that is not rejected is what stands before its query and
its fragment. -/
theorem splitTarget_path {rawPath : Bytes} {target : HttpReadAsyncCallback.Target}
    (h : HttpReadAsyncCallback.splitTarget rawPath = .ok (some target)) :
    target.path = pathPart rawPath := by
  rcases HttpReadAsyncCallback.splitTarget_cases rawPath with
    ⟨-, hnone⟩ | ⟨-, target', htarget, hpartition⟩
  · cases hnone.symm.trans h
  · obtain rfl := Option.some.inj (Except.ok.inj (htarget.symm.trans h))
    exact hpartition.path_eq

/-- The state a request is handled with. -/
def HttpReadAsyncCallback.stateFor (reader : HttpReadAsyncCallback)
    (target : HttpReadAsyncCallback.Target) : HttpURLHandlerState :=
  { urlPath := target.path, urlQuery := target.query, urlFragment := target.fragment,
    requestHeaderView := reader.requestHeaderView }

/-- **A request is sent on its way**: the handler is invoked, or the server answers
405 or 404. -/
def HttpReadAsyncCallback.follow (reader : HttpReadAsyncCallback) (env : Env) (ch : Choices)
    (target : HttpReadAsyncCallback.Target) : Route → Except Terminate Result
  | .handler handleURL =>
      let dispatch := Dispatch.handler reader.requestLineView.method (reader.stateFor target)
      match handleURL (reader.stateFor target) with
      | some e =>
          .ok { e := some e, reader := reader, posted := none, dispatch := some dispatch }
      | none => .ok (reader.respond ch (reader.stateFor target) dispatch)
  | .methodNotAllowed => reader.answer env ch (reader.stateFor target) .methodNotAllowed
  | .notFound => reader.answer env ch (reader.stateFor target) .notFound

/-- **The dispatch** takes the route that the table gives for the path of the target and the
method, when the target is not rejected. -/
theorem onBody_eq {reader : HttpReadAsyncCallback} {env : Env} {ch : Choices}
    {target : HttpReadAsyncCallback.Target}
    (htarget : HttpReadAsyncCallback.splitTarget reader.requestLineView.path =
      .ok (some target)) :
    reader.onBody env ch =
      if reader.isChunked then .error .chunked
      else reader.follow env ch target (route env.handlerRegistries
        (pathPart reader.requestLineView.path) reader.requestLineView.method) := by
  rw [HttpReadAsyncCallback.onBody, htarget, ← splitTarget_path htarget]
  by_cases hchunked : reader.isChunked = true
  · rw [if_pos hchunked, if_pos hchunked]
    rfl
  · rw [if_neg hchunked, if_neg hchunked]
    simp only [bind, Except.bind, route]
    cases hregistry : env.handlerRegistries.lookup target.path with
    | none => rfl
    | some handlers =>
        cases hmethod : handlers.lookup reader.requestLineView.method with
        | none => simp only [hmethod]; rfl
        | some handleURL =>
            have hstate : HttpURLHandlerState.mk target.path target.query target.fragment
                reader.requestHeaderView [] .statusLine = reader.stateFor target := rfl
            simp only [hmethod, hstate, HttpReadAsyncCallback.follow]
            cases handleURL (reader.stateFor target) with
            | none => rfl
            | some e => rfl

/-- **Routing is the registered table**: a request whose target is not rejected takes the one
route the registrations give for its path and its method, whatever its query and its fragment
are, and any other run of the same registrations gives the same route. -/
theorem dispatch_routes
    {duplicate : HttpRequestHandler → HttpRequestHandler → Option HttpRequestHandler}
    {assertions : Bool} {registrations : List Registration} {env : Env}
    (hregistered : Registered duplicate assertions registrations env.handlerRegistries)
    (hdistinct : Distinct registrations) {reader : HttpReadAsyncCallback} (ch : Choices)
    {target : HttpReadAsyncCallback.Target}
    (htarget : HttpReadAsyncCallback.splitTarget reader.requestLineView.path =
      .ok (some target)) :
    (∃! goal, RoutesTo registrations (pathPart reader.requestLineView.path)
      reader.requestLineView.method goal) ∧
    (∀ goal, RoutesTo registrations (pathPart reader.requestLineView.path)
      reader.requestLineView.method goal →
        reader.onBody env ch =
          if reader.isChunked then .error .chunked else reader.follow env ch target goal) ∧
    ∀ registrations' registries', registrations'.Perm registrations →
      Registered duplicate assertions registrations' registries' → ∀ path method,
        route registries' path method = route env.handlerRegistries path method := by
  have hroutes := routesTo_of_registered hregistered hdistinct
  refine ⟨⟨_, hroutes _ _, fun goal hgoal => hgoal.unique hdistinct (hroutes _ _)⟩, ?_, ?_⟩
  · intro goal hgoal
    rw [onBody_eq htarget, hgoal.unique hdistinct (hroutes _ _)]
  · intro registrations' registries' hperm hregistered' path method
    have hdistinct' : Distinct registrations' := (hperm.map _).nodup_iff.mpr hdistinct
    have hroutes' := routesTo_of_registered hregistered' hdistinct' path method
    exact (hroutes'.congr fun r => hperm.mem_iff).unique hdistinct (hroutes path method)

/-- A handler for `GET` on `/a` that succeeds. -/
def getA : Registration := ⟨text "/a", text "GET", fun _ => none⟩

/-- A server with this handler. -/
def serverOfA : Env :=
  { Env.bare with handlerRegistries := [(text "/a", [(text "GET", getA.handleURL)])] }

/-- A request for `/a?b#c`. -/
def readerOfA : HttpReadAsyncCallback :=
  { requestLineView := { method := text "GET", path := text "/a?b#c" } }

/-- One call of `registerHandler` makes this server. -/
theorem registered_getA :
    Registered (fun _ _ => none) true ([] ++ [getA]) serverOfA.handlerRegistries :=
  .success (fun _ => false) getA .empty rfl

/-- The request goes to the handler. -/
theorem readerOfA_routes :
    readerOfA.onBody serverOfA .succeed =
      readerOfA.follow serverOfA .succeed ⟨text "/a", text "?b", text "#c"⟩
        (.handler getA.handleURL) :=
  (dispatch_routes registered_getA (List.nodup_singleton _) .succeed rfl).2.1 _
    (.handler getA List.mem_cons_self (by decide) (by decide))

/-! ### What the handler sees -/

namespace HttpReadAsyncCallback

/-- A response is posted, or not, for the dispatch it answers. -/
theorem dispatch_respond (reader : HttpReadAsyncCallback) (ch : Choices)
    (state : HttpURLHandlerState) (dispatch : Dispatch) :
    (reader.respond ch state dispatch).dispatch = some dispatch := by
  rw [respond]
  split
  · rfl
  · rfl

/-- The server answers itself with this status. -/
theorem dispatch_of_answer {reader : HttpReadAsyncCallback} {env : Env} {ch : Choices}
    {state : HttpURLHandlerState} {status : HttpResponseStatus} {result : Result}
    (h : reader.answer env ch state status = .ok result) :
    result.dispatch = some (.status status) := by
  rw [answer] at h
  cases hwrite : state.writeResponse env.sizeofSizeT (fun i => ch.oom (.responseData i)) status
    (text "text/plain") [] with
  | error reason =>
      rw [hwrite] at h
      cases h
  | ok written =>
      rw [hwrite] at h
      simp only [bind, Except.bind] at h
      split at h
      · cases h
      · obtain rfl := Except.ok.inj h
        exact dispatch_respond _ _ _ _

/-- How a request is dispatched that takes a route. -/
def dispatchFor (reader : HttpReadAsyncCallback) (target : Target) : Route → Dispatch
  | .handler _ => .handler reader.requestLineView.method (reader.stateFor target)
  | .methodNotAllowed => .status .methodNotAllowed
  | .notFound => .status .notFound

/-- A request is dispatched by its route. -/
theorem dispatch_of_follow {reader : HttpReadAsyncCallback} {env : Env} {ch : Choices}
    {target : Target} {goal : Route} {result : Result}
    (h : reader.follow env ch target goal = .ok result) :
    result.dispatch = some (reader.dispatchFor target goal) := by
  cases goal with
  | methodNotAllowed => exact dispatch_of_answer h
  | notFound => exact dispatch_of_answer h
  | handler handleURL =>
      rw [follow] at h
      cases hhandler : handleURL (reader.stateFor target) with
      | none =>
          rw [hhandler] at h
          obtain rfl := Except.ok.inj h
          exact dispatch_respond _ _ _ _
      | some e =>
          rw [hhandler] at h
          obtain rfl := Except.ok.inj h
          rfl

/-- A target that is rejected is answered with 400, and no handler is invoked. -/
theorem onBody_of_rejected {reader : HttpReadAsyncCallback} {env : Env} {ch : Choices}
    (hchunked : reader.isChunked = false)
    (htarget : splitTarget reader.requestLineView.path = .ok none) :
    reader.onBody env ch = reader.answer env ch (reader.stateFor {}) .badRequest := by
  rw [onBody, hchunked, if_neg Bool.false_ne_true, htarget]
  rfl

/-- **Splitting a target is a partition**, for every raw path: the dispatch answers 400 without a
handler if and only if the path holds a `#` in front of its first `?`. Otherwise the parts that
the handler sees partition the raw path, and the handler is looked up by the first of them. -/
theorem target_partition (reader : HttpReadAsyncCallback) (env : Env) (ch : Choices)
    (hchunked : reader.isChunked = false) :
    (FragmentFirst reader.requestLineView.path ∧
        reader.onBody env ch = reader.answer env ch (reader.stateFor {}) .badRequest ∨
      ¬FragmentFirst reader.requestLineView.path ∧
        ∃ target, Partition reader.requestLineView.path target ∧
          reader.onBody env ch = reader.follow env ch target
            (route env.handlerRegistries target.path reader.requestLineView.method)) ∧
    ∀ result, reader.onBody env ch = .ok result →
      (result.dispatch = some (.status .badRequest) ↔
        FragmentFirst reader.requestLineView.path) ∧
      ∀ method state, result.dispatch = some (.handler method state) →
        Partition reader.requestLineView.path
            { path := state.urlPath, query := state.urlQuery, fragment := state.urlFragment } ∧
          ∃ handleURL, route env.handlerRegistries state.urlPath method = .handler handleURL := by
  rcases splitTarget_cases reader.requestLineView.path with
    ⟨hfirst, htarget⟩ | ⟨hnot, target, htarget, hpartition⟩
  · have hbody := @onBody_of_rejected reader env ch hchunked htarget
    refine ⟨.inl ⟨hfirst, hbody⟩, fun result hresult => ?_⟩
    have hdispatch := dispatch_of_answer (hbody.symm.trans hresult)
    refine ⟨iff_of_true hdispatch hfirst, fun method state hhandler => ?_⟩
    cases hdispatch.symm.trans hhandler
  · have hbody : reader.onBody env ch = reader.follow env ch target
        (route env.handlerRegistries target.path reader.requestLineView.method) := by
      rw [onBody_eq htarget, hchunked, if_neg Bool.false_ne_true, hpartition.path_eq]
    refine ⟨.inr ⟨hnot, target, hpartition, hbody⟩, fun result hresult => ?_⟩
    have hdispatch := dispatch_of_follow (hbody.symm.trans hresult)
    generalize hgoal : route env.handlerRegistries target.path reader.requestLineView.method =
      goal at hdispatch
    cases goal with
    | handler handleURL =>
        refine ⟨iff_of_false (by simp [hdispatch, dispatchFor]) hnot,
          fun method state hhandler => ?_⟩
        have heq := Option.some.inj (hdispatch.symm.trans hhandler)
        simp only [dispatchFor, Dispatch.handler.injEq] at heq
        obtain ⟨rfl, rfl⟩ := heq
        exact ⟨hpartition, handleURL, hgoal⟩
    | methodNotAllowed =>
        refine ⟨iff_of_false (by simp [hdispatch, dispatchFor]) hnot,
          fun method state hhandler => ?_⟩
        cases hdispatch.symm.trans hhandler
    | notFound =>
        refine ⟨iff_of_false (by simp [hdispatch, dispatchFor]) hnot,
          fun method state hhandler => ?_⟩
        cases hdispatch.symm.trans hhandler

/-- The target `/a?b#c` reaches the handler of `/a` in its three parts. -/
theorem target_partition_readerOfA :
    ∃ target, Partition (text "/a?b#c") target ∧
      readerOfA.onBody serverOfA .succeed = readerOfA.follow serverOfA .succeed target
        (route serverOfA.handlerRegistries target.path (text "GET")) := by
  rcases (target_partition readerOfA serverOfA .succeed rfl).1 with ⟨hfirst, -⟩ | ⟨-, htarget⟩
  · exact absurd hfirst (by decide)
  · exact htarget

end HttpReadAsyncCallback

end Netknot.Http
