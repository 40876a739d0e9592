import Netknot.Http.Routing

/-!
# Registering a Handler as a Transaction

`registerHandler` with its local variables: `handlerPtr`, which owns the handler until the map
has it, and `removeHandlerGuard`, which calls `_removeHandlerRegistry` unless it is released. Both
act when the function is left, the guard first. The guard is armed before the registry is
reserved.

A call is **atomic** when it succeeds and the table gains the handler, or fails and the table
is as it was and the handler is destroyed once, and in neither case `_removeHandlerRegistry` is
called for a registry that the call did not insert.

## Main results

* `registerHandler_eq`: the function without its local variables returns the same.
* `register_of_not_canReserve`, `register_of_insert_none`, `register_of_insert_some`: the three
  ends of a call.
* `register_atomic_iff`: when a call is atomic.
* `register_not_atomic`: a call that cannot reserve the registry.
-/

namespace Netknot.Http

/-- The local variables of `registerHandler`, the table, and what the call has done. -/
structure RegisterFrame where
  registries : HandlerRegistries
  /-- `handlerPtr` owns the handler. -/
  handlerPtr : Bool := true
  /-- `removeHandlerGuard` has not been released. -/
  guard : Bool := true
  /-- The call inserted the registry for `name`. -/
  inserted : Bool := false
  /-- How often `_removeHandlerRegistry` has been called. -/
  removals : ℕ := 0
  /-- How often the handler has been destroyed. -/
  destroyed : ℕ := 0

section

variable (duplicate : HttpRequestHandler → HttpRequestHandler → Option HttpRequestHandler)
  (assertions : Bool) (oom : RegisterAlloc → Bool)

/-- `~ScopeGuard` of `removeHandlerGuard`. -/
def RegisterFrame.leaveGuard (f : RegisterFrame) (name : Bytes) : Option RegisterFrame :=
  if f.guard then
    (HttpServer.removeHandlerRegistry assertions f.registries name).map fun registries =>
      { f with registries := registries, removals := f.removals + 1 }
  else some f

/-- `~UniquePtr` of `handlerPtr`. -/
def RegisterFrame.leaveHandlerPtr (f : RegisterFrame) : RegisterFrame :=
  if f.handlerPtr then { f with handlerPtr := false, destroyed := f.destroyed + 1 } else f

/-- A `return`: the local variables go, the last one first. -/
def RegisterFrame.leave (f : RegisterFrame) (name : Bytes) (e : ExceptionPointer) :
    Option (ExceptionPointer × RegisterFrame) :=
  (f.leaveGuard assertions name).map fun f => (e, f.leaveHandlerPtr)

/-- The `insert` of the handler, and what follows it. -/
def RegisterFrame.insert (f : RegisterFrame) (r : Registration) :
    Option (ExceptionPointer × RegisterFrame) :=
  match insertHandler duplicate oom ((f.registries.lookup r.name).getD []) r with
  | none => f.leave assertions r.name (some .outOfMemory)
  | some handlers =>
      { f with
        registries := Assoc.modify r.name (fun _ => handlers) f.registries
        handlerPtr := false
        guard := false }.leave assertions r.name none

/-- `HttpServer::registerHandler` with its local variables; `none` is the failure of the
assertion in `_removeHandlerRegistry`. -/
def HttpServer.register (registries : HandlerRegistries) (r : Registration) :
    Option (ExceptionPointer × RegisterFrame) :=
  let f : RegisterFrame := { registries := registries }
  if (registries.lookup r.name).isNone then
    match HttpServer.reserveHandlerRegistry oom registries r.name with
    | (some e, registries) => { f with registries := registries }.leave assertions r.name (some e)
    | (none, registries) =>
        { f with registries := registries, inserted := true }.insert duplicate assertions oom r
  else { f with guard := false }.insert duplicate assertions oom r

end

section

variable {duplicate : HttpRequestHandler → HttpRequestHandler → Option HttpRequestHandler}
  {assertions : Bool} {oom : RegisterAlloc → Bool} {registries : HandlerRegistries}
  {r : Registration}

/-- The function without its local variables **returns the same** and leaves the same table. -/
theorem registerHandler_eq (duplicate) (assertions) (oom) (registries : HandlerRegistries)
    (r : Registration) :
    HttpServer.registerHandler duplicate assertions oom registries r =
      (HttpServer.register duplicate assertions oom registries r).map fun x =>
        (x.1, x.2.registries) := by
  rw [HttpServer.registerHandler, HttpServer.register]
  cases hlookup : registries.lookup r.name with
  | some handlers =>
      simp only [Option.isNone_some, Bool.false_eq_true, if_false, RegisterFrame.insert, hlookup,
        Option.getD_some]
      cases insertHandler duplicate oom handlers r with
      | none => rfl
      | some handlers' => rfl
  | none =>
      simp only [Option.isNone_none, if_true]
      rcases @reserveHandlerRegistry_cases oom registries r.name with hreserve | hreserve
      · simp only [hreserve, RegisterFrame.insert, lookup_reserve hlookup, Option.getD_some]
        cases insertHandler duplicate oom [] r with
        | none =>
            simp only [RegisterFrame.leave, RegisterFrame.leaveGuard, if_true]
            cases HttpServer.removeHandlerRegistry assertions (registries ++ [(r.name, [])]) r.name
            with
            | none => rfl
            | some registries' => rfl
        | some handlers' => rfl
      · simp only [hreserve, RegisterFrame.leave, RegisterFrame.leaveGuard, if_true]
        cases HttpServer.removeHandlerRegistry assertions registries r.name with
        | none => rfl
        | some registries' => rfl

/-- A call that fails leaves the table as it was, as without the local variables. -/
theorem registries_of_failed {e : Exception} {f : RegisterFrame}
    (h : HttpServer.register duplicate assertions oom registries r = some (some e, f)) :
    f.registries = registries := by
  have hcall : HttpServer.registerHandler duplicate assertions oom registries r =
      some (some e, f.registries) := by
    rw [registerHandler_eq, h]
    rfl
  rcases registerHandler_cases hcall with ⟨he, -⟩ | ⟨-, hregistries⟩
  · cases he
  · exact hregistries

/-! ### What a call does -/

/-- The handler that is registered for a name and a method. -/
def handlerAt (registries : HandlerRegistries) (name method : Bytes) :
    Option HttpRequestHandler :=
  (registries.lookup name).bind fun handlers => handlers.lookup method

/-- Each registry holds at least one handler. -/
def Populated (registries : HandlerRegistries) : Prop := ∀ registry ∈ registries, registry.2 ≠ []

/-- **The table gains an entry**, and is otherwise as it was. -/
structure Gains (registries registries' : HandlerRegistries) (r : Registration) : Prop where
  entry : ∀ method, handlerAt registries' r.name method =
    if method = r.methodName then some r.handleURL else handlerAt registries r.name method
  other : ∀ name, name ≠ r.name → registries'.lookup name = registries.lookup name

/-- There is a registry for the name, or it can be reserved. -/
def canReserve (oom : RegisterAlloc → Bool) (registries : HandlerRegistries) (name : Bytes) :
    Bool :=
  (registries.lookup name).isSome || !(oom .baseUrl || oom .registry)

/-- The table with a registry for `name`. -/
def reserved (registries : HandlerRegistries) (name : Bytes) : HandlerRegistries :=
  if (registries.lookup name).isNone then registries ++ [(name, [])] else registries

/-- A registry that can be reserved is. -/
theorem reserveHandlerRegistry_of_canReserve {name : Bytes}
    (hlookup : registries.lookup name = none)
    (hreserve : canReserve oom registries name = true) :
    HttpServer.reserveHandlerRegistry oom registries name =
      (none, registries ++ [(name, [])]) := by
  rw [canReserve, hlookup, Option.isSome_none, Bool.false_or, Bool.not_eq_true',
    Bool.or_eq_false_iff] at hreserve
  obtain ⟨hbaseUrl, hregistry⟩ := hreserve
  rw [HttpServer.reserveHandlerRegistry, hbaseUrl, hregistry, if_neg Bool.false_ne_true,
    if_neg Bool.false_ne_true]

/-- **How a call ends** when there is no registry and none can be reserved: the guard calls
`_removeHandlerRegistry` for a registry that is not there. -/
theorem register_of_not_canReserve (hreserve : canReserve oom registries r.name = false) :
    HttpServer.register duplicate assertions oom registries r =
      if assertions then none
      else some (some .outOfMemory,
        { registries := registries, handlerPtr := false, removals := 1, destroyed := 1 }) := by
  rw [canReserve, Bool.or_eq_false_iff, Bool.not_eq_false', Bool.or_eq_true] at hreserve
  obtain ⟨hlookup, hoom⟩ := hreserve
  have hnew : registries.lookup r.name = none := by
    rwa [← Option.not_isSome_iff_eq_none, Bool.not_eq_true]
  have hcall : HttpServer.reserveHandlerRegistry oom registries r.name =
      (some .outOfMemory, registries) := by
    rw [HttpServer.reserveHandlerRegistry]
    split
    · rfl
    · rename_i hbaseUrl
      rw [if_pos (hoom.resolve_left hbaseUrl)]
  have herase : Assoc.erase r.name registries = registries := Assoc.erase_eq_self hnew
  simp only [HttpServer.register, hnew, Option.isNone_none, if_true, hcall, RegisterFrame.leave,
    RegisterFrame.leaveGuard, HttpServer.removeHandlerRegistry, Bool.and_true, herase]
  cases assertions with
  | true => rfl
  | false => rfl

/-- **How a call ends** when the handler cannot be inserted: the guard takes the registry out
again that the call inserted. -/
theorem register_of_insert_none (hreserve : canReserve oom registries r.name = true)
    (hinsert : insertHandler duplicate oom ((registries.lookup r.name).getD []) r = none) :
    ∃ f, HttpServer.register duplicate assertions oom registries r = some (some .outOfMemory, f) ∧
      f.destroyed = 1 ∧ (0 < f.removals → f.inserted = true) := by
  cases hlookup : registries.lookup r.name with
  | some handlers =>
      refine ⟨
        { registries := registries
          handlerPtr := false
          guard := false
          destroyed := 1 }, ?_, rfl, fun hremovals => absurd hremovals (Nat.lt_irrefl 0)⟩
      rw [hlookup, Option.getD_some] at hinsert
      simp only [HttpServer.register, hlookup, Option.isNone_some, Bool.false_eq_true, if_false,
        RegisterFrame.insert, Option.getD_some, hinsert, RegisterFrame.leave,
        RegisterFrame.leaveGuard]
      rfl
  | none =>
      refine ⟨
        { registries := registries
          handlerPtr := false
          inserted := true
          removals := 1
          destroyed := 1 }, ?_, rfl, fun _ => rfl⟩
      rw [hlookup, Option.getD_none] at hinsert
      have hreserved := lookup_reserve hlookup
      -- the registry is there, so the assertion of the guard holds
      have hremove : HttpServer.removeHandlerRegistry assertions (registries ++ [(r.name, [])])
          r.name = some registries := by
        rw [HttpServer.removeHandlerRegistry, hreserved, Option.isNone_some, Bool.and_false,
          if_neg Bool.false_ne_true, Assoc.erase_append_singleton hlookup]
      simp only [HttpServer.register, hlookup, Option.isNone_none, if_true,
        reserveHandlerRegistry_of_canReserve hlookup hreserve, RegisterFrame.insert, hreserved,
        Option.getD_some, hinsert, RegisterFrame.leave, RegisterFrame.leaveGuard, hremove]
      rfl

/-- **How a call ends** when the handler is inserted: the guard does nothing. -/
theorem register_of_insert_some {handlers : List (Bytes × HttpRequestHandler)}
    (hreserve : canReserve oom registries r.name = true)
    (hinsert : insertHandler duplicate oom ((registries.lookup r.name).getD []) r =
      some handlers) :
    ∃ f, HttpServer.register duplicate assertions oom registries r = some (none, f) ∧
      f.registries = Assoc.modify r.name (fun _ => handlers) (reserved registries r.name) ∧
      f.destroyed = 0 ∧ f.removals = 0 := by
  cases hlookup : registries.lookup r.name with
  | some old =>
      refine ⟨
        { registries := Assoc.modify r.name (fun _ => handlers) registries
          handlerPtr := false
          guard := false }, ?_, ?_, rfl, rfl⟩
      · rw [hlookup, Option.getD_some] at hinsert
        simp only [HttpServer.register, hlookup, Option.isNone_some, Bool.false_eq_true, if_false,
          RegisterFrame.insert, Option.getD_some, hinsert]
        rfl
      · rw [reserved, hlookup, Option.isNone_some, if_neg Bool.false_ne_true]
  | none =>
      refine ⟨
        { registries := Assoc.modify r.name (fun _ => handlers) (registries ++ [(r.name, [])])
          handlerPtr := false
          guard := false
          inserted := true }, ?_, ?_, rfl, rfl⟩
      · rw [hlookup, Option.getD_none] at hinsert
        simp only [HttpServer.register, hlookup, Option.isNone_none, if_true,
          reserveHandlerRegistry_of_canReserve hlookup hreserve, RegisterFrame.insert,
          lookup_reserve hlookup, Option.getD_some, hinsert]
        rfl
      · rw [reserved, hlookup, Option.isNone_none, if_pos rfl]

/-! ### What the table gains -/

/-- A registry that was reserved is there. -/
theorem lookup_reserved (registries : HandlerRegistries) (name : Bytes) :
    (reserved registries name).lookup name = some ((registries.lookup name).getD []) := by
  rw [reserved]
  cases hlookup : registries.lookup name with
  | some handlers => rw [Option.isNone_some, if_neg Bool.false_ne_true, hlookup, Option.getD_some]
  | none =>
      rw [Option.isNone_none, if_pos rfl, Option.getD_none]
      exact lookup_reserve hlookup

/-- Reserving a registry changes no other. -/
theorem lookup_reserved_of_ne {name other : Bytes} (hne : other ≠ name) :
    (reserved registries name).lookup other = registries.lookup other := by
  rw [reserved]
  split
  · rename_i hlookup
    rw [Assoc.lookup_append_singleton (Option.isNone_iff_eq_none.mp hlookup), if_neg hne]
  · rfl

/-- An entry of a table whose registry was reserved was there before, or is the new one. -/
theorem mem_reserved {name : Bytes} {registry : Bytes × List (Bytes × HttpRequestHandler)}
    (h : registry ∈ reserved registries name) : registry ∈ registries ∨ registry = (name, []) := by
  rw [reserved] at h
  split at h
  · exact (List.mem_append.mp h).imp_right List.mem_singleton.mp
  · exact .inl h

/-- An insertion at a method that is there leaves the handler that is kept, and no other
is changed. -/
theorem lookup_insertHandler_of_old {handlers handlers' : List (Bytes × HttpRequestHandler)}
    {old : HttpRequestHandler} (hold : handlers.lookup r.methodName = some old)
    (h : insertHandler duplicate oom handlers r = some handlers') :
    ∃ kept, duplicate old r.handleURL = some kept ∧ ∀ method,
      handlers'.lookup method = if method = r.methodName then some kept
        else handlers.lookup method := by
  rw [insertHandler, hold] at h
  obtain ⟨kept, hkept, rfl⟩ := Option.map_eq_some_iff.mp h
  exact ⟨kept, hkept, fun method => Assoc.lookup_modify_const hold⟩

/-- A registry into which a handler was inserted holds one. -/
theorem ne_nil_of_insertHandler {handlers handlers' : List (Bytes × HttpRequestHandler)}
    (h : insertHandler duplicate oom handlers r = some handlers') : handlers' ≠ [] := by
  have hfound : ∃ kept, handlers'.lookup r.methodName = some kept := by
    cases hold : handlers.lookup r.methodName with
    | none => exact ⟨_, (lookup_insertHandler hold h r.methodName).trans (if_pos rfl)⟩
    | some old =>
        obtain ⟨kept, -, hlookup⟩ := lookup_insertHandler_of_old hold h
        exact ⟨kept, (hlookup r.methodName).trans (if_pos rfl)⟩
  rintro rfl
  obtain ⟨kept, hkept⟩ := hfound
  cases hkept

/-- The path of a call has the handlers by which its own were replaced, and every other path has
its own. -/
theorem lookup_modify_reserved {handlers : List (Bytes × HttpRequestHandler)} (path : Bytes) :
    (Assoc.modify r.name (fun _ => handlers) (reserved registries r.name)).lookup path =
      if path = r.name then some handlers else registries.lookup path := by
  rw [Assoc.lookup_modify_const (lookup_reserved registries r.name)]
  by_cases hpath : path = r.name
  · rw [if_pos hpath, if_pos hpath]
  · rw [if_neg hpath, if_neg hpath, lookup_reserved_of_ne hpath]

/-- Each registry holds a handler after one was inserted. -/
theorem Populated.insert {handlers : List (Bytes × HttpRequestHandler)}
    (hpopulated : Populated registries) (hne : handlers ≠ []) :
    Populated (Assoc.modify r.name (fun _ => handlers) (reserved registries r.name)) := by
  intro registry hregistry
  obtain ⟨old, hold, rfl⟩ := List.mem_map.mp hregistry
  by_cases hname : old.1 = r.name
  · rw [if_pos hname]
    exact hne
  · rw [if_neg hname]
    rcases mem_reserved hold with hmem | rfl
    · exact hpopulated old hmem
    · exact absurd rfl hname

/-- **The table gains the entry** if and only if the handlers of its path do. -/
theorem gains_iff {handlers : List (Bytes × HttpRequestHandler)} :
    Gains registries (Assoc.modify r.name (fun _ => handlers) (reserved registries r.name)) r ↔
      ∀ method, handlers.lookup method =
        if method = r.methodName then some r.handleURL
        else handlerAt registries r.name method := by
  have hentry (method : Bytes) : handlerAt
      (Assoc.modify r.name (fun _ => handlers) (reserved registries r.name)) r.name method =
        handlers.lookup method := by
    rw [handlerAt, lookup_modify_reserved, if_pos rfl, Option.bind_some]
  constructor
  · intro hgains method
    rw [← hentry, hgains.entry]
  · intro hlookup
    refine ⟨fun method => ?_, fun name hname => ?_⟩
    · rw [hentry, hlookup]
    · rw [lookup_modify_reserved, if_neg hname]

/-! ### When a call is atomic -/

/-- **A call is atomic**: it succeeds and the table gains the entry, or it fails, the table is as
it was, and the handler is destroyed once; each registry still holds a handler, and
`_removeHandlerRegistry` is called only if the call inserted the registry. -/
def Atomic (duplicate : HttpRequestHandler → HttpRequestHandler → Option HttpRequestHandler)
    (assertions : Bool) (oom : RegisterAlloc → Bool) (registries : HandlerRegistries)
    (r : Registration) : Prop :=
  ∃ e f, HttpServer.register duplicate assertions oom registries r = some (e, f) ∧
    ((e = none ∧ f.destroyed = 0 ∧ Gains registries f.registries r) ∨
      (e ≠ none ∧ f.destroyed = 1 ∧ f.registries = registries)) ∧
    Populated f.registries ∧ (0 < f.removals → f.inserted = true)

/-- A handler that replaces another is the new one, or it is not inserted. -/
def Replaces (duplicate : HttpRequestHandler → HttpRequestHandler → Option HttpRequestHandler)
    (registries : HandlerRegistries) (r : Registration) : Prop :=
  ∀ old, handlerAt registries r.name r.methodName = some old →
    duplicate old r.handleURL = none ∨ duplicate old r.handleURL = some r.handleURL

/-- The handlers of a path before the call, of which there may be none, hold what the table holds
for the path. -/
theorem lookup_getD (registries : HandlerRegistries) (name method : Bytes) :
    ((registries.lookup name).getD []).lookup method = handlerAt registries name method := by
  rw [handlerAt]
  cases registries.lookup name with
  | none => rfl
  | some handlers => rfl

/-- The handlers of the path gain the entry unless another handler is kept. -/
theorem lookup_insertHandler_iff {handlers : List (Bytes × HttpRequestHandler)}
    (h : insertHandler duplicate oom ((registries.lookup r.name).getD []) r = some handlers) :
    (∀ method, handlers.lookup method = if method = r.methodName then some r.handleURL
        else handlerAt registries r.name method) ↔
      Replaces duplicate registries r := by
  cases hold : ((registries.lookup r.name).getD []).lookup r.methodName with
  | none =>
      have hnone : handlerAt registries r.name r.methodName = none :=
        (lookup_getD ..).symm.trans hold
      refine iff_of_true (fun method => ?_) fun old hsome => ?_
      · rw [lookup_insertHandler hold h, lookup_getD]
      · rw [hnone] at hsome
        cases hsome
  | some old =>
      have hsome : handlerAt registries r.name r.methodName = some old :=
        (lookup_getD ..).symm.trans hold
      obtain ⟨kept, hkept, hlookup⟩ := lookup_insertHandler_of_old hold h
      constructor
      · intro hgains old' hold'
        obtain rfl := Option.some.inj (hsome.symm.trans hold')
        have heq := (hlookup r.methodName).symm.trans (hgains r.methodName)
        rw [if_pos rfl, if_pos rfl] at heq
        exact .inr (hkept.trans heq)
      · intro hreplaces method
        rcases hreplaces old hsome with hnone | hnew
        · rw [hnone] at hkept
          cases hkept
        · rw [hlookup, lookup_getD, ← hkept, hnew]

/-- A handler that cannot be inserted replaces no other. -/
theorem replaces_of_insert_none
    (h : insertHandler duplicate oom ((registries.lookup r.name).getD []) r = none) :
    Replaces duplicate registries r := by
  intro old hold
  rw [insertHandler, lookup_getD, hold] at h
  exact .inl (Option.map_eq_none_iff.mp h)

/-- **When a call is atomic**: there is a registry for the path or it can be reserved, and no
other handler is kept in the place of the new one. Otherwise the guard, which is armed before
the registry is there, calls `_removeHandlerRegistry` for nothing. -/
theorem register_atomic_iff
    (duplicate : HttpRequestHandler → HttpRequestHandler → Option HttpRequestHandler)
    (assertions : Bool) (oom : RegisterAlloc → Bool) (registries : HandlerRegistries)
    (r : Registration) (hpopulated : Populated registries) :
    Atomic duplicate assertions oom registries r ↔
      canReserve oom registries r.name = true ∧ Replaces duplicate registries r := by
  cases hreserve : canReserve oom registries r.name with
  | false =>
      refine iff_of_false ?_ fun h => Bool.false_ne_true h.1
      rintro ⟨e, f, hcall, -, -, hremovals⟩
      rw [register_of_not_canReserve hreserve] at hcall
      cases assertions with
      | true => cases hcall
      | false =>
          obtain ⟨-, rfl⟩ := Prod.mk.inj (Option.some.inj hcall)
          cases hremovals Nat.one_pos
  | true =>
      rw [and_iff_right rfl]
      cases hinsert : insertHandler duplicate oom ((registries.lookup r.name).getD []) r with
      | none =>
          obtain ⟨f, hcall, hdestroyed, hremovals⟩ :=
            @register_of_insert_none _ assertions _ _ _ hreserve hinsert
          have hregistries := registries_of_failed hcall
          refine iff_of_true ⟨_, f, hcall, .inr ⟨Option.some_ne_none _, hdestroyed, hregistries⟩,
            ?_, hremovals⟩ (replaces_of_insert_none hinsert)
          rwa [hregistries]
      | some handlers =>
          obtain ⟨f, hcall, hregistries, hdestroyed, hremovals⟩ :=
            @register_of_insert_some _ assertions _ _ _ _ hreserve hinsert
          rw [← lookup_insertHandler_iff hinsert, ← gains_iff, ← hregistries]
          constructor
          · rintro ⟨e', f', hcall', hends, -, -⟩
            obtain ⟨rfl, rfl⟩ := Prod.mk.inj (Option.some.inj (hcall.symm.trans hcall'))
            rcases hends with ⟨-, -, hgains⟩ | ⟨hne, -, -⟩
            · exact hgains
            · exact absurd rfl hne
          · intro hgains
            refine ⟨none, f, hcall, .inl ⟨rfl, hdestroyed, hgains⟩, ?_, fun h => ?_⟩
            · rw [hregistries]
              exact hpopulated.insert (ne_nil_of_insertHandler hinsert)
            · rw [hremovals] at h
              exact absurd h (Nat.lt_irrefl 0)

end

/-- A handler of another path. -/
def getB : Registration := ⟨text "/b", text "GET", fun _ => none⟩

/-- **Another path is registered** atomically. -/
theorem register_atomic_getB :
    Atomic (fun _ _ => none) true (fun _ => false) serverOfA.handlerRegistries getB :=
  (register_atomic_iff _ true _ serverOfA.handlerRegistries getB fun _ hregistry =>
    (List.mem_singleton.mp hregistry) ▸ List.cons_ne_nil _ _).mpr ⟨rfl, nofun⟩

/-- **A registry that cannot be reserved** is removed: the assertion fails, or, without it, a
path is removed that is not there. -/
theorem register_not_atomic :
    HttpServer.register (fun _ _ => none) true (fun alloc => alloc = .baseUrl) [] getB = none ∧
      ∃ f, HttpServer.register (fun _ _ => none) false (fun alloc => alloc = .baseUrl) [] getB =
          some (some .outOfMemory, f) ∧ f.removals = 1 ∧ f.inserted = false ∧
        ¬ Atomic (fun _ _ => none) true (fun alloc => alloc = .baseUrl) [] getB ∧
        ¬ Atomic (fun _ _ => none) false (fun alloc => alloc = .baseUrl) [] getB := by
  have hcall : HttpServer.register (fun _ _ => none) false (fun alloc => alloc = .baseUrl) [] getB =
      some (some .outOfMemory, { registries := [], handlerPtr := false, removals := 1,
                                 destroyed := 1 }) := rfl
  refine ⟨rfl, _, hcall, rfl, rfl, ?_, ?_⟩
  · rintro ⟨e, f, hnone, -⟩
    cases hnone
  · rintro ⟨e, f, hcall', -, -, hremovals⟩
    obtain ⟨-, rfl⟩ := Prod.mk.inj (Option.some.inj (hcall.symm.trans hcall'))
    cases hremovals Nat.one_pos

end Netknot.Http
