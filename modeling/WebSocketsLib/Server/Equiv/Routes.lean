import WebSocketsLib.Server.Equiv.Mounts
import WebSocketsLib.Server.Routes

/-!
# Which registration answers

`Routes.dispatch`: a request is answered by the handler that has been registered first for its
method and path; without one, by the mounts; and an upgrade finds the WebSocket handlers that have
been registered last for its path.
-/

namespace WebSocketsLib

namespace Routes

variable {ω : Type} {fs : FileSystem} {regs : List (Registration ω)} {method method' : Method}
  {path path' : Bytes}

/-! ### The specification -/

/-- The first handler for a method and a path. -/
def firstRoute (regs : List (Registration ω)) (method : Method) (path : Bytes) :
    Option (Handler ω) :=
  regs.findSome? fun
    | .addRoute method' path' h => if method' = method ∧ path' = path then some h else none
    | _ => none

/-- The calls of `MountStatic`. -/
def mountsOf (regs : List (Registration ω)) : List (Bytes × Bytes) :=
  regs.filterMap fun
    | .mountStatic urlPrefix root => some (urlPrefix, root)
    | _ => none

/-- The last WebSocket handlers for a path. -/
def lastWs (regs : List (Registration ω)) (path : Bytes) : Option WsHandlers :=
  regs.reverse.findSome? fun
    | .webSocketRouter path' setters =>
      if path' = path then some (setters.foldl WsHandlers.set {}) else none
    | _ => none

/-! ### One registration -/

/-- The handler for a method and a path. -/
def lookup (rt : Routes ω) (method : Method) (path : Bytes) : Option (Handler ω) :=
  (rt.routes.lookup method).bind fun table => table.lookup path

theorem lookup_getD (rt : Routes ω) (method : Method) (path : Bytes) :
    ((rt.routes.lookup method).getD ∅).lookup path = rt.lookup method path := by
  unfold lookup
  cases rt.routes.lookup method with
  | none => exact AList.lookup_empty path
  | some table => rfl

/-- **A route is added** for its method and path, unless there is one. -/
theorem lookup_addRoute (rt : Routes ω) (h : Handler ω) :
    (rt.addRoute method' path' h).lookup method path
      = (rt.lookup method path).or (if method' = method ∧ path' = path then some h else none) := by
  by_cases hmethod : method' = method
  · subst hmethod
    have htable : (rt.addRoute method' path' h).lookup method' path
        = (if path' ∈ (rt.routes.lookup method').getD ∅ then (rt.routes.lookup method').getD ∅
          else ((rt.routes.lookup method').getD ∅).insert path' h).lookup path := by
      unfold lookup addRoute
      dsimp only
      rw [AList.lookup_insert]
      rfl
    rw [htable, ← lookup_getD]
    generalize (rt.routes.lookup method').getD ∅ = table
    by_cases hpath : path' = path
    · subst hpath
      have hnew : (if method' = method' ∧ path' = path' then some h else none) = some h :=
        if_pos ⟨rfl, rfl⟩
      rw [hnew]
      split_ifs with hmem
      · obtain ⟨h', hlookup⟩ := Option.isSome_iff_exists.mp (AList.lookup_isSome.mpr hmem)
        rw [hlookup]
        rfl
      · rw [AList.lookup_insert, AList.lookup_eq_none.mpr hmem]
        rfl
    · have hnone : (if method' = method' ∧ path' = path then some h else none) = none :=
        if_neg fun hboth => hpath hboth.2
      rw [hnone, Option.or_none]
      split_ifs with hmem
      · rfl
      · exact AList.lookup_insert_ne (Ne.symm hpath)
  · rw [if_neg fun hboth => hmethod hboth.1, Option.or_none]
    unfold lookup addRoute
    dsimp only
    rw [AList.lookup_insert_ne (Ne.symm hmethod)]

/-- What one more registration adds. -/
theorem lookup_register (rt : Routes ω) (reg : Registration ω) :
    (rt.register fs reg).lookup method path
      = (rt.lookup method path).or (firstRoute [reg] method path) := by
  cases reg with
  | addRoute method' path' h =>
    have hone : firstRoute [.addRoute method' path' h] method path
        = if method' = method ∧ path' = path then some h else none := by
      unfold firstRoute
      rw [List.findSome?_singleton]
    rw [hone]
    exact lookup_addRoute rt h
  | mountStatic urlPrefix root => exact (Option.or_none ..).symm
  | webSocketRouter path' setters => exact (Option.or_none ..).symm

/-! ### All registrations -/

/-- **The first registration of a route** counts. -/
theorem lookup_registerAll (fs : FileSystem) (regs : List (Registration ω)) (method : Method)
    (path : Bytes) : (registerAll fs regs).lookup method path = firstRoute regs method path := by
  induction regs using List.reverseRecOn with
  | nil => rfl
  | append_singleton regs reg ih =>
    have hlast : registerAll fs (regs ++ [reg]) = (registerAll fs regs).register fs reg :=
      List.foldl_concat ..
    rw [hlast, lookup_register, ih, firstRoute, firstRoute, firstRoute, List.findSome?_append]

theorem staticMounts_registerAll (fs : FileSystem) (regs : List (Registration ω)) :
    (registerAll fs regs).staticMounts = mountCalls fs (mountsOf regs) [] := by
  induction regs using List.reverseRecOn with
  | nil => rfl
  | append_singleton regs reg ih =>
    have hlast : registerAll fs (regs ++ [reg]) = (registerAll fs regs).register fs reg :=
      List.foldl_concat ..
    have hmounts : mountsOf (regs ++ [reg]) = mountsOf regs ++ mountsOf [reg] :=
      List.filterMap_append
    have hcalls : mountCalls fs (mountsOf regs ++ mountsOf [reg]) []
        = mountCalls fs (mountsOf [reg]) (mountCalls fs (mountsOf regs) []) :=
      List.foldl_append
    rw [hlast, hmounts, hcalls, ← ih]
    cases reg with
    | addRoute method path h => rfl
    | mountStatic urlPrefix root => rfl
    | webSocketRouter path setters => rfl

/-- **The last registration of a WebSocket route** counts. -/
theorem findWs_registerAll (fs : FileSystem) (regs : List (Registration ω)) (path : Bytes) :
    (registerAll fs regs).findWs path = lastWs regs path := by
  induction regs using List.reverseRecOn with
  | nil => rfl
  | append_singleton regs reg ih =>
    have hlast : registerAll fs (regs ++ [reg]) = (registerAll fs regs).register fs reg :=
      List.foldl_concat ..
    rw [hlast, lastWs, List.reverse_concat, List.findSome?_cons, ← lastWs, ← ih]
    cases reg with
    | addRoute method path' h => rfl
    | mountStatic urlPrefix root => rfl
    | webSocketRouter path' setters =>
      dsimp only
      split_ifs with hpath
      · subst hpath
        exact AList.lookup_insert _
      · exact AList.lookup_insert_ne (Ne.symm hpath)

/-- **Which registration answers** a request, and which one an upgrade finds: whatever has been
registered, in whatever order and however often. -/
theorem dispatch (fs fs' : FileSystem) (regs : List (Registration ω)) (world : ω)
    (req : Request) :
    (registerAll fs regs).handleRequest world fs' req
      = (match firstRoute regs req.method req.path with
        | some h => h world req
        | none =>
          if mountCalls fs (mountsOf regs) [] ≠ [] then
            serveStatic fs' (mountCalls fs (mountsOf regs) []) req
          else some Response.notFound) ∧
      (registerAll fs regs).findWs req.path = lastWs regs req.path := by
  refine ⟨?_, findWs_registerAll fs regs req.path⟩
  have hroute := lookup_registerAll fs regs req.method req.path
  unfold lookup at hroute
  cases hfirst : firstRoute regs req.method req.path with
  | none => simp only [handleRequest, hroute, hfirst, staticMounts_registerAll]
  | some h => simp only [handleRequest, hroute, hfirst]

end Routes

end WebSocketsLib
