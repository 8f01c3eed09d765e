-- SUMMARY: The service as a function from a store and a request to a response and the store afterwards.
import Guildhall.Service.Plan

/-!
# Responses

`Service.respond` answers one request. A guarded request goes through two steps: it is let in
by the store as its caller's records are loaded, and acted on by the store at that time. Run
to completion on its own, a request sees one store in both steps; `Service.enter` and
`Service.perform` are the steps by themselves, so that other requests can be put between.
-/

namespace Guildhall

/-- What stays the same from request to request. -/
structure Service where
  /-- The secret that tokens are signed with. -/
  secret : String
  limits : Limits
  deriving DecidableEq

/-- What differs from request to request besides the request. -/
structure Moment where
  /-- The time in seconds. -/
  now : Int
  /-- For how many seconds the service has been up. -/
  uptime : Nat
  /-- The id that a role would get if it were created now. -/
  fresh : Id
  deriving DecidableEq

/-- A guarded request whose caller has been let in. -/
structure Entry where
  action : Action
  access : Access
  parameters : Http.Parameters
  deriving DecidableEq

/-- The answer to a request that was not rejected. -/
structure Reply where
  status : Nat
  body : Http.Body
  deriving DecidableEq

/-- The version that the health check reports. -/
def version : String := "0.1.0"

/-- The answer after a write: the record that it left. -/
def Action.reply (action : Action) : Receipt → Reply
  | .role r => ⟨if action = .createRole then 201 else 200, .json (Role.codec.write r)⟩
  | .member m => ⟨200, .json (Member.codec.write m)⟩
  | .channel c => ⟨200, .json (Override.codec.list.write c.overrides)⟩
  | .nothing => ⟨204, .empty⟩

namespace Service

/-! ## The two steps of a guarded request -/

/-- Lets the sender of a request in. -/
def enter (v : Service) (now : Int) (r : Http.Request) (endpoint : Endpoint)
    (ps : Http.Parameters) (action : Action) (s : Store) : Except Rejection Entry := do
  let user ← refusing (authenticate v.secret now r)
  let (access, parameters) ← (endpoint.gate action).letIn ps (some user) s
  return ⟨action, access, parameters⟩

/-- Acts on a request whose sender has been let in. -/
def perform (v : Service) (fresh : Id) (r : Http.Request) (e : Entry) (s : Store) :
    Except Rejection Reply × Store :=
  match e.action.plan v.limits e.access e.parameters r fresh s with
  | .error why => (.error why, s)
  | .ok (.answer body) => (.ok ⟨200, .json body⟩, s)
  | .ok (.commit w) =>
    match s.commit w with
    | .error why => (.error (.refused why), s)
    | .ok (receipt, s) => (.ok (e.action.reply receipt), s)

/-- Answers a guarded request that selects an action. -/
def act (v : Service) (m : Moment) (r : Http.Request) (endpoint : Endpoint)
    (ps : Http.Parameters) (action : Action) (s : Store) : Except Rejection Reply × Store :=
  match v.enter m.now r endpoint ps action s with
  | .error why => (.error why, s)
  | .ok entry => v.perform m.fresh r entry s

/-! ## Responses -/

/-- The response for an outcome. -/
def response : Except Rejection Reply → Http.Response
  | .ok reply => .ofBody reply.status reply.body
  | .error why => .ofBody why.status why.body

/-- What the health check answers. -/
def health (m : Moment) : Http.Response :=
  .ofBody 200 (.json (Json.ofFields
    [("status", .text "healthy"), ("version", .text version), ("uptime_secs", .integer m.uptime)]))

/-- The answer where the endpoint does not know the method. Guarded endpoints only tell so to
callers that are known. -/
def methodNotAllowed (v : Service) (m : Moment) (r : Http.Request) (endpoint : Endpoint) :
    Http.Response :=
  let known : Except Refusal Unit :=
    if endpoint = .health then .ok () else (authenticate v.secret m.now r).map fun _ => ()
  let answer : Http.Response :=
    match known with
    | .ok () => .ofBody 405 .empty
    | .error why => response (.error (.refused why))
  answer.withHeaders [("allow", ",".intercalate endpoint.methods)]

/-- Answers a request, before the headers that all responses share. -/
def route (v : Service) (m : Moment) (r : Http.Request) (s : Store) : Http.Response × Store :=
  match Endpoint.find? r.path with
  | none => (.ofBody 404 .empty, s)
  | some (endpoint, ps) =>
    match endpoint.action? r.method with
    | some action =>
      let (outcome, s) := v.act m r endpoint ps action s
      (response outcome, s)
    | none =>
      if endpoint = .health ∧ Endpoint.handledAs r.method = "GET" then (health m, s)
      else (v.methodNotAllowed m r endpoint, s)

/-- The headers that keep browsers from guessing, framing, leaking and storing. -/
def securityHeaders : List (String × String) :=
  [("x-content-type-options", "nosniff"), ("x-frame-options", "DENY"),
   ("referrer-policy", "no-referrer"), ("cache-control", "no-store")]

/-- The headers by which scripts of any origin may read the response. -/
def originHeaders : List (String × String) :=
  [("vary", "origin, access-control-request-method, access-control-request-headers"),
   ("access-control-allow-origin", "*")]

/-- The answer to every question about what scripts of other origins may do: anything. -/
def preflight : Http.Response :=
  (Http.Response.ofBody 200 .empty).withHeaders
    (originHeaders ++ [("access-control-allow-methods", "*"), ("access-control-allow-headers", "*")])

/-- Answers one request, with the store afterwards. -/
def respond (v : Service) (m : Moment) (r : Http.Request) (s : Store) : Http.Response × Store :=
  if r.method = "OPTIONS" then (preflight, s)
  else
    let (answer, s) := v.route m r s
    let answer := answer.withHeaders (securityHeaders ++ originHeaders)
    (if r.method = "HEAD" then { answer with body := .empty } else answer, s)

/-- The store after a list of requests, each run to completion before the next. -/
def after (v : Service) (s : Store) (requests : List (Moment × Http.Request)) : Store :=
  requests.foldl (fun s (m, r) => (v.respond m r s).2) s

end Service

end Guildhall
