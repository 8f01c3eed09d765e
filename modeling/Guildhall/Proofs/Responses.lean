-- SUMMARY: Which requests act on the store, and what a response is made of.
import Guildhall.Service.Respond

/-!
# Responses to requests that act

Only a request whose path and method select an action can touch the store; all others are answered
in a way that does not depend on it (`Service.respond_inert_or_acts`). An action leaves the store
as it was, or commits the one write that it has planned (`Service.act_cases`).
-/

namespace Guildhall

/-- Whether the path and the method of a request select an action. -/
def Http.Request.Selects (r : Http.Request) (action : Action) : Prop :=
  ∃ endpoint spelled, Endpoint.find? r.path = some (endpoint, spelled) ∧
    endpoint.action? r.method = some action

/-- Whether a response is a refusal with a status and an error code. -/
def Http.Response.Refuses (r : Http.Response) (status : Nat) (code : String) : Prop :=
  r.status = status ∧ ∃ message : String, r.body = .json (Json.ofFields
    [("code", .integer status), ("error", .text code), ("message", .text message)])

namespace Service

variable {v : Service} {t : Moment} {r : Http.Request} {s : Store} {endpoint : Endpoint}
  {ps : Http.Parameters} {action : Action}

/-- A response as it is sent: with the headers that all responses share, and to `HEAD` without a
body. -/
def sent (r : Http.Request) (answer : Http.Response) : Http.Response :=
  let answer := answer.withHeaders (securityHeaders ++ originHeaders)
  if r.method = "HEAD" then { answer with body := .empty } else answer

@[simp] theorem status_sent (r : Http.Request) (answer : Http.Response) :
    (sent r answer).status = answer.status := by
  unfold sent
  split <;> rfl

theorem sent_of_ne_head (h : r.method ≠ "HEAD") (answer : Http.Response) :
    sent r answer = answer.withHeaders (securityHeaders ++ originHeaders) := by
  simp only [sent, if_neg h]

/-- A rejection is sent with the status and the code of its cause. -/
theorem refuses_sent_error {why : Rejection} {status : Nat} {code : String} (hm : r.method ≠ "HEAD") :
    (sent r (response (.error why))).Refuses status code ↔
      ∃ refusal, why = .refused refusal ∧ refusal.status = status ∧ refusal.code = code := by
  rw [sent_of_ne_head hm]
  cases why with
  | refused refusal =>
    simp only [Http.Response.Refuses, response, Http.Response.ofBody, Http.Response.withHeaders,
      Rejection.status, Rejection.body, Refusal.body, Http.Body.json.injEq, Json.ofFields,
      Json.Fields.ofList, Json.text, Json.object.injEq, Json.Fields.cons.injEq, Json.integer.injEq,
      Json.string.injEq, Option.some.injEq, Rejection.refused.injEq, exists_eq_left', true_and,
      and_true]
    constructor
    · rintro ⟨rfl, message, -, rfl, -⟩
      exact ⟨rfl, rfl⟩
    · rintro ⟨rfl, rfl⟩
      exact ⟨rfl, _, rfl, rfl, rfl⟩
  | unreadableBody fault =>
    cases fault <;>
      simp [Http.Response.Refuses, response, Http.Response.ofBody, Http.Response.withHeaders,
        Rejection.body]
  | unreadablePath | notJson | bodyTooLarge =>
    simp [Http.Response.Refuses, response, Http.Response.ofBody, Http.Response.withHeaders,
      Rejection.body]

/-- No endpoint has an action for `OPTIONS`. -/
theorem ne_options_of_action (h : endpoint.action? r.method = some action) :
    r.method ≠ "OPTIONS" := by
  intro ho
  rw [ho] at h
  cases endpoint <;> cases h

/-- A request that selects an action is answered by it. -/
theorem respond_of_action (hf : Endpoint.find? r.path = some (endpoint, ps))
    (ha : endpoint.action? r.method = some action) :
    v.respond t r s =
      (sent r (response (v.act t r endpoint ps action s).1), (v.act t r endpoint ps action s).2) := by
  simp only [respond, if_neg (ne_options_of_action ha), route, hf, ha]
  rfl

/-- A request acts, or its answer neither depends on the store nor changes it. -/
theorem respond_inert_or_acts (v : Service) (t : Moment) (r : Http.Request) :
    (∃ answer, ∀ s, v.respond t r s = (answer, s)) ∨
      ∃ endpoint ps action, Endpoint.find? r.path = some (endpoint, ps) ∧
        endpoint.action? r.method = some action := by
  by_cases ho : r.method = "OPTIONS"
  · exact .inl ⟨preflight, fun s => by simp [respond, ho]⟩
  cases hf : Endpoint.find? r.path with
  | none =>
    refine .inl ⟨sent r (.ofBody 404 .empty), fun s => ?_⟩
    simp only [respond, if_neg ho, route, hf]
    rfl
  | some found =>
    obtain ⟨endpoint, ps⟩ := found
    cases ha : endpoint.action? r.method with
    | some action => exact .inr ⟨endpoint, ps, action, rfl, ha⟩
    | none =>
      by_cases hh : endpoint = .health ∧ Endpoint.handledAs r.method = "GET"
      · refine .inl ⟨sent r (health t), fun s => ?_⟩
        simp only [respond, if_neg ho, route, hf, ha, if_pos hh]
        rfl
      · refine .inl ⟨sent r (v.methodNotAllowed t r endpoint), fun s => ?_⟩
        simp only [respond, if_neg ho, route, hf, ha, if_neg hh]
        rfl

/-! ## Actions -/

/-- Whose sender is let in is acted on. -/
theorem act_of_enter {entry : Entry} (h : v.enter t.now r endpoint ps action s = .ok entry) :
    v.act t r endpoint ps action s = v.perform t.fresh r entry s := by
  simp only [act, h]

section

variable {entry : Entry} {fresh : Id}

theorem perform_of_answer {body : Json}
    (h : entry.action.plan v.limits entry.access entry.parameters r fresh s = .ok (.answer body)) :
    v.perform fresh r entry s = (.ok ⟨200, .json body⟩, s) := by
  simp only [perform, h]

theorem perform_of_commit {w : Write} {receipt : Receipt} {s' : Store}
    (h : entry.action.plan v.limits entry.access entry.parameters r fresh s = .ok (.commit w))
    (hc : s.commit w = .ok (receipt, s')) :
    v.perform fresh r entry s = (.ok (entry.action.reply receipt), s') := by
  simp only [perform, h, hc]

end

/-- An action is rejected, answers without a write, or commits the write that it has planned. -/
theorem act_outcomes (v : Service) (t : Moment) (r : Http.Request) (endpoint : Endpoint)
    (ps : Http.Parameters) (action : Action) (s : Store) :
    (∃ why, v.act t r endpoint ps action s = (.error why, s)) ∨
      ∃ entry, v.enter t.now r endpoint ps action s = .ok entry ∧
        ((∃ body, entry.action.plan v.limits entry.access entry.parameters r t.fresh s =
              .ok (.answer body) ∧
            v.act t r endpoint ps action s = (.ok ⟨200, .json body⟩, s)) ∨
          ∃ w receipt s', entry.action.plan v.limits entry.access entry.parameters r t.fresh s =
              .ok (.commit w) ∧
            s.commit w = .ok (receipt, s') ∧
            v.act t r endpoint ps action s = (.ok (entry.action.reply receipt), s')) := by
  cases he : v.enter t.now r endpoint ps action s with
  | error why => exact .inl ⟨why, by simp only [act, he]⟩
  | ok entry =>
    rw [act_of_enter he]
    cases hp : entry.action.plan v.limits entry.access entry.parameters r t.fresh s with
    | error why => exact .inl ⟨why, by simp only [perform, hp]⟩
    | ok plan =>
      cases plan with
      | answer body => exact .inr ⟨entry, rfl, .inl ⟨body, hp, perform_of_answer hp⟩⟩
      | commit w =>
        cases hc : s.commit w with
        | error why => exact .inl ⟨.refused why, by simp only [perform, hp, hc]⟩
        | ok done =>
          exact .inr ⟨entry, rfl, .inr ⟨w, done.1, done.2, hp, hc, perform_of_commit hp hc⟩⟩

/-- An action leaves the store as it was, or commits the write that it has planned. -/
theorem act_cases (v : Service) (t : Moment) (r : Http.Request) (endpoint : Endpoint)
    (ps : Http.Parameters) (action : Action) (s : Store) :
    (v.act t r endpoint ps action s).2 = s ∨
      ∃ entry w receipt s', v.enter t.now r endpoint ps action s = .ok entry ∧
        entry.action.plan v.limits entry.access entry.parameters r t.fresh s = .ok (.commit w) ∧
        s.commit w = .ok (receipt, s') ∧
        v.act t r endpoint ps action s = (.ok (entry.action.reply receipt), s') := by
  obtain ⟨why, hact⟩ | ⟨entry, he, ⟨body, -, hact⟩ | ⟨w, receipt, s', hp, hc, hact⟩⟩ :=
    v.act_outcomes t r endpoint ps action s
  · exact .inl (by rw [hact])
  · exact .inl (by rw [hact])
  · exact .inr ⟨entry, w, receipt, s', he, hp, hc, hact⟩

theorem after_singleton (v : Service) (t : Moment) (r : Http.Request) (s : Store) :
    v.after s [(t, r)] = (v.respond t r s).2 := rfl

end Service

end Guildhall
