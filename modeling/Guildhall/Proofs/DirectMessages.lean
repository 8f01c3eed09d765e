-- SUMMARY: Direct messages rest on their own record: standing in them, answers about them, and what runs leave of them.
import Guildhall.Proofs.Isolation

/-!
# Direct messages

A direct message belongs to its recipients and to no server, whatever its record says besides. Who
stands where in it follows from the record alone (`Store.loadChannelAccess_dm`), and with it the
answer to every request that names it (`Service.respond_dm`). No request can replace its overrides,
as no recipient may manage it, and only where the record names a server, overrides drop out with the
roles and members of that server (`Service.after_dm`).
-/

namespace Guildhall

/-! ## Standing -/

namespace Access

variable {d : Channel} {user : Id}

theorem effective_dm (hd : d.isDm = true) (hr : d.isRecipient user = true) :
    (Access.mk user (.dm d)).effective = .ok .dm := by
  simp [effective, resolveDm, hd, hr]

theorem require_dm (hd : d.isDm = true) (hr : d.isRecipient user = true) (p : Permission) :
    (Access.mk user (.dm d)).require (some p) =
      if p ∈ PermissionSet.dm then .ok () else .error (.permissionDenied p) := by
  by_cases hp : p ∈ PermissionSet.dm
  · simp [require, decide, authorizeDm, resolveDm, hd, hr, hp]
  · simp [require, decide, authorizeDm, resolveDm, hd, hr, hp, refusal]

end Access

/-- Standing in a direct message rests on its record alone. -/
theorem Store.loadChannelAccess_dm {s : Store} {d : Channel} (hs : s.findChannel d.id = some d)
    (hd : d.isDm = true) (user : Id) (routeServer : Option Id) :
    s.loadChannelAccess user d.id routeServer =
      if routeServer.isSome then
        .error (.badRequest "Direct message channels do not belong to a server")
      else if d.isRecipient user then .ok ⟨user, .dm d⟩ else .error .notAMember := by
  cases hr : d.isRecipient user with
  | true => simp [loadChannelAccess, hs, hd, hr]
  | false => simp [loadChannelAccess, hs, hd, hr]

/-! ## Names in paths -/

namespace Http

/-- The name of a parameter. -/
def Segment.name? : Segment → Option String
  | .fixed _ => none
  | .parameter name => some name

/-- A path that matches a pattern has the parameters of the pattern. -/
theorem names_of_matchSegments {pattern : List Segment} {segments : List String} {ps : Parameters}
    (h : matchSegments pattern segments = some ps) :
    ps.map Prod.fst = pattern.filterMap Segment.name? := by
  induction pattern generalizing segments ps with
  | nil =>
    cases segments with
    | nil =>
      cases h
      rfl
    | cons => cases h
  | cons segment pattern ih =>
    cases segments with
    | nil => cases segment <;> cases h
    | cons text segments =>
      cases segment with
      | fixed spelled =>
        simp only [matchSegments] at h
        split at h
        · exact ih h
        · cases h
      | parameter name =>
        simp only [matchSegments] at h
        split at h
        · cases h
        · obtain ⟨rest, hrest, rfl⟩ := Option.map_eq_some_iff.1 h
          simp [Segment.name?, ih hrest]

theorem names_of_decodeParameters? {ps decoded : Parameters}
    (h : decodeParameters? ps = some decoded) : decoded.map Prod.fst = ps.map Prod.fst := by
  unfold decodeParameters? at h
  induction ps generalizing decoded with
  | nil =>
    cases h
    rfl
  | cons p ps ih =>
    simp only [List.mapM_cons, Option.bind_eq_bind, Option.bind_eq_some_iff, Option.map_eq_some_iff,
      Option.pure_def, Option.some.injEq] at h
    obtain ⟨_, ⟨text, -, rfl⟩, rest, hrest, rfl⟩ := h
    simp [ih hrest]

theorem parameter?_eq_none {ps : Parameters} {name : String} :
    parameter? ps name = none ↔ name ∉ ps.map Prod.fst := by
  simp only [parameter?, Option.map_eq_none_iff, List.find?_eq_none, beq_iff_eq, List.mem_map,
    not_exists, not_and]

end Http

/-- The parameters at an endpoint are those of its pattern. -/
theorem Endpoint.names_of_find? {path : List Char} {e : Endpoint} {ps : Http.Parameters}
    (h : Endpoint.find? path = some (e, ps)) :
    ps.map Prod.fst = e.segments.filterMap Http.Segment.name? := by
  obtain ⟨e', -, hmatch⟩ := List.exists_of_findSome?_eq_some h
  obtain ⟨ps', hps, heq⟩ := Option.map_eq_some_iff.1 hmatch
  cases heq
  obtain ⟨segments, -, hsegments⟩ := Option.bind_eq_some_iff.1 hps
  rw [Http.names_of_matchSegments hsegments]
  rfl

/-- Whether a request asks for an action at an endpoint of channels, its path naming a channel. -/
structure Http.Request.AsksIn (r : Http.Request) (endpoint : Endpoint) (action : Action)
    (channel : Id) (ps : Http.Parameters) : Prop where
  kind : endpoint.scopeKind = .channel
  path : ∃ spelled, Endpoint.find? r.path = some (endpoint, spelled) ∧
    Http.decodeParameters? spelled = some ps
  method : endpoint.action? r.method = some action
  named : NamedBy ps (.channel, channel)

/-- The path has a server just at the endpoint that is for channels of a server. -/
theorem Http.Request.AsksIn.server_iff {r : Http.Request} {endpoint : Endpoint} {action : Action}
    {channel : Id} {ps : Http.Parameters} (h : r.AsksIn endpoint action channel ps) :
    Http.parameter? ps "server_id" = none ↔ endpoint ≠ .serverChannelOverrides := by
  obtain ⟨spelled, hf, hd⟩ := h.path
  rw [Http.parameter?_eq_none, Http.names_of_decodeParameters? hd, Endpoint.names_of_find? hf]
  have hkind := h.kind
  cases endpoint with
  | channelPermissions | channelOverrides | serverChannelOverrides => decide
  | health | serverPermissions | roles | role | rolePosition | memberRole | member => cases hkind

/-! ## Gates -/

namespace Gate

variable {g : Gate} {ps : Http.Parameters} {s s₁ s₂ : Store} {d : Channel} {user : Id}

theorem load_dm (hk : g.kind = .channel) (hn : NamedBy ps (.channel, d.id))
    (hs : s.findChannel d.id = some d) (hd : d.isDm = true) :
    g.load ps user s = (do
      let routeServer ← pathId ps "server_id"
      if routeServer.isSome then
        .error (.badRequest "Direct message channels do not belong to a server")
      else if d.isRecipient user then .ok ⟨user, .dm d⟩ else .error .notAMember) := by
  have hchannel : neededPathId ps "channel_id" = .ok d.id := neededPathId_eq_ok.2 hn
  simp only [load, hk, hchannel, bind, Except.bind, Store.loadChannelAccess_dm hs hd]

/-- Who has a standing in a direct message acts in it alone. -/
theorem scope_of_load_dm {a : Access} (hk : g.kind = .channel) (hn : NamedBy ps (.channel, d.id))
    (hs : s.findChannel d.id = some d) (hd : d.isDm = true) (h : g.load ps user s = .ok a) :
    a.scope = .dm d := by
  rw [load_dm hk hn hs hd, bind_eq_ok] at h
  obtain ⟨routeServer, -, haccess⟩ := h
  split at haccess
  · cases haccess
  · split at haccess
    · cases haccess
      rfl
    · cases haccess

/-- With a server in its path, nobody is let in to a direct message. -/
theorem enter_dm_of_server (hk : g.kind = .channel) (hn : NamedBy ps (.channel, d.id))
    (hs : s.findChannel d.id = some d) (hd : d.isDm = true)
    (hserver : Http.parameter? ps "server_id" ≠ none) :
    ∃ message, g.enter ps (some user) s = .error (.badRequest message) := by
  obtain ⟨value, hvalue⟩ := Option.ne_none_iff_exists'.1 hserver
  simp only [enter, load_dm hk hn hs hd, pathId, hvalue]
  cases hid : Id.ofString? value with
  | none => exact ⟨_, rfl⟩
  | some id => exact ⟨_, rfl⟩

theorem enter_dm_of_stranger (hk : g.kind = .channel) (hn : NamedBy ps (.channel, d.id))
    (hs : s.findChannel d.id = some d) (hd : d.isDm = true)
    (hserver : Http.parameter? ps "server_id" = none) (hr : d.isRecipient user = false) :
    g.enter ps (some user) s = .error .notAMember := by
  simp only [enter, load_dm hk hn hs hd, pathId, hserver, hr]
  rfl

theorem load_dm_of_recipient (hk : g.kind = .channel) (hn : NamedBy ps (.channel, d.id))
    (hs : s.findChannel d.id = some d) (hd : d.isDm = true)
    (hserver : Http.parameter? ps "server_id" = none) (hr : d.isRecipient user = true) :
    g.load ps user s = .ok ⟨user, .dm d⟩ := by
  simp only [load_dm hk hn hs hd, pathId, hserver, hr]
  rfl

/-- Recipients are let in, as far as direct messages grant what the gate asks for. -/
theorem enter_dm_of_recipient (hk : g.kind = .channel) (hn : NamedBy ps (.channel, d.id))
    (hs : s.findChannel d.id = some d) (hd : d.isDm = true)
    (hserver : Http.parameter? ps "server_id" = none) (hr : d.isRecipient user = true) :
    g.enter ps (some user) s =
      match g.permission with
      | none => .ok ⟨user, .dm d⟩
      | some p =>
        if p ∈ PermissionSet.dm then .ok ⟨user, .dm d⟩ else .error (.permissionDenied p) := by
  simp only [enter, load_dm_of_recipient hk hn hs hd hserver hr]
  cases g.permission with
  | none => rfl
  | some p =>
    simp only [bind, Except.bind, Access.require_dm hd hr]
    by_cases hp : p ∈ PermissionSet.dm
    · simp [hp, pure, Except.pure]
    · simp [hp]

end Gate

/-! ## Writes -/

/-- Nobody is entitled to replace the overrides of a direct message. -/
theorem Store.Entitles.ne_replaceOverrides {s : Store} {limits : Limits} {fresh user : Id}
    {w : Write} {c : Channel} (hw : s.Entitles limits fresh user w) (hc : s.findChannel c.id = some c)
    (hd : c.isDm = true) (overrides : List Override) : w ≠ .replaceOverrides c.id overrides := by
  intro h
  cases hw with
  | inServer member permitted warranted =>
    rw [h] at warranted
    cases warranted
  | @inChannel m c' ds overrides' channel text server member permitted normal keeps =>
    injection h with hid
    rw [hid, hc] at channel
    cases channel
    rw [hd] at text
    cases text

/-! ## An example -/

namespace Example

/-- A direct message between the manager and the newcomer. Its record names server 1, bars the
manager from everything and grants the owner of the server everything. -/
def chat : Channel :=
  ⟨70, some 1, .dm, none, [7, 8], [⟨.member 7, ∅, .full⟩, ⟨.member 9, .full, ∅⟩]⟩

def chatting : Store := store.insertChannel chat

/-- The manager asks what they may do there. -/
def chatInquiry : Http.Request := request "GET" ["channels", (70 : Id).text, "permissions", "me"]

end Example

/-! ## Responses -/

namespace Service

open Store

variable {v : Service} {t : Moment} {r : Http.Request} {s s₁ s₂ : Store} {d : Channel} {user : Id}
  {endpoint : Endpoint} {spelled ps : Http.Parameters} {action : Action}

/-- What recipients of a direct message are told about their permissions. -/
def dmPermissions (d : Channel) : Json :=
  Json.ofFields
    [("server_id", .null), ("channel_id", Id.codec.write d.id), ("is_owner", .bool false),
     ("permissions", PermissionSet.codec.write .dm)]

/-- The response that refuses a request. -/
def refused (r : Http.Request) (why : Refusal) : Http.Response :=
  sent r (response (.error (.refused why)))

/-- Who is let in to a direct message, and as what, rests on its record. -/
theorem enter_dm_congr {now : Int} (h₁ : s₁.findChannel d.id = some d)
    (h₂ : s₂.findChannel d.id = some d) (hd : d.isDm = true) (hr : r.Addresses (.channel, d.id))
    (hf : Endpoint.find? r.path = some (endpoint, spelled)) :
    v.enter now r endpoint spelled action s₁ = v.enter now r endpoint spelled action s₂ := by
  apply enter_congr_of_load
  intro decoded user hdecoded
  obtain ⟨hk, hn⟩ := hr.named hf hdecoded
  rw [Gate.load_dm hk hn h₁ hd, Gate.load_dm hk hn h₂ hd]

/-- In a direct message nothing that is planned rests on the store, and no write is. -/
theorem perform_dm {entry : Entry} {fresh : Id}
    (ha : entry.action = .showPermissions ∨ entry.action = .listOverrides ∨
      entry.action = .replaceOverrides)
    (hs : entry.access.scope = .dm d) :
    (v.perform fresh r entry s₁).1 = (v.perform fresh r entry s₂).1 ∧
      (v.perform fresh r entry s₁).2 = s₁ := by
  have hplan : entry.action.plan v.limits entry.access entry.parameters r fresh s₁ =
      entry.action.plan v.limits entry.access entry.parameters r fresh s₂ := by
    rcases ha with hact | hact | hact
    · rw [hact]
      rfl
    · rw [hact]
      rfl
    · simp only [hact, Action.plan, planOverrides, hs]
  cases hp : entry.action.plan v.limits entry.access entry.parameters r fresh s₁ with
  | error why =>
    simp only [perform, ← hplan, hp]
    exact ⟨trivial, trivial⟩
  | ok plan =>
    cases plan with
    | answer body =>
      rw [perform_of_answer hp, perform_of_answer (hplan.symm.trans hp)]
      exact ⟨rfl, rfl⟩
    | commit w => exact absurd hp (Action.not_commit_of_dm ha hs)

/-- A request about a direct message is answered by its record, and changes nothing. -/
theorem respond_dm (h₁ : s₁.findChannel d.id = some d) (h₂ : s₂.findChannel d.id = some d)
    (hd : d.isDm = true) (hr : r.Addresses (.channel, d.id)) :
    (v.respond t r s₁).1 = (v.respond t r s₂).1 ∧ (v.respond t r s₁).2 = s₁ := by
  obtain ⟨answer, hinert⟩ | ⟨endpoint, spelled, action, hf, ha⟩ := v.respond_inert_or_acts t r
  · rw [hinert, hinert]
    exact ⟨rfl, rfl⟩
  · have henter : v.enter t.now r endpoint spelled action s₁ =
        v.enter t.now r endpoint spelled action s₂ := enter_dm_congr h₁ h₂ hd hr hf
    rw [respond_of_action hf ha, respond_of_action hf ha]
    cases he : v.enter t.now r endpoint spelled action s₁ with
    | error why =>
      simp only [act, ← henter, he]
      exact ⟨trivial, trivial⟩
    | ok entry =>
      rw [act_of_enter he, act_of_enter (henter.symm.trans he)]
      obtain ⟨user, -, rfl, hdecoded, hload, -⟩ := enter_eq_ok he
      obtain ⟨hk, hn⟩ := hr.named hf hdecoded
      have hscope : entry.access.scope = .dm d := Gate.scope_of_load_dm hk hn h₁ hd hload
      have hperform : (v.perform t.fresh r entry s₁).1 = (v.perform t.fresh r entry s₂).1 ∧
          (v.perform t.fresh r entry s₁).2 = s₁ :=
        perform_dm (Endpoint.action_of_channel hk ha) hscope
      exact ⟨by rw [hperform.1], hperform.2⟩

/-- Whom the gate refuses is told why. -/
theorem respond_of_refusal {why : Refusal} (hauth : authenticate v.secret t.now r = .ok user)
    (hr : r.AsksIn endpoint action d.id ps)
    (h : (endpoint.gate action).enter ps (some user) s = .error why) :
    v.respond t r s = (refused r why, s) := by
  obtain ⟨spelled, hf, hdecoded⟩ := hr.path
  have henter : v.enter t.now r endpoint spelled action s = .error (.refused why) := by
    simp [enter, hauth, Gate.letIn, hdecoded, h, refusing, Except.mapError, bind, Except.bind]
  rw [respond_of_action hf hr.method, act, henter]
  rfl

theorem respond_of_server (hs : s.findChannel d.id = some d) (hd : d.isDm = true)
    (hauth : authenticate v.secret t.now r = .ok user) (hr : r.AsksIn endpoint action d.id ps)
    (hserver : endpoint = .serverChannelOverrides) :
    ∃ message, v.respond t r s = (refused r (.badRequest message), s) := by
  have hnamed : Http.parameter? ps "server_id" ≠ none :=
    fun hnone => hr.server_iff.1 hnone hserver
  have hrefused : ∃ message, (endpoint.gate action).enter ps (some user) s =
      .error (.badRequest message) := Gate.enter_dm_of_server hr.kind hr.named hs hd hnamed
  obtain ⟨message, henter⟩ := hrefused
  exact ⟨message, respond_of_refusal hauth hr henter⟩

theorem respond_of_stranger (hs : s.findChannel d.id = some d) (hd : d.isDm = true)
    (hauth : authenticate v.secret t.now r = .ok user) (hr : r.AsksIn endpoint action d.id ps)
    (hserver : endpoint ≠ .serverChannelOverrides) (hno : d.isRecipient user = false) :
    v.respond t r s = (refused r .notAMember, s) := by
  apply respond_of_refusal hauth hr
  exact Gate.enter_dm_of_stranger hr.kind hr.named hs hd (hr.server_iff.2 hserver) hno

theorem respond_of_unpermitted {p : Permission} (hs : s.findChannel d.id = some d)
    (hd : d.isDm = true) (hauth : authenticate v.secret t.now r = .ok user)
    (hr : r.AsksIn endpoint action d.id ps) (hserver : endpoint ≠ .serverChannelOverrides)
    (hmember : d.isRecipient user = true) (hp : action.permission = some p)
    (hnot : p ∉ PermissionSet.dm) :
    v.respond t r s = (refused r (.permissionDenied p), s) := by
  apply respond_of_refusal hauth hr
  rw [Gate.enter_dm_of_recipient hr.kind hr.named hs hd (hr.server_iff.2 hserver) hmember]
  simp only [Endpoint.gate, hp, if_neg hnot]

/-- Recipients are told that they have what all direct messages grant. -/
theorem respond_of_recipient (hs : s.findChannel d.id = some d) (hd : d.isDm = true)
    (hauth : authenticate v.secret t.now r = .ok user)
    (hr : r.AsksIn .channelPermissions action d.id ps) (hmember : d.isRecipient user = true) :
    v.respond t r s = (sent r (response (.ok ⟨200, .json (dmPermissions d)⟩)), s) := by
  obtain rfl : action = .showPermissions := by
    obtain ⟨named, hfind, rfl⟩ := Option.map_eq_some_iff.1 hr.method
    have hmem := List.mem_of_find?_eq_some hfind
    rw [Endpoint.actions, List.mem_singleton] at hmem
    rw [hmem]
  obtain ⟨spelled, hf, hdecoded⟩ := hr.path
  have hserver : Http.parameter? ps "server_id" = none := hr.server_iff.2 (by decide)
  have henter : (Endpoint.channelPermissions.gate .showPermissions).enter ps (some user) s =
      .ok ⟨user, .dm d⟩ := Gate.enter_dm_of_recipient rfl hr.named hs hd hserver hmember
  have hlet : (Endpoint.channelPermissions.gate .showPermissions).letIn spelled (some user) s =
      .ok (⟨user, .dm d⟩, ps) := by
    simp only [Gate.letIn, hdecoded, henter]
    rfl
  have hplan : Action.plan .showPermissions v.limits ⟨user, .dm d⟩ ps r t.fresh s =
      .ok (.answer (dmPermissions d)) := by
    simp only [Action.plan, answerPermissions, Access.effective_dm hd hmember]
    rfl
  rw [respond_of_action hf hr.method, act_of_enter (enter_of_letIn hauth hlet),
    perform_of_answer hplan]

/-! ## Runs -/

/-- Whatever requests are made, a direct message keeps all but overrides that drop out, and these
too if it names no server. -/
theorem after_dm (v : Service) (requests : List (Moment × Http.Request))
    (h : s.findChannel d.id = some d) (hd : d.isDm = true) :
    ∃ c, (v.after s requests).findChannel d.id = some c ∧
      c = { d with overrides := c.overrides } ∧ c.overrides.Sublist d.overrides ∧
      (d.server = none → c = d) := by
  refine after_keeps (I := fun s' => ∃ c, s'.findChannel d.id = some c ∧
    c = { d with overrides := c.overrides } ∧ c.overrides.Sublist d.overrides ∧
    (d.server = none → c = d)) (sentBy_anyone v requests) ?_ ⟨d, h, rfl, .refl _, fun _ => rfl⟩
  intro s₁ s₂ sender fresh w hkept _ hw _ hf
  obtain ⟨c, hc, hrecord, hsub, hsame⟩ := hkept
  have hcid : c.id = d.id := by rw [hrecord]
  have hcdm : c.isDm = true := by
    rw [hrecord]
    exact hd
  have hcserver : c.server = d.server := by rw [hrecord]
  have hne : ∀ overrides, w ≠ .replaceOverrides c.id overrides :=
    hw.ne_replaceOverrides (hcid ▸ hc) hcdm
  refine ⟨w.onChannel c, hf.findChannel_of_findChannel hc, ?_, ?_, ?_⟩
  · rw [Write.onChannel_eq, hrecord]
  · obtain hdropped | ⟨overrides, heq, -⟩ := w.overrides_onChannel_cases c
    · exact hdropped.trans hsub
    · exact absurd heq (hne overrides)
  · intro hserver
    rw [Write.onChannel_of_server_eq_none (hcserver.trans hserver) hne, hsame hserver]

/-- Direct messages are isolated. Two stores that have the same record of one answer every request
about it alike. On its routes recipients have just what all direct messages grant, and no gate lets
them in for anything else, all others are told that they are no members, and with a server in the
path everybody that the request is a bad one. No run of requests changes its recipients, nor
anything of its record if it names no server. -/
theorem dm_isolated (hd : d.isDm = true) :
    (∀ (v : Service) (t : Moment) (r : Http.Request) (s₁ s₂ : Store),
      s₁.findChannel d.id = some d → s₂.findChannel d.id = some d → r.Addresses (.channel, d.id) →
      (v.respond t r s₁).1 = (v.respond t r s₂).1) ∧
    (∀ (s : Store) (user : Id) (g : Gate) (ps : Http.Parameters), s.findChannel d.id = some d →
      g.kind = .channel → NamedBy ps (.channel, d.id) →
      (Http.parameter? ps "server_id" ≠ none →
        ∃ message, g.enter ps (some user) s = .error (.badRequest message)) ∧
      (Http.parameter? ps "server_id" = none →
        (d.isRecipient user = false → g.enter ps (some user) s = .error .notAMember) ∧
        (d.isRecipient user = true → ∃ a, g.load ps user s = .ok a ∧ a.effective = .ok .dm ∧
          ∀ p, g.permission = some p → g.enter ps (some user) s =
            if p ∈ PermissionSet.dm then .ok a else .error (.permissionDenied p)))) ∧
    (∀ (v : Service) (t : Moment) (r : Http.Request) (s : Store) (user : Id) (endpoint : Endpoint)
        (action : Action) (ps : Http.Parameters), s.findChannel d.id = some d →
      authenticate v.secret t.now r = .ok user → r.AsksIn endpoint action d.id ps →
      (endpoint = .serverChannelOverrides →
        ∃ message, v.respond t r s = (refused r (.badRequest message), s)) ∧
      (endpoint ≠ .serverChannelOverrides → d.isRecipient user = false →
        v.respond t r s = (refused r .notAMember, s)) ∧
      (endpoint ≠ .serverChannelOverrides → d.isRecipient user = true →
        ∀ p, action.permission = some p → p ∉ PermissionSet.dm →
          v.respond t r s = (refused r (.permissionDenied p), s)) ∧
      (endpoint = .channelPermissions → d.isRecipient user = true →
        v.respond t r s = (sent r (response (.ok ⟨200, .json (dmPermissions d)⟩)), s))) ∧
    ∀ (v : Service) (s : Store) (requests : List (Moment × Http.Request)),
      s.findChannel d.id = some d →
      ∃ c, (v.after s requests).findChannel d.id = some c ∧ c.recipients = d.recipients ∧
        (d.server = none → c = d) := by
  refine ⟨?_, ?_, ?_, ?_⟩
  · intro v t r s₁ s₂ h₁ h₂ hr
    exact (respond_dm h₁ h₂ hd hr).1
  · intro s user g ps hs hk hn
    refine ⟨Gate.enter_dm_of_server hk hn hs hd, ?_⟩
    intro hserver
    refine ⟨Gate.enter_dm_of_stranger hk hn hs hd hserver, ?_⟩
    intro hmember
    refine ⟨_, Gate.load_dm_of_recipient hk hn hs hd hserver hmember,
      Access.effective_dm hd hmember, ?_⟩
    intro p hp
    rw [Gate.enter_dm_of_recipient hk hn hs hd hserver hmember, hp]
  · intro v t r s user endpoint action ps hs hauth hr
    refine ⟨?_, ?_, ?_, ?_⟩
    · intro hserver
      exact respond_of_server hs hd hauth hr hserver
    · intro hserver hno
      exact respond_of_stranger hs hd hauth hr hserver hno
    · intro hserver hmember p hp hnot
      exact respond_of_unpermitted hs hd hauth hr hserver hmember hp hnot
    · intro hpermissions hmember
      subst hpermissions
      exact respond_of_recipient hs hd hauth hr hmember
  · intro v s requests hs
    obtain ⟨c, hc, hrecord, -, hsame⟩ := after_dm v requests hs hd
    exact ⟨c, hc, by rw [hrecord], hsame⟩

/-- The barred recipient is told what they may do, and the run leaves the recipients. -/
theorem dm_isolated_chat :
    (Example.service.respond Example.moment Example.chatInquiry Example.chatting).1 =
        (Example.service.respond Example.moment Example.chatInquiry
          (Example.crowded.insertChannel Example.chat)).1 ∧
      (∃ a, (Gate.mk .channel (some .banMembers)).load [("channel_id", (70 : Id).text)] 7
        Example.chatting = .ok a ∧ a.effective = .ok .dm) ∧
      Example.service.respond Example.moment Example.chatInquiry Example.chatting =
        (sent Example.chatInquiry (response (.ok ⟨200, .json (dmPermissions Example.chat)⟩)),
          Example.chatting) ∧
      ∃ c, (Example.service.after Example.chatting Example.run).findChannel 70 = some c ∧
        c.recipients = [7, 8] := by
  have hfound : Example.chatting.findChannel 70 = some Example.chat := by decide +kernel
  have hfound' : (Example.crowded.insertChannel Example.chat).findChannel 70 =
      some Example.chat := by decide +kernel
  have hpath : Endpoint.find? Example.chatInquiry.path =
      some (.channelPermissions, [("channel_id", (70 : Id).text)]) := by decide +kernel
  have hnamed : NamedBy [("channel_id", (70 : Id).text)] (.channel, 70) := by
    rw [NamedBy]
    decide +kernel
  have haddresses : Example.chatInquiry.Addresses (.channel, 70) :=
    ⟨_, _, hpath, rfl, by decide +kernel⟩
  have hasks : Example.chatInquiry.AsksIn .channelPermissions .showPermissions 70
      [("channel_id", (70 : Id).text)] :=
    ⟨rfl, ⟨_, hpath, by decide +kernel⟩, rfl, hnamed⟩
  have hauth : authenticate Example.service.secret Example.moment.now Example.chatInquiry = .ok 7 :=
    Example.authenticate_request _ _
  obtain ⟨htwo, hgates, hanswers, hruns⟩ := dm_isolated (d := Example.chat) rfl
  have hshown := (hanswers Example.service Example.moment Example.chatInquiry Example.chatting 7
    .channelPermissions .showPermissions [("channel_id", (70 : Id).text)] hfound hauth hasks).2.2.2
  obtain ⟨a, hload, heffective, -⟩ := ((hgates Example.chatting 7 ⟨.channel, some .banMembers⟩
    [("channel_id", (70 : Id).text)] hfound rfl hnamed).2 (by decide)).2 (by decide)
  obtain ⟨c, hc, hrecipients, -⟩ := hruns Example.service Example.chatting Example.run hfound
  have hsame := htwo Example.service Example.moment Example.chatInquiry Example.chatting
    (Example.crowded.insertChannel Example.chat) hfound hfound' haddresses
  exact ⟨hsame, ⟨a, hload, heffective⟩, hshown rfl (by decide), c, hc, hrecipients⟩

end Service

end Guildhall
