-- SUMMARY: A list of overrides that is read from a channel and sent back as it is changes nothing.
import Guildhall.Proofs.ChannelOverrides
import Guildhall.Proofs.Codecs
import Guildhall.Proofs.Isolation

/-!
# Overrides sent back

The overrides of a channel are read as sets and submitted as lists, and what is submitted is checked,
pruned and sorted before it is stored. Of a well-formed list nothing of this is seen: it is written
as the request for it is read (`OverrideDraft.write_listCodec`), normalization leaves it alone
(`Store.WellFormed.normalize`), and whoever can manage the channel can do so still. A client that
reads the overrides of a channel and puts them back therefore changes nothing.
-/

namespace Guildhall

/-! ## Normalizing a well-formed list -/

namespace Store

variable {s : Store} {server : Id} {limits : Limits} {os : List Override} {m : Member}

/-- The draft of an override that suits a server is accepted there. -/
theorem Suits.accepts {o : Override} (h : s.Suits m.server o) :
    ((s.recordsOf m).overrideRules limits s).Accepts o.draft where
  target := by
    obtain ⟨⟨kind, id⟩, allow, deny⟩ := o
    cases kind with
    | role =>
      obtain ⟨r, hr, hs, hid⟩ := h.role rfl
      simp only [OverrideRules.Permits, Override.draft, ServerRecords.overrideRules,
        roles_recordsOf, List.mem_map, mem_serverRoles]
      exact ⟨r, ⟨hr, hs⟩, hid⟩
    | member =>
      simp only [OverrideRules.Permits, Override.draft, ServerRecords.overrideRules,
        server_recordsOf]
      intro howner
      obtain ⟨n, hfound, rfl⟩ := Option.map_eq_some_iff.1 howner.symm
      obtain ⟨hn, hs, ho⟩ := mem_of_findOwner hfound
      exact h.notOwner n hn hs ho rfl
  noAdmin := by simpa [Override.draft] using h.noAdmin
  disjoint := by simpa [Override.draft] using h.disjoint

/-- Normalization leaves a well-formed list as it is. -/
theorem WellFormed.normalize (h : s.WellFormed limits.overridesPerChannel m.server os) :
    ((s.recordsOf m).overrideRules limits s).normalize (os.map Override.draft) = .ok os := by
  have hordered : os.Pairwise fun o p =>
      ((s.recordsOf m).overrideRules limits s).targetLe o.target p.target = true := by
    refine (h.ordered.and (List.pairwise_map.1 h.distinct)).imp fun ⟨hprecedes, hne⟩ => ?_
    exact (OverrideRules.precedes_iff.1
      ((precedes_iff_of_ne (fun _ => everyone_overrideRules_iff) hne).1 hprecedes)).1
  exact OverrideRules.normalize_draft h.bounded h.distinct (fun o ho => (h.each o ho).accepts)
    (fun o ho => OverrideRules.hasEffect_iff.2 (h.each o ho).effective) hordered

/-- Putting the overrides of a channel back leaves the store as it is. -/
theorem commit_replaceOverrides_self {c : Channel} (h : s.findChannel c.id = some c) :
    s.commit (.replaceOverrides c.id c.overrides) = .ok (.channel c, s) := by
  simp only [commit, replaceOverrides, h, insertChannel_self h]

/-- The overrides of a channel can be put back by whoever manages the channel. -/
theorem planOverrides_self {user : Id} {c : Channel}
    (h : s.WellFormed limits.overridesPerChannel m.server c.overrides)
    (hmanages : ((s.recordsOf m).resolve (some c)).grants .manageChannel = true) :
    planOverrides limits ⟨user, .channel c (s.recordsOf m)⟩ s (c.overrides.map Override.draft) =
      .ok (.replaceOverrides c.id c.overrides) := by
  simp only [planOverrides, h.normalize]
  simp [bind, Except.bind, hmanages, pure, Except.pure]

end Store

/-! ## Requests about a text channel -/

namespace Gate

variable {g : Gate} {ps : Http.Parameters} {user : Id} {s : Store} {a : Access} {c : Channel}

/-- At the gate of a text channel stands a member of its server. -/
theorem load_text (hk : g.kind = .channel) (hn : NamedBy ps (.channel, c.id))
    (hc : s.findChannel c.id = some c) (ht : c.kind = .text) (h : g.load ps user s = .ok a) :
    ∃ m, c.server = some m.server ∧ a = ⟨user, .channel c (s.recordsOf m)⟩ := by
  have hchannel : neededPathId ps "channel_id" = .ok c.id := neededPathId_eq_ok.2 hn
  simp only [load, hk, hchannel, bind_eq_ok, Except.ok.injEq, exists_eq_left',
    Store.loadChannelAccess_eq_ok, hc, Option.some.injEq] at h
  obtain ⟨routeServer, -, ⟨hdm, -⟩ | ⟨-, m, hs, -, -, rfl⟩⟩ := h
  · simp [Channel.isDm, ht] at hdm
  · exact ⟨m, hs, rfl⟩

end Gate

/-- Whether a request says that its body is JSON. -/
def Http.Request.AnnouncesJson (r : Http.Request) : Prop :=
  ∃ h, r.header? "content-type" = some h ∧ isPlainText h = true ∧ Http.announcesJson h = true

/-- A request whose body is within the limit is read as what its JSON text says. -/
theorem readBody_of_ofString {α : Type} {codec : Json.Codec α} (h : codec.Lawful) {r : Http.Request}
    {a : α} (hjson : r.AnnouncesJson) (hsize : r.body.utf8ByteSize ≤ bodyLimit)
    (hbody : Json.Document.ofString r.body = ⟨codec.write a, false⟩) :
    readBody codec r = .ok a := by
  obtain ⟨header, hheader, hplain, hannounces⟩ := hjson
  simp [readBody, hheader, hplain, hannounces, Nat.not_lt.2 hsize, h.readText hbody, Except.mapError]

/-- The array of overrides, put between braces, is read as the request to replace them. -/
theorem ofString_overrides (os : List Override) :
    Json.Document.ofString ("\x7b\"overrides\":" ++ (Override.codec.list.write os).render ++ "\x7d") =
      ⟨Json.ofFields [("overrides", Override.codec.list.write os)], false⟩ := by
  have hplain : (Json.ofFields [("overrides", Override.codec.list.write os)]).plain = true := by
    rw [← OverrideDraft.write_listCodec]
    exact OverrideDraft.listCodec_lawful.plain_write _
  have htext : (Json.ofFields [("overrides", Override.codec.list.write os)]).render =
      "\x7b\"overrides\":" ++ (Override.codec.list.write os).render ++ "\x7d" := by
    have hkey : Json.renderString (some "overrides") = "\"overrides\"".toList := by decide
    rw [← String.toList_inj]
    simp [Json.render, Json.ofFields, Json.Fields.ofList, Json.renderChars, Json.Fields.renderChars,
      hkey]
  rw [← htext]
  exact Json.ofString_render hplain

/-! ## An example -/

namespace Example

/-- A text channel that managers can read and manage, and the newcomer can read. -/
def office : Channel :=
  ⟨52, some 1, .text, some "office", [],
    [⟨.role 10, ∅, .ofList [.viewChannel]⟩,
     ⟨.role 20, .ofList [.viewChannel, .manageChannel], ∅⟩,
     ⟨.member 8, .ofList [.viewChannel], .ofList [.sendMessages]⟩]⟩

/-- Server 1 with the office. -/
def staffed : Store := { store with channels := .ofList [office] }

/-- The manager asks for the overrides of the office. -/
def inquiry : Http.Request := request "GET" ["channels", (52 : Id).text, "overrides"]

/-- The manager puts the overrides of the office back. -/
def resubmission : Http.Request :=
  submission "PUT" ["channels", (52 : Id).text, "overrides"]
    ("\x7b\"overrides\":" ++ (Override.codec.list.write office.overrides).render ++ "\x7d")

end Example

/-! ## Responses -/

namespace Service

variable {v : Service} {t : Moment} {r : Http.Request} {s : Store} {c : Channel} {server : Id}

/-- Whether the sender of a request is let in to an action. -/
def LetsIn (v : Service) (t : Moment) (r : Http.Request) (action : Action) (s : Store) : Prop :=
  ∃ endpoint spelled entry, Endpoint.find? r.path = some (endpoint, spelled) ∧
    endpoint.action? r.method = some action ∧
    v.enter t.now r endpoint spelled action s = .ok entry

/-- Whether a request submits a JSON value as the overrides of what a path names. -/
structure Submits (r : Http.Request) (path : List Char) (overrides : Json) : Prop where
  method : r.method = "PUT"
  path : r.path = path
  announced : r.AnnouncesJson
  bounded : r.body.utf8ByteSize ≤ bodyLimit
  body : Json.Document.ofString r.body = ⟨Json.ofFields [("overrides", overrides)], false⟩

/-- Who is let in to a text channel is a member of its server who has the permission, and is answered
by what the action plans there. -/
theorem LetsIn.exists_member {action : Action} (h : v.LetsIn t r action s)
    (hr : r.Addresses (.channel, c.id)) (hc : s.findChannel c.id = some c) (ht : c.kind = .text) :
    ∃ user m ps, c.server = some m.server ∧
      (Access.mk user (.channel c (s.recordsOf m))).require action.permission = .ok () ∧
      v.respond t r s =
        (sent r (response (v.perform t.fresh r ⟨action, ⟨user, .channel c (s.recordsOf m)⟩, ps⟩ s).1),
          (v.perform t.fresh r ⟨action, ⟨user, .channel c (s.recordsOf m)⟩, ps⟩ s).2) := by
  obtain ⟨endpoint, spelled, entry, hf, ha, henter⟩ := h
  obtain ⟨user, -, rfl, hd, hload, hreq⟩ := enter_eq_ok henter
  obtain ⟨hk, hn⟩ := hr.named hf hd
  obtain ⟨m, hs, haccess⟩ := Gate.load_text hk hn hc ht hload
  rw [haccess] at hreq
  refine ⟨user, m, entry.parameters, hs, hreq, ?_⟩
  rw [respond_of_action hf ha, act_of_enter henter, ← haccess]

/-- The response that shows the overrides of a channel. -/
def showing (c : Channel) : Http.Response :=
  (Http.Response.ofBody 200 (.json (Override.codec.list.write c.overrides))).withHeaders
    (securityHeaders ++ originHeaders)

/-- Whoever may view a text channel is shown its overrides. -/
theorem respond_of_listOverrides (hlet : v.LetsIn t r .listOverrides s)
    (hmethod : r.method ≠ "HEAD") (hr : r.Addresses (.channel, c.id))
    (hc : s.findChannel c.id = some c) (ht : c.kind = .text) :
    v.respond t r s = (showing c, s) := by
  obtain ⟨user, m, ps, -, -, hrespond⟩ := hlet.exists_member hr hc ht
  rw [hrespond, perform_of_answer rfl, sent_of_ne_head hmethod]
  rfl

/-- Whoever may manage a text channel can put its overrides back: they are shown, and the store is as
it was. -/
theorem respond_of_replaceOverrides (hlet : v.LetsIn t r .replaceOverrides s)
    (hmethod : r.method ≠ "HEAD") (hr : r.Addresses (.channel, c.id))
    (hc : s.findChannel c.id = some c) (ht : c.kind = .text) (hs : c.server = some server)
    (hwf : s.WellFormed v.limits.overridesPerChannel server c.overrides)
    (hread : readBody OverrideDraft.listCodec r = .ok (c.overrides.map Override.draft)) :
    v.respond t r s = (showing c, s) := by
  obtain ⟨user, m, ps, hms, hreq, hrespond⟩ := hlet.exists_member hr hc ht
  obtain rfl : server = m.server := Option.some.inj (hs.symm.trans hms)
  have hmanages : ((s.recordsOf m).resolve (some c)).grants .manageChannel = true :=
    Member.authorize_eq_allowed.1 (Access.require_eq_ok.1 hreq)
  have hplan : Action.plan .replaceOverrides v.limits ⟨user, .channel c (s.recordsOf m)⟩ ps r t.fresh s
      = .ok (.commit (.replaceOverrides c.id c.overrides)) := by
    simp only [Action.plan, bind_eq_ok, committing_eq_ok]
    exact ⟨_, hread, Store.planOverrides_self hwf hmanages⟩
  rw [hrespond, perform_of_commit hplan (Store.commit_replaceOverrides_self hc),
    sent_of_ne_head hmethod]
  rfl

/-- Reading the overrides of a text channel and putting them back changes nothing. A `GET` request is
answered with the array of the overrides, and a `PUT` request that submits this array to the same path
is answered alike and leaves the store as it is, if both senders are let in and the overrides are
well-formed. The array can be submitted as it was sent, put between braces, or in any other spelling. -/
theorem respond_resubmission (hc : s.findChannel c.id = some c) (ht : c.kind = .text)
    (hs : c.server = some server) (hwf : s.WellFormed v.limits.overridesPerChannel server c.overrides)
    (hget : r.method = "GET") (hr : r.Addresses (.channel, c.id))
    (hlet : v.LetsIn t r .listOverrides s) :
    ∃ array, array = Override.codec.list.write c.overrides ∧
      (v.respond t r s).1.status = 200 ∧ (v.respond t r s).1.body = .json array ∧
      (v.respond t r s).2 = s ∧
      Json.Document.ofString
          ("\x7b\"overrides\":" ++ (v.respond t r s).1.body.content ++ "\x7d") =
        ⟨Json.ofFields [("overrides", array)], false⟩ ∧
      ∀ t' put, Submits put r.path array → v.LetsIn t' put .replaceOverrides s →
        v.respond t' put s = v.respond t r s := by
  have hshown : v.respond t r s = (showing c, s) := by
    refine respond_of_listOverrides hlet ?_ hr hc ht
    rw [hget]
    decide
  refine ⟨_, rfl, by rw [hshown]; rfl, by rw [hshown]; rfl, by rw [hshown], ?_, ?_⟩
  · rw [hshown]
    exact ofString_overrides c.overrides
  · intro t' put hput hlet'
    have hr' : put.Addresses (.channel, c.id) := by
      obtain ⟨endpoint, spelled, hf, hnamed⟩ := hr
      exact ⟨endpoint, spelled, hput.path ▸ hf, hnamed⟩
    have hread : readBody OverrideDraft.listCodec put = .ok (c.overrides.map Override.draft) := by
      refine readBody_of_ofString OverrideDraft.listCodec_lawful hput.announced hput.bounded ?_
      rw [OverrideDraft.write_listCodec]
      exact hput.body
    rw [hshown]
    refine respond_of_replaceOverrides hlet' ?_ hr' hc ht hs hwf hread
    rw [hput.method]
    decide

theorem respond_resubmission_office :
    (Example.service.respond Example.moment Example.inquiry Example.staffed).1.status = 200 ∧
      Example.service.respond Example.moment Example.resubmission Example.staffed =
        Example.service.respond Example.moment Example.inquiry Example.staffed ∧
      (Example.service.respond Example.moment Example.inquiry Example.staffed).2 =
        Example.staffed := by
  have hpath : Endpoint.find? Example.inquiry.path =
      some (.channelOverrides, [("channel_id", (52 : Id).text)]) := by decide +kernel
  have hsame : Example.resubmission.path = Example.inquiry.path := by decide +kernel
  have hgate : ∀ action ∈ [Action.listOverrides, .replaceOverrides],
      (Endpoint.channelOverrides.gate action).letIn [("channel_id", (52 : Id).text)] (some 7)
        Example.staffed =
      .ok (⟨7, .channel Example.office (Example.staffed.recordsOf Example.manager)⟩,
        [("channel_id", (52 : Id).text)]) := by decide +kernel
  have hlet : Example.service.LetsIn Example.moment Example.inquiry .listOverrides
      Example.staffed :=
    ⟨.channelOverrides, _, _, hpath, rfl,
      enter_of_letIn (Example.authenticate_request _ _) (hgate _ (by decide))⟩
  have hlet' : Example.service.LetsIn Example.moment Example.resubmission .replaceOverrides
      Example.staffed :=
    ⟨.channelOverrides, _, _, hsame ▸ hpath, rfl,
      enter_of_letIn (Example.authenticate_submission _ _ _) (hgate _ (by decide))⟩
  have hwf : Example.staffed.WellFormed Example.service.limits.overridesPerChannel 1
      Example.office.overrides := by decide +kernel
  have haddresses : Example.inquiry.Addresses (.channel, Example.office.id) := by
    refine ⟨.channelOverrides, [("channel_id", (52 : Id).text)], hpath, rfl, ?_⟩
    decide +kernel
  have hsubmits : Submits Example.resubmission Example.inquiry.path
      (Override.codec.list.write Example.office.overrides) := by
    refine ⟨rfl, hsame, ⟨"application/json", ?_, ?_, ?_⟩, ?_, ofString_overrides _⟩
    all_goals decide +kernel
  obtain ⟨array, rfl, hstatus, -, hkept, -, hput⟩ :=
    respond_resubmission (v := Example.service) (t := Example.moment) (by decide +kernel) rfl rfl hwf
      rfl haddresses hlet
  exact ⟨hstatus, hput _ _ hsubmits hlet', hkept⟩

end Service

end Guildhall
