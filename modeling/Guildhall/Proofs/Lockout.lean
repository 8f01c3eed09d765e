-- SUMMARY: Whoever replaces the overrides of a channel is let in again, and is refused just where they would not be.
import Guildhall.Proofs.Atomicity
import Guildhall.Proofs.Enforcement
import Guildhall.Proofs.Rearrangement
import Guildhall.Proofs.Resubmission

/-!
# Lockout

Nobody can take the management of a channel away from themselves. Before the overrides of a channel
are replaced, the permissions of the caller are resolved once more, with the new overrides but from
the records that the gate has loaded. The next request is let in by what is loaded from the store
then. The two agree, since a replacement leaves all other records alone
(`Store.loadChannelAccess_withOverrides`): a replacement is refused just where the gate would be shut
to its sender afterwards (`Service.respond_replacement`).
-/

namespace Guildhall

/-! ## What overrides cannot reach -/

/-- What is allowed in a direct message is what all direct messages grant. -/
theorem mem_dm_of_authorizeDm {p : Permission} {user : Id} {c : Channel}
    (h : authorizeDm p user c = .allowed) : p ∈ PermissionSet.dm := by
  unfold authorizeDm at h
  split at h
  · cases h
  · split at h
    · rename_i hp
      unfold resolveDm at hp
      split at hp
      · exact hp
      · exact absurd hp (PermissionSet.not_mem_empty p)
    · cases h

/-- No override takes anything from a member who is an administrator in their server as a whole. -/
theorem Member.resolve_of_admin {m : Member} {roles : List Role} {everyone : Option Role}
    {channel : Option Channel} (h : m.Within channel)
    (hadmin : .administrator ∈ m.resolve roles everyone none) :
    m.resolve roles everyone channel = .full := by
  rw [Member.resolve_of_within h]
  simp only [Member.resolve, Member.resolveInServer] at hadmin ⊢
  cases ho : m.isOwner with
  | true => simp
  | false =>
    cases he : m.usableEveryone everyone with
    | none => simp [ho, he] at hadmin
    | some e =>
      cases ha : (basePermissions e (m.heldRoles roles e)).isAdmin with
      | true => simp [ha]
      | false =>
        simp only [ho, he, ha, Bool.false_eq_true, if_false] at hadmin
        rw [PermissionSet.isAdmin_eq_true.2 hadmin] at ha
        cases ha

namespace Store

variable {s : Store} {user id : Id} {c : Channel} {m : Member} {r : ServerRecords}
  {os : List Override} {routeServer : Option Id} {p : Permission}

/-! ## Gates after a replacement -/

/-- The store with other overrides for a channel. -/
def withOverrides (s : Store) (c : Channel) (os : List Override) : Store :=
  s.insertChannel (c.withOverrides os)

/-- Whether a user has a standing in a place, and the permission there. -/
def Opens (s : Store) (user : Id) (place : Place) (p : Permission) : Prop :=
  ∃ a, s.loadAccess user place = .ok a ∧ a.require (some p) = .ok ()

theorem commit_replaceOverrides (h : s.findChannel c.id = some c) (os : List Override) :
    s.commit (.replaceOverrides c.id os) =
      .ok (.channel (c.withOverrides os), s.withOverrides c os) := by
  simp only [commit, replaceOverrides, h]
  rfl

/-- After a replacement the same records are loaded, and the channel with the new overrides. -/
theorem loadChannelAccess_withOverrides (os : List Override)
    (h : s.loadChannelAccess user c.id routeServer = .ok ⟨user, .channel c r⟩) :
    (s.withOverrides c os).loadChannelAccess user c.id routeServer =
      .ok ⟨user, .channel (c.withOverrides os) r⟩ := by
  obtain ⟨d, hd, ⟨-, -, -, heq⟩ | ⟨hdm, m, hs, hroute, hm, heq⟩⟩ := loadChannelAccess_eq_ok.1 h
  · cases heq
  · cases heq
    have hfound : (s.withOverrides c os).findChannel c.id = some (c.withOverrides os) :=
      findChannel_insertChannel hd rfl
    exact loadChannelAccess_eq_ok.2 ⟨_, hfound, .inr ⟨hdm, m, hs, hroute, hm, rfl⟩⟩

/-- A channel opens to whom the loaded records grant the permission. -/
theorem opens_iff_of_load (h : s.loadChannelAccess user id routeServer = .ok ⟨user, .channel c r⟩) :
    s.Opens user (.channel id routeServer) p ↔ (r.resolve (some c)).grants p = true := by
  constructor
  · rintro ⟨a, ha, hreq⟩
    cases h.symm.trans ha
    exact Member.authorize_eq_allowed.1 (Access.require_eq_ok.1 hreq)
  · intro hg
    exact ⟨_, h, Access.require_eq_ok.2 (Member.authorize_eq_allowed.2 hg)⟩

/-- Resolving with the new overrides says to whom the channel opens once they are stored. -/
theorem opens_withOverrides_iff
    (h : s.loadChannelAccess user c.id routeServer = .ok ⟨user, .channel c r⟩) :
    (s.withOverrides c os).Opens user (.channel c.id routeServer) p ↔
      (r.resolve (some (c.withOverrides os))).grants p = true :=
  opens_iff_of_load (loadChannelAccess_withOverrides os h)

/-- Owners and administrators are granted everything, whatever the overrides say. -/
theorem grants_withOverrides (htext : c.isDm = false) (hs : c.server = some m.server)
    (h : m.isOwner = true ∨ .administrator ∈ s.permissionsOf m) :
    ((s.recordsOf m).resolve (some (c.withOverrides os))).grants p = true := by
  have hwithin : m.Within (some (c.withOverrides os)) := Member.within_some htext hs
  have hadmin : .administrator ∈ s.permissionsOf m := by
    obtain howner | hadmin := h
    · rw [permissionsOf_of_isOwner howner]
      exact PermissionSet.mem_full _
    · exact hadmin
  simp only [permissionsOf, ServerRecords.resolve, member_recordsOf, roles_recordsOf] at hadmin ⊢
  rw [Member.resolve_of_admin hwithin hadmin, PermissionSet.grants_iff]
  exact .inl (PermissionSet.mem_full _)

/-- What becomes of a replacement that normalization accepts. -/
theorem planOverrides_of_normalize {limits : Limits} {ds : List OverrideDraft}
    (h : (r.overrideRules limits s).normalize ds = .ok os) :
    planOverrides limits ⟨user, .channel c r⟩ s ds =
      if (r.resolve (some (c.withOverrides os))).grants .manageChannel then
        .ok (.replaceOverrides c.id os)
      else
        .error (.forbidden
          "This change would remove your own MANAGE_CHANNEL permission on this channel") := by
  simp only [planOverrides, h]
  cases hg : (r.resolve (some (c.withOverrides os))).grants .manageChannel with
  | true =>
    rw [Channel.withOverrides] at hg
    simp [bind, Except.bind, pure, Except.pure, hg]
  | false =>
    rw [Channel.withOverrides] at hg
    simp [bind, Except.bind, throw, throwThe, MonadExceptOf.throw, hg]

end Store

/-! ## Requests -/

namespace Gate

variable {g : Gate} {ps decoded : Http.Parameters} {user : Id} {s : Store} {a : Access} {c : Channel}
  {r : ServerRecords}

/-- Whoever has a standing with the permission is let in. -/
theorem letIn_of_load (hd : Http.decodeParameters? ps = some decoded)
    (hload : g.load decoded user s = .ok a) (hreq : a.require g.permission = .ok ()) :
    g.letIn ps (some user) s = .ok (a, decoded) := by
  simp [letIn, hd, enter, hload, hreq, refusing, Except.mapError, bind, Except.bind, pure, Except.pure]

/-- Where a channel is loaded, it is loaded with the new overrides after a replacement. -/
theorem load_withOverrides (os : List Override) (hn : NamedBy ps (.channel, c.id))
    (h : g.load ps user s = .ok ⟨user, .channel c r⟩) :
    g.load ps user (s.withOverrides c os) = .ok ⟨user, .channel (c.withOverrides os) r⟩ := by
  have hk : g.kind = .channel := kind_of_load h rfl
  have hchannel : neededPathId ps "channel_id" = .ok c.id := neededPathId_eq_ok.2 hn
  simp only [load, hk, hchannel, bind_eq_ok, Except.ok.injEq, exists_eq_left'] at h ⊢
  obtain ⟨routeServer, hroute, h⟩ := h
  exact ⟨routeServer, hroute, Store.loadChannelAccess_withOverrides os h⟩

end Gate

namespace Service

open Store

variable {v : Service} {t t' : Moment} {r r' : Http.Request} {s : Store} {user : Id} {c : Channel}
  {m : Member} {os : List Override} {ds : List OverrideDraft}

/-- Whether a request comes from a member of a server and is about a text channel of it. -/
structure ComesIn (v : Service) (t : Moment) (r : Http.Request) (s : Store) (user : Id) (c : Channel)
    (m : Member) : Prop where
  sender : authenticate v.secret t.now r = .ok user
  addressed : r.Addresses (.channel, c.id)
  channel : s.findChannel c.id = some c
  text : c.isDm = false
  server : c.server = some m.server
  member : s.findMember m.server user = some m

/-- The standing with which a member is let in to a text channel. -/
theorem ComesIn.access_eq (h : v.ComesIn t r s user c m) {endpoint : Endpoint}
    {spelled : Http.Parameters} {action : Action} {entry : Entry}
    (hf : Endpoint.find? r.path = some (endpoint, spelled))
    (henter : v.enter t.now r endpoint spelled action s = .ok entry) :
    entry.access = ⟨user, .channel c (s.recordsOf m)⟩ := by
  obtain ⟨sender, hsender, -, hd, hload, -⟩ := enter_eq_ok henter
  obtain rfl : user = sender := Except.ok.inj (h.sender.symm.trans hsender)
  obtain ⟨hk, hn⟩ := h.addressed.named hf hd
  have hchannel : neededPathId entry.parameters "channel_id" = .ok c.id := neededPathId_eq_ok.2 hn
  have hgate : (endpoint.gate action).kind = .channel := hk
  simp only [Gate.load, hgate, hchannel, bind_eq_ok, Except.ok.injEq, exists_eq_left',
    loadChannelAccess_eq_ok, h.channel, Option.some.injEq, h.text, h.server] at hload
  obtain ⟨routeServer, -, ⟨⟨⟩, -⟩ | ⟨-, n, hs, -, hn, haccess⟩⟩ := hload
  rw [← hs, h.member, Option.some.injEq] at hn
  rw [haccess, hn]

/-- Whoever is let in to replace overrides is a member of the server of a text channel. -/
theorem LetsIn.exists_comesIn (h : v.LetsIn t r .replaceOverrides s) :
    ∃ user c m, v.ComesIn t r s user c m := by
  obtain ⟨endpoint, spelled, entry, hf, ha, henter⟩ := h
  obtain ⟨user, hauth, -, hd, hload, hreq⟩ := enter_eq_ok henter
  have hmakes : Action.replaceOverrides.Makes (.replaceOverrides 0 []) := .replaceOverrides
  have hk : .channel = endpoint.scopeKind := hmakes.about ha
  obtain ⟨c, hdm⟩ | ⟨c, m, hn, hc, htext, hs, hm, -⟩ := Gate.load_channel hk.symm hload
  · have hallowed : authorizeDm .manageChannel entry.access.user c = .allowed := by
      simpa only [Access.decide, hdm] using Access.require_eq_ok.1 hreq
    exact absurd (mem_dm_of_authorizeDm hallowed) (by decide)
  · rw [hk] at hn
    have haddressed := Http.Request.addresses_of_named hf hd hn
    rw [← hk] at haddressed
    exact ⟨user, c, m, hauth, haddressed, hc, htext, hs, hm⟩

theorem LetsIn.ne_head (h : v.LetsIn t r .replaceOverrides s) : r.method ≠ "HEAD" := by
  obtain ⟨endpoint, spelled, entry, -, ha, -⟩ := h
  have hmakes : Action.replaceOverrides.Makes (.replaceOverrides 0 []) := .replaceOverrides
  intro hhead
  refine hmakes.handledAs_ne ha ?_
  rw [hhead]
  rfl

/-- Whoever keeps the permission for a channel is let in to it again after a replacement. -/
theorem LetsIn.withOverrides (hlet : v.LetsIn t r .replaceOverrides s)
    (h : v.ComesIn t r s user c m)
    (hkeeps : ((s.recordsOf m).resolve (some (c.withOverrides os))).grants .manageChannel = true)
    (hmethod : r'.method = r.method) (hpath : r'.path = r.path)
    (hauth : authenticate v.secret t'.now r' = .ok user) :
    v.LetsIn t' r' .replaceOverrides (s.withOverrides c os) := by
  obtain ⟨endpoint, spelled, entry, hf, ha, henter⟩ := hlet
  obtain ⟨sender, hsender, -, hd, hload, -⟩ := enter_eq_ok henter
  obtain rfl : user = sender := Except.ok.inj (h.sender.symm.trans hsender)
  rw [h.access_eq hf henter] at hload
  have hload' := Gate.load_withOverrides os (h.addressed.named hf hd).2 hload
  have hreq : (Access.mk user (.channel (c.withOverrides os) (s.recordsOf m))).require
      (some .manageChannel) = .ok () := Access.require_eq_ok.2 (Member.authorize_eq_allowed.2 hkeeps)
  exact ⟨endpoint, spelled, _, hpath ▸ hf, hmethod ▸ ha,
    enter_of_letIn hauth (Gate.letIn_of_load hd hload' hreq)⟩

/-- What a replacement that normalization accepts is answered with. -/
theorem respond_of_normalize (hlet : v.LetsIn t r .replaceOverrides s)
    (h : v.ComesIn t r s user c m) (hread : readBody OverrideDraft.listCodec r = .ok ds)
    (hnormal : ((s.recordsOf m).overrideRules v.limits s).normalize ds = .ok os) :
    v.respond t r s =
      if ((s.recordsOf m).resolve (some (c.withOverrides os))).grants .manageChannel then
        (showing (c.withOverrides os), s.withOverrides c os)
      else
        (sent r (response (.error (.refused (.forbidden
          "This change would remove your own MANAGE_CHANNEL permission on this channel")))), s) := by
  have hhead := hlet.ne_head
  obtain ⟨endpoint, spelled, entry, hf, ha, henter⟩ := hlet
  obtain ⟨-, -, haction, -, -, -⟩ := enter_eq_ok henter
  have hplan : entry.action.plan v.limits entry.access entry.parameters r t.fresh s =
      committing (planOverrides v.limits ⟨user, .channel c (s.recordsOf m)⟩ s ds) := by
    rw [haction, h.access_eq hf henter]
    simp only [Action.plan, hread]
    rfl
  rw [planOverrides_of_normalize hnormal] at hplan
  rw [respond_of_action hf ha, act_of_enter henter]
  cases hg : ((s.recordsOf m).resolve (some (c.withOverrides os))).grants .manageChannel with
  | true =>
    rw [hg] at hplan
    rw [perform_of_commit hplan (commit_replaceOverrides h.channel os), sent_of_ne_head hhead, haction]
    rfl
  | false =>
    rw [hg] at hplan
    simp only [perform, hplan]
    rfl

end Service

/-! ## An example -/

namespace Example

/-- The manager, who manages the office by an override, takes all overrides of the office away. -/
def withdrawal : Http.Request :=
  submission "PUT" ["channels", (52 : Id).text, "overrides"]
    ("\x7b\"overrides\":" ++ (Override.codec.list.write []).render ++ "\x7d")

end Example

/-! ## Keeping the management of a channel -/

namespace Service

open Store

variable {v : Service} {t : Moment} {r : Http.Request} {s : Store}

/-- Replacing the overrides of a channel succeeds just where its sender is let in to the channel by the
store that has the new overrides. Whoever may replace overrides is a member of the server of a text
channel. If normalization accepts the submitted list, the answer is a success just if the channel opens
to them with the normalized list, whether or not the server is in the path. Then this is what is stored
and shown, and the sender can send to the same path again. Otherwise the request is refused and the
store is as it was, which never happens to owners and administrators. -/
theorem respond_replacement (hlet : v.LetsIn t r .replaceOverrides s) :
    ∃ user c m, v.ComesIn t r s user c m ∧
      ∀ ds os, readBody OverrideDraft.listCodec r = .ok ds →
        ((s.recordsOf m).overrideRules v.limits s).normalize ds = .ok os →
        (∀ routeServer, routeServer = none ∨ routeServer = some m.server →
          ((v.respond t r s).1.status = 200 ↔
            (s.withOverrides c os).Opens user (.channel c.id routeServer) .manageChannel)) ∧
        ((v.respond t r s).1.status = 200 →
          v.respond t r s = (showing (c.withOverrides os), s.withOverrides c os) ∧
          ∀ t' r', r'.method = r.method → r'.path = r.path →
            authenticate v.secret t'.now r' = .ok user →
            v.LetsIn t' r' .replaceOverrides (v.respond t r s).2) ∧
        ((v.respond t r s).1.status ≠ 200 →
          (v.respond t r s).1.Refuses 403 "FORBIDDEN" ∧ (v.respond t r s).2 = s) ∧
        (m.isOwner = true ∨ .administrator ∈ s.permissionsOf m →
          (v.respond t r s).1.status = 200) := by
  obtain ⟨user, c, m, h⟩ := hlet.exists_comesIn
  refine ⟨user, c, m, h, fun ds os hread hnormal => ?_⟩
  have hrespond := respond_of_normalize hlet h hread hnormal
  have hopens : ∀ routeServer, routeServer = none ∨ routeServer = some m.server →
      ((s.withOverrides c os).Opens user (.channel c.id routeServer) .manageChannel ↔
        ((s.recordsOf m).resolve (some (c.withOverrides os))).grants .manageChannel = true) := by
    intro routeServer hroute
    apply opens_withOverrides_iff
    refine loadChannelAccess_eq_ok.2 ⟨c, h.channel, .inr ⟨h.text, m, h.server, ?_, h.member, rfl⟩⟩
    rintro server rfl
    simpa using hroute
  -- what is left is to read both outcomes off the one resolution
  cases hg : ((s.recordsOf m).resolve (some (c.withOverrides os))).grants .manageChannel with
  | true =>
    rw [hg, if_pos rfl] at hrespond
    have hstatus : (v.respond t r s).1.status = 200 := by
      rw [hrespond]
      rfl
    refine ⟨fun routeServer hroute => ?_, fun _ => ⟨hrespond, ?_⟩, fun hne => absurd hstatus hne,
      fun _ => hstatus⟩
    · rw [hopens routeServer hroute, hg]
      exact ⟨fun _ => rfl, fun _ => hstatus⟩
    · intro t' r' hmethod hpath hauth'
      rw [hrespond]
      exact hlet.withOverrides h hg hmethod hpath hauth'
  | false =>
    rw [hg, if_neg Bool.false_ne_true] at hrespond
    have hstatus : (v.respond t r s).1.status = 403 := by
      rw [hrespond, status_sent]
      rfl
    have hne : (v.respond t r s).1.status ≠ 200 := by
      rw [hstatus]
      decide
    refine ⟨fun routeServer hroute => ?_, fun hok => absurd hok hne, fun _ => ⟨?_, by rw [hrespond]⟩,
      fun hadmin => ?_⟩
    · rw [hopens routeServer hroute, hg]
      exact ⟨fun hok => absurd hok hne, fun hopen => absurd hopen Bool.false_ne_true⟩
    · rw [hrespond]
      exact (refuses_sent_error hlet.ne_head).2 ⟨_, rfl, rfl, rfl⟩
    · rw [grants_withOverrides h.text h.server hadmin] at hg
      cases hg

theorem respond_replacement_withdrawal :
    Example.service.LetsIn Example.moment Example.withdrawal .replaceOverrides Example.staffed ∧
      (Example.service.respond Example.moment Example.withdrawal Example.staffed).1.Refuses 403
        "FORBIDDEN" ∧
      (Example.service.respond Example.moment Example.withdrawal Example.staffed).2 =
        Example.staffed := by
  have hpath : Endpoint.find? Example.withdrawal.path =
      some (.channelOverrides, [("channel_id", (52 : Id).text)]) := by decide +kernel
  have hgate : (Endpoint.channelOverrides.gate .replaceOverrides).letIn
      [("channel_id", (52 : Id).text)] (some 7) Example.staffed =
      .ok (⟨7, .channel Example.office (Example.staffed.recordsOf Example.manager)⟩,
        [("channel_id", (52 : Id).text)]) := by decide +kernel
  have hlet : Example.service.LetsIn Example.moment Example.withdrawal .replaceOverrides
      Example.staffed :=
    ⟨.channelOverrides, _, _, hpath, rfl,
      enter_of_letIn (Example.authenticate_submission _ _ _) hgate⟩
  have hread : readBody OverrideDraft.listCodec Example.withdrawal = .ok [] := by
    refine readBody_of_ofString OverrideDraft.listCodec_lawful
      ⟨"application/json", by decide +kernel, by decide +kernel, by decide +kernel⟩
      (by decide +kernel) ?_
    exact ofString_overrides []
  obtain ⟨user, c, m, ⟨hauth, ⟨_, _, hf, -, hid⟩, hc, -, hs, hm⟩, hall⟩ := respond_replacement hlet
  cases hf.symm.trans hpath
  obtain rfl : 7 = user :=
    Except.ok.inj ((Example.authenticate_submission _ _ _).symm.trans hauth)
  have hoffice : Example.staffed.findChannel 52 = some Example.office := by decide +kernel
  have hnamed : ((Http.parameter? [("channel_id", (52 : Id).text)] "channel_id").bind
      Http.decodeSegment?).bind Id.ofString? = some 52 := by decide +kernel
  have hcid : 52 = c.id := Option.some.inj (hnamed.symm.trans hid)
  rw [← hcid, hoffice] at hc
  cases hc
  have hmanager : Example.staffed.findMember 1 7 = some Example.manager := by decide +kernel
  rw [← Option.some.inj hs, hmanager] at hm
  cases hm
  have hnormal : ((Example.staffed.recordsOf Example.manager).overrideRules
      Example.service.limits Example.staffed).normalize [] = .ok [] := by decide +kernel
  have hload : Example.staffed.loadChannelAccess 7 Example.office.id none =
      .ok ⟨7, .channel Example.office (Example.staffed.recordsOf Example.manager)⟩ := by
    decide +kernel
  have hlost : ((Example.staffed.recordsOf Example.manager).resolve
      (some (Example.office.withOverrides []))).grants .manageChannel = false := by decide +kernel
  obtain ⟨hsucceeds, -, hrefused, -⟩ := hall [] [] hread hnormal
  refine ⟨hlet, hrefused fun hstatus => ?_⟩
  have hopens := (opens_withOverrides_iff hload).1 ((hsucceeds none (.inl rfl)).1 hstatus)
  rw [hlost] at hopens
  cases hopens

end Service

end Guildhall
