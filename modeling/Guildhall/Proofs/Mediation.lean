-- SUMMARY: No change without a check: whose request changed the store, what let it in, and that nothing else changed.
import Guildhall.Proofs.Escalation

/-!
# Mediation

Every change of the store has been asked for by a member of one server who was granted the
permission for it there, and stays within that server. The bounds come from `Write.about`: a
write leaves all records alone that are not of the server or the channel that it is about
(`Store.agreeOutside_of_follows`). That somebody is granted a permission is read off the store
(`Store.Grants`), without the records that a gate has loaded.
-/

namespace Guildhall

/-! ## Credentials -/

/-- Whether the request carries a token that is valid at a moment under the secret, lets requests
in and names the user. -/
def Http.Request.Bears (r : Http.Request) (secret : String) (now : Int) (user : Id) : Prop :=
  ∃ token claims, r.header? "authorization" = some ("Bearer " ++ token) ∧
    Token.validate token secret now = .ok claims ∧ claims.tokenType = Token.accessType ∧
    claims.user? = some user

/-- The token of a request is what its header says behind the scheme. -/
theorem header?_of_bearerToken? {r : Http.Request} {token : String}
    (h : bearerToken? r = some token) :
    r.header? "authorization" = some ("Bearer " ++ token) := by
  unfold bearerToken? at h
  cases hv : r.header? "authorization" with
  | none => simp [hv] at h
  | some value =>
    simp only [hv] at h
    split at h
    · rename_i hplain
      simp only [Bool.and_eq_true, List.isPrefixOf_iff_prefix] at hplain
      obtain ⟨rest, hrest⟩ := hplain.2
      rw [← hrest, List.drop_left, Option.some.injEq] at h
      have htext : value.toList = ("Bearer " ++ token).toList := by
        rw [← hrest, String.toList_append, ← h]
        exact congrArg (bearer ++ ·) String.toList_ofList.symm
      rw [String.toList_inj.1 htext]
    · cases h

/-- Nobody is known but by a valid token. -/
theorem bears_of_authenticate {secret : String} {now : Int} {r : Http.Request} {user : Id}
    (h : authenticate secret now r = .ok user) : r.Bears secret now user := by
  unfold authenticate at h
  cases ht : bearerToken? r with
  | none => simp [ht] at h
  | some token =>
    simp only [ht, tokenUser] at h
    cases hc : Token.validate token secret now with
    | error why => simp [hc] at h
    | ok claims =>
      simp only [hc] at h
      split at h
      · cases h
      · rename_i htype
        cases hu : claims.user? with
        | none => simp [hu] at h
        | some u =>
          simp only [hu, Except.ok.injEq] at h
          subst h
          exact ⟨token, claims, header?_of_bearerToken? ht, hc, not_not.1 htype, hu⟩

/-! ## Grants -/

namespace Store

variable {s : Store} {m : Member} {p : Permission} {channel : Option Channel}

/-- Whether a member owns their server, or the server has exactly one default role and the member
is granted the permission, in the server as a whole or in a channel. -/
def Grants (s : Store) (m : Member) (p : Permission) (channel : Option Channel) : Prop :=
  m.isOwner = true ∨ ∃ e, s.OnlyDefault m.server e ∧
    (m.resolve (s.serverRoles m.server) (some e) channel).grants p = true

/-- What the loaded records grant, the store grants. -/
theorem grants_resolve_iff (h : m.Within channel) :
    ((s.recordsOf m).resolve channel).grants p = true ↔ s.Grants m p channel := by
  simp only [ServerRecords.resolve, member_recordsOf, roles_recordsOf]
  constructor
  · intro hg
    obtain howner | ⟨e, he⟩ := Member.resolve_grants_of_within h hg
    · exact .inl howner
    · rw [usableEveryone_recordsOf] at he
      rw [he] at hg
      exact .inr ⟨e, everyone_recordsOf_eq_some.1 he, hg⟩
  · rintro (howner | ⟨e, he, hg⟩)
    · exact Member.grants_of_isOwner h howner
    · rw [everyone_recordsOf_eq_some.2 he]
      exact hg

/-! ## Frames -/

/-- Whether two stores have the same records outside a server. -/
structure AgreeOutside (s : Store) (server : Id) (s' : Store) : Prop where
  roles : ∀ r, r.server ≠ server → (r ∈ s'.roles ↔ r ∈ s.roles)
  members : ∀ m, m.server ≠ server → (m ∈ s'.members ↔ m ∈ s.members)
  channels : ∀ c, c.server ≠ some server → (c ∈ s'.channels ↔ c ∈ s.channels)

/-- Whether a write is about a server or about a channel of it. -/
def Concerns (s : Store) (w : Write) (server : Id) : Prop :=
  w.about = (.server, server) ∨
    ∃ c, s.findChannel c.id = some c ∧ c.server = some server ∧ w.about = (.channel, c.id)

end Store

namespace Write

variable {w : Write}

/-- A role of a server that the write is not about stays as it is. -/
theorem onRole_of_about_ne {r : Role} (h : w.about ≠ (.server, r.server)) :
    w.onRole r = some r := by
  have hne : ∀ {server : Id}, w.about = (.server, server) → r.server ≠ server := by
    rintro _ hw rfl
    exact h hw
  cases w with
  | updateRole server role patch => simp [onRole, hne rfl]
  | moveRole server role expected position => simp [onRole, hne rfl]
  | deleteRole server role => simp [onRole, hne rfl]
  | createRole | assignRole | unassignRole | removeMember | replaceOverrides => rfl

theorem about_of_mem_newRoles {r : Role} (h : r ∈ w.newRoles) : w.about = (.server, r.server) := by
  rw [eq_createRole_of_mem_newRoles h]
  rfl

/-- A member of a server that the write is not about stays as they are. -/
theorem onMember_of_about_ne {m : Member} (h : w.about ≠ (.server, m.server)) :
    w.onMember m = some m := by
  have hne : ∀ {server : Id}, w.about = (.server, server) → m.server ≠ server := by
    rintro _ hw rfl
    exact h hw
  cases w with
  | deleteRole server role => simp [onMember, hne rfl]
  | assignRole server user role => simp [onMember, hne rfl]
  | unassignRole server user role => simp [onMember, hne rfl]
  | removeMember server user => simp [onMember, hne rfl]
  | createRole | updateRole | moveRole | replaceOverrides => rfl

/-- A channel that the write is not about, nor about its server, stays as it is. -/
theorem onChannel_of_about_ne {c : Channel} (hs : ∀ server, c.server = some server →
    w.about ≠ (.server, server)) (hc : w.about ≠ (.channel, c.id)) : w.onChannel c = c := by
  have hne : ∀ {server : Id}, w.about = (.server, server) → c.server ≠ some server :=
    fun hw hcs => hs _ hcs hw
  cases w with
  | deleteRole server role => simp [onChannel, hne rfl]
  | removeMember server user => simp [onChannel, hne rfl]
  | replaceOverrides channel overrides =>
    have hid : c.id ≠ channel := by
      rintro rfl
      exact hc rfl
    simp [onChannel, hid]
  | createRole | updateRole | moveRole | assignRole | unassignRole => rfl

end Write

namespace Store

variable {s s' : Store} {server : Id} {w : Write}

theorem Concerns.about_ne (h : s.Concerns w server) {other : Id} (hne : other ≠ server) :
    w.about ≠ (.server, other) := by
  obtain hw | ⟨c, -, -, hw⟩ := h
  · rw [hw]
    simpa using hne.symm
  · rw [hw]
    simp

/-- A write keeps to the server that it concerns. -/
theorem agreeOutside_of_follows (h : s.Concerns w server) (hf : s.Follows w s') :
    s.AgreeOutside server s' where
  roles r hr := by
    constructor
    · intro hr'
      obtain ⟨q, hq, hon⟩ | hnew := hf.mem_roles.1 hr'
      · obtain ⟨-, hs, -⟩ := Write.onRole_eq_some hon
        rw [Write.onRole_of_about_ne (h.about_ne (hs ▸ hr))] at hon
        cases hon
        exact hq
      · exact absurd (Write.about_of_mem_newRoles hnew) (h.about_ne hr)
    · intro hrs
      exact hf.mem_roles.2 (.inl ⟨r, hrs, Write.onRole_of_about_ne (h.about_ne hr)⟩)
  members n hn := by
    constructor
    · intro hn'
      obtain ⟨q, hq, hon⟩ := hf.mem_members.1 hn'
      obtain ⟨-, hs, -⟩ := Write.onMember_eq_some hon
      rw [Write.onMember_of_about_ne (h.about_ne (hs ▸ hn))] at hon
      cases hon
      exact hq
    · intro hns
      exact hf.mem_members.2 ⟨n, hns, Write.onMember_of_about_ne (h.about_ne hn)⟩
  channels c hc := by
    have hsame : ∀ d ∈ s.channels, d.server ≠ some server → w.onChannel d = d := by
      intro d hd hds
      refine Write.onChannel_of_about_ne (fun other ho => h.about_ne ?_) ?_
      · rintro rfl
        exact hds ho
      · intro hw
        obtain hw' | ⟨b, hb, hbs, hw'⟩ := h
        · rw [hw] at hw'
          cases hw'
        · have hfound : s.findChannel d.id = some d := Table.get?_eq_some_iff.2 ⟨hd, rfl⟩
          rw [hw, Prod.mk.injEq] at hw'
          rw [← hw'.2, hfound] at hb
          cases hb
          exact hds hbs
    constructor
    · intro hc'
      obtain ⟨d, hd, rfl⟩ := hf.mem_channels.1 hc'
      rw [Write.server_onChannel] at hc
      rwa [hsame d hd hc]
    · intro hcs
      exact hf.mem_channels.2 ⟨c, hcs, hsame c hcs hc⟩

end Store

/-! ## Sanctions -/

/-- Whether the write creates, changes, moves, deletes, assigns or takes away a role. -/
def Write.managesRoles : Write → Bool
  | .createRole _ | .updateRole .. | .moveRole .. | .deleteRole .. | .assignRole ..
  | .unassignRole .. => true
  | .removeMember .. | .replaceOverrides .. => false

/-- The writes that a member can have made in their server, with the permission that each takes. -/
inductive Store.Sanctions (s : Store) (m : Member) : Write → Prop
  | manageRoles {w : Write}
      (roles : w.managesRoles = true)
      (server : w.about = (.server, m.server))
      (granted : s.Grants m .manageRoles none) :
      s.Sanctions m w
  | kickMember {user : Id}
      (granted : s.Grants m .kickMembers none) :
      s.Sanctions m (.removeMember m.server user)
  | manageChannel {c : Channel} {overrides : List Override}
      (channel : s.findChannel c.id = some c)
      (text : c.isDm = false)
      (server : c.server = some m.server)
      (granted : s.Grants m .manageChannel (some c)) :
      s.Sanctions m (.replaceOverrides c.id overrides)

namespace Store

variable {s : Store} {limits : Limits} {fresh user : Id} {m : Member} {w : Write}

theorem Sanctions.concerns (h : s.Sanctions m w) : s.Concerns w m.server := by
  cases h with
  | manageRoles roles server granted => exact .inl server
  | kickMember granted => exact .inl rfl
  | @manageChannel c overrides channel text server granted => exact .inr ⟨c, channel, server, rfl⟩

/-- Entitled are members of the server that is concerned, by the permission for the write. -/
theorem Entitles.sanctions (h : s.Entitles limits fresh user w) :
    ∃ m, s.findMember m.server user = some m ∧ s.Sanctions m w := by
  cases h with
  | @inServer m _ member permitted warranted =>
    have granted : s.Grants m w.permission none :=
      (grants_resolve_iff m.within_none).1 (PermissionSet.grants_iff.2 (.inr permitted))
    have habout := warranted.about
    rw [server_recordsOf] at habout
    refine ⟨m, member, ?_⟩
    cases warranted with
    | createRole | updateRole | moveRole | deleteRole | assignRole | unassignRole =>
      exact .manageRoles rfl habout granted
    | removeMember target above =>
      rw [server_recordsOf]
      exact .kickMember granted
  | @inChannel m c ds overrides channel text server member permitted normal keeps =>
    have granted : s.Grants m .manageChannel (some c) :=
      (grants_resolve_iff (Member.within_some text server)).1 permitted
    exact ⟨m, member, .manageChannel channel text server granted⟩

end Store

/-! ## Requests -/

namespace Service

open Store

variable {v : Service} {t : Moment} {r : Http.Request} {s : Store}

/-- A request that changes the store carries a valid token of a member of the server that it
changes, who owns the server or is granted there what the route requires. The path names the
server or the text channel that the change is about, and outside the server nothing changes. -/
theorem respond_mediated (h : (v.respond t r s).2 ≠ s) :
    ∃ user m endpoint spelled ps action w,
      r.Bears v.secret t.now user ∧
      Endpoint.find? r.path = some (endpoint, spelled) ∧
      Http.decodeParameters? spelled = some ps ∧
      endpoint.action? r.method = some action ∧
      action.Makes w ∧
      NamedBy ps w.about ∧
      s.findMember m.server user = some m ∧
      s.Sanctions m w ∧
      (v.respond t r s).2 = s.afterWrite w ∧
      s.AgreeOutside m.server (v.respond t r s).2 := by
  obtain hsame | ⟨user, endpoint, ps, action, w, receipt, hd, hc⟩ := v.respond_decides t r s
  · exact absurd hsame h
  · obtain ⟨spelled, hfind, hdecoded⟩ := hd.path
    obtain ⟨m, hm, hw⟩ := hd.entitled.sanctions
    have hafter : (v.respond t r s).2 = s.afterWrite w := by rw [afterWrite, hc]
    have hframe := agreeOutside_of_follows hw.concerns (commit_ok hc).2
    exact ⟨user, m, endpoint, spelled, ps, action, w, bears_of_authenticate hd.sender, hfind,
      hdecoded, hd.method, hd.makes, hd.named, hm, hw, hafter, hframe⟩

theorem respond_mediated_manager :
    (Example.service.respond Example.moment (Example.assignment 8) Example.store).2 ≠
        Example.store ∧
      ∃ user m endpoint spelled ps action w,
        (Example.assignment 8).Bears Example.service.secret Example.moment.now user ∧
        Endpoint.find? (Example.assignment 8).path = some (endpoint, spelled) ∧
        Http.decodeParameters? spelled = some ps ∧
        endpoint.action? (Example.assignment 8).method = some action ∧
        action.Makes w ∧
        NamedBy ps w.about ∧
        Example.store.findMember m.server user = some m ∧
        Example.store.Sanctions m w ∧
        (Example.service.respond Example.moment (Example.assignment 8) Example.store).2 =
          Example.store.afterWrite w ∧
        Example.store.AgreeOutside m.server
          (Example.service.respond Example.moment (Example.assignment 8) Example.store).2 := by
  have hchanged : (Example.service.respond Example.moment (Example.assignment 8)
      Example.store).2 ≠ Example.store := by
    rw [Example.respond_assignment]
    decide +kernel
  exact ⟨hchanged, respond_mediated hchanged⟩

end Service

end Guildhall
