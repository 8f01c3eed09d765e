-- SUMMARY: Servers are isolated: a request in one server changes nothing outside it and depends on nothing outside it.
import Guildhall.Proofs.Integrity
import Guildhall.Proofs.Mediation

/-!
# Isolation of servers

All servers share one store, and roles and channels are kept there by bare ids. Yet what happens in
a server neither reaches the records of others (`Store.AgreeOutside`) nor depends on them: two stores
that have the same records of the server (`Store.AgreeInside`) answer a request in it alike, and still
have the same records of it afterwards. What two stores share of a server, all look-ups for a request
share (`Store.AgreeInside.loadRecords_eq` and others), then the standing of its sender
(`Service.enter_congr`), its plan (`Action.plan_congr`), and the outcome of the write that is planned
(`Store.AgreeInside.commit_cases`).

In the channels of a server this takes that the server has one owner: of several, the store finds
any.
-/

namespace Guildhall

namespace Store

/-- Whether two stores have the same records of a server. -/
structure AgreeInside (s₁ : Store) (server : Id) (s₂ : Store) : Prop where
  roles : ∀ r, r.server = server → (r ∈ s₁.roles ↔ r ∈ s₂.roles)
  members : ∀ m, m.server = server → (m ∈ s₁.members ↔ m ∈ s₂.members)
  channels : ∀ c, c.server = some server → (c ∈ s₁.channels ↔ c ∈ s₂.channels)

/-- Whether the server is what a path names, or has the channel that it names. -/
def Encloses (s : Store) (server : Id) (scope : ScopeKind × Id) : Prop :=
  scope = (.server, server) ∨
    ∃ c, s.findChannel c.id = some c ∧ c.server = some server ∧ scope = (.channel, c.id)

/-- Two stores agree on a server if each has the records of it that the other has. -/
instance (s₁ : Store) (server : Id) (s₂ : Store) : Decidable (s₁.AgreeInside server s₂) :=
  decidable_of_iff
    (((∀ r ∈ s₁.roles, r.server = server → r ∈ s₂.roles) ∧
      ∀ r ∈ s₂.roles, r.server = server → r ∈ s₁.roles) ∧
    ((∀ m ∈ s₁.members, m.server = server → m ∈ s₂.members) ∧
      ∀ m ∈ s₂.members, m.server = server → m ∈ s₁.members) ∧
    (∀ c ∈ s₁.channels, c.server = some server → c ∈ s₂.channels) ∧
      ∀ c ∈ s₂.channels, c.server = some server → c ∈ s₁.channels)
    ⟨fun h => ⟨fun r hs => ⟨fun hr => h.1.1 r hr hs, fun hr => h.1.2 r hr hs⟩,
        fun m hs => ⟨fun hm => h.2.1.1 m hm hs, fun hm => h.2.1.2 m hm hs⟩,
        fun c hs => ⟨fun hc => h.2.2.1 c hc hs, fun hc => h.2.2.2 c hc hs⟩⟩,
      fun h => ⟨⟨fun r hr hs => (h.roles r hs).1 hr, fun r hr hs => (h.roles r hs).2 hr⟩,
        ⟨fun m hm hs => (h.members m hs).1 hm, fun m hm hs => (h.members m hs).2 hm⟩,
        fun c hc hs => (h.channels c hs).1 hc, fun c hc hs => (h.channels c hs).2 hc⟩⟩

variable {s s₁ s₂ s₁' s₂' : Store} {server user id : Id} {w : Write}

/-! ## Look-ups -/

theorem AgreeOutside.refl (s : Store) (server : Id) : s.AgreeOutside server s :=
  ⟨fun _ _ => .rfl, fun _ _ => .rfl, fun _ _ => .rfl⟩

theorem AgreeInside.findMember_eq (h : s₁.AgreeInside server s₂) (user : Id) :
    s₁.findMember server user = s₂.findMember server user := by
  ext m
  rw [findMember_eq_some, findMember_eq_some]
  exact and_congr_left fun hm => h.members m hm.1

theorem AgreeInside.findRole_eq (h : s₁.AgreeInside server s₂) (id : Id) :
    s₁.findRole server id = s₂.findRole server id := by
  ext r
  rw [findRole_eq_some, findRole_eq_some]
  exact and_congr_left fun hr => h.roles r hr.1

theorem AgreeInside.findChannel_eq (h : s₁.AgreeInside server s₂) {c : Channel}
    (hc : s₁.findChannel c.id = some c) (hs : c.server = some server) :
    s₂.findChannel c.id = some c := by
  obtain ⟨hmem, -⟩ := Table.get?_eq_some_iff.1 hc
  exact Table.get?_eq_some_iff.2 ⟨(h.channels c hs).1 hmem, rfl⟩

theorem AgreeInside.findOwner_eq (h : s₁.AgreeInside server s₂) (hone : s₁.OneOwnerOf server) :
    s₁.findOwner server = s₂.findOwner server := by
  have hone' : s₂.OneOwnerOf server := fun m hm n hn hms hns ho hno =>
    hone m ((h.members m hms).2 hm) n ((h.members n hns).2 hn) hms hns ho hno
  ext m
  rw [hone.findOwner_eq_some, hone'.findOwner_eq_some]
  exact and_congr_left fun hm => h.members m hm.1

/-! ## The roles of a server in order -/

theorem pairwise_sortBy_rankLe (rs : List Role) :
    (sortBy (fun r q => q.rankLe r) rs).Pairwise fun r q => q.rankLe r = true :=
  sortBy_pairwise (fun r q => Role.rankLe_total q r)
    (fun r q p h₁ h₂ => Role.rankLe_trans p q r h₂ h₁) rs

theorem pairwise_serverRoles (s : Store) (server : Id) :
    (s.serverRoles server).Pairwise fun r q => q.rankLe r = true :=
  pairwise_sortBy_rankLe _

/-- A list that has each role of the server once, the highest ranked first, is the list that the store
shows. -/
theorem eq_serverRoles {rs : List Role} (hnodup : rs.Nodup)
    (hdescending : rs.Pairwise fun r q => q.rankLe r = true)
    (hmem : ∀ r, r ∈ rs ↔ r ∈ s.roles ∧ r.server = server) : rs = s.serverRoles server := by
  have hperm : rs.Perm (s.serverRoles server) := by
    rw [List.perm_ext_iff_of_nodup hnodup (nodup_serverRoles s server)]
    intro r
    rw [hmem, mem_serverRoles]
  refine hperm.eq_of_pairwise ?_ hdescending (pairwise_serverRoles s server)
  intro r q hr hq h₁ h₂
  exact eq_of_id_eq ((hmem r).1 hr).1 (mem_serverRoles.1 hq).1 (Role.id_eq_of_rankLe h₂ h₁)

/-- The order of the roles is fixed by the roles, not by where the store keeps them. -/
theorem AgreeInside.serverRoles_eq (h : s₁.AgreeInside server s₂) :
    s₁.serverRoles server = s₂.serverRoles server := by
  refine eq_serverRoles (nodup_serverRoles s₁ server) (pairwise_serverRoles s₁ server) fun r => ?_
  rw [mem_serverRoles]
  exact and_congr_left fun hs => h.roles r hs

/-! ## Standings -/

theorem AgreeInside.loadRecords_eq (h : s₁.AgreeInside server s₂) (user : Id) :
    s₁.loadRecords server user = s₂.loadRecords server user := by
  simp only [loadRecords, h.findMember_eq, h.serverRoles_eq]

theorem AgreeInside.loadServerAccess_eq (h : s₁.AgreeInside server s₂) (user : Id) :
    s₁.loadServerAccess user server = s₂.loadServerAccess user server := by
  simp only [loadServerAccess, h.loadRecords_eq]

theorem AgreeInside.loadChannelAccess_eq (h : s₁.AgreeInside server s₂) {c : Channel}
    (hc : s₁.findChannel c.id = some c) (hs : c.server = some server) (user : Id)
    (routeServer : Option Id) :
    s₁.loadChannelAccess user c.id routeServer = s₂.loadChannelAccess user c.id routeServer := by
  simp only [loadChannelAccess, hc, h.findChannel_eq hc hs, hs, h.loadRecords_eq]

end Store

namespace Gate

variable {s₁ s₂ : Store} {server user : Id} {g : Gate} {ps : Http.Parameters}
  {scope : ScopeKind × Id}

/-- The standing where a path points to in a server rests on the records of the server. -/
theorem load_congr (h : s₁.AgreeInside server s₂) (hscope : s₁.Encloses server scope)
    (hk : g.kind = scope.1) (hn : NamedBy ps scope) : g.load ps user s₁ = g.load ps user s₂ := by
  obtain rfl | ⟨c, hc, hs, rfl⟩ := hscope
  · have hserver : neededPathId ps "server_id" = .ok server := neededPathId_eq_ok.2 hn
    simp only [load, hk, hserver]
    exact h.loadServerAccess_eq user
  · have hchannel : neededPathId ps "channel_id" = .ok c.id := neededPathId_eq_ok.2 hn
    simp only [load, hk, hchannel]
    refine congrArg (pathId ps "server_id" >>= ·) (funext fun routeServer => ?_)
    exact h.loadChannelAccess_eq hc hs user routeServer

/-- In a server, the records that are loaded are those of the server. -/
theorem server_of_load {a : Access} (hscope : s₁.Encloses server scope) (hk : g.kind = scope.1)
    (hn : NamedBy ps scope) (h : g.load ps user s₁ = .ok a) {records : ServerRecords}
    (hr : a.records? = some records) : records.server = server := by
  obtain rfl | ⟨c, hc, hs, rfl⟩ := hscope
  · obtain ⟨m, hnamed, -, rfl⟩ := load_server hk h
    cases hr
    rw [Store.server_recordsOf]
    exact Option.some.inj (hnamed.symm.trans hn)
  · obtain ⟨d, hdm⟩ | ⟨d, m, hnamed, hd, -, hds, -, rfl⟩ := load_channel hk h
    · simp [Access.records?, hdm] at hr
    · cases hr
      have hid : d.id = c.id := Option.some.inj (hnamed.symm.trans hn)
      rw [hid, hc] at hd
      cases hd
      rw [Store.server_recordsOf]
      exact Option.some.inj (hds.symm.trans hs)

/-- Standings in a text channel are loaded where a path points to a channel. -/
theorem kind_of_load {a : Access} (h : g.load ps user s₁ = .ok a) {c : Channel}
    {records : ServerRecords} (hs : a.scope = .channel c records) : g.kind = .channel := by
  cases hk : g.kind with
  | channel => rfl
  | server =>
    obtain ⟨m, -, -, rfl⟩ := load_server hk h
    cases hs

end Gate

/-! ## Plans -/

section

variable {s₁ s₂ : Store} {server : Id} {action : Action} {limits : Limits} {a : Access}
  {ps : Http.Parameters} {r : Http.Request} {fresh : Id}

private theorem targetMember_congr (h : s₁.AgreeInside server s₂) {records : ServerRecords}
    (hr : records.server = server) (user : Id) :
    targetMember s₁ records.server user = targetMember s₂ records.server user := by
  rw [hr, targetMember, targetMember, h.findMember_eq]

private theorem serverRecords_bind_congr {α : Type} {f g : ServerRecords → Except Refusal α}
    (h : ∀ records, a.serverRecords = .ok records → f records = g records) :
    (a.serverRecords >>= f) = (a.serverRecords >>= g) := by
  cases hr : a.serverRecords with
  | error why => rfl
  | ok records => exact h records hr

/-- What an action in a server plans rests on the records of the server. -/
theorem Action.plan_congr (h : s₁.AgreeInside server s₂)
    (hrecords : ∀ {records}, a.records? = some records → records.server = server)
    (howner : ∀ c records, a.scope = .channel c records → s₁.OneOwnerOf server) :
    action.plan limits a ps r fresh s₁ = action.plan limits a ps r fresh s₂ := by
  have hserver : ∀ {records}, a.serverRecords = .ok records → records.server = server := by
    intro records hr
    unfold Access.serverRecords at hr
    split at hr
    · cases hr
      exact hrecords (by assumption)
    · cases hr
  cases action with
  | showPermissions | listOverrides | listRoles | createRole | updateRole | moveRole | deleteRole =>
    rfl
  | replaceOverrides =>
    have hplan : ∀ drafts, planOverrides limits a s₁ drafts = planOverrides limits a s₂ drafts := by
      intro drafts
      unfold planOverrides
      split
      · rfl
      · rfl
      · rename_i c records hs
        have hr : records.server = server := hrecords (by simp [Access.records?, hs])
        simp only [ServerRecords.overrideRules, hr, h.findOwner_eq (howner c records hs)]
    simp only [Action.plan, hplan]
  | assignRole =>
    have hplan : ∀ user role, planAssign a s₁ user role = planAssign a s₂ user role :=
      fun user role => serverRecords_bind_congr fun records hr => by
        simp only [checkAssignable, targetMember_congr h (hserver hr)]
    simp only [Action.plan, hplan]
  | unassignRole =>
    have hplan : ∀ user role, planUnassign a s₁ user role = planUnassign a s₂ user role :=
      fun user role => serverRecords_bind_congr fun records hr => by
        simp only [checkAssignable, targetMember_congr h (hserver hr)]
    simp only [Action.plan, hplan]
  | removeMember =>
    have hplan : ∀ user, planRemove a s₁ user = planRemove a s₂ user :=
      fun user => serverRecords_bind_congr fun records hr => by
        simp only [targetMember_congr h (hserver hr)]
    simp only [Action.plan, hplan]

end

/-! ## Writes -/

namespace Store

variable {s₁ s₂ s₁' s₂' : Store} {server : Id} {w : Write}

/-- What the same write makes of the records of a server. -/
theorem AgreeInside.of_follows (h : s₁.AgreeInside server s₂) (h₁ : s₁.Follows w s₁')
    (h₂ : s₂.Follows w s₂') : s₁'.AgreeInside server s₂' where
  roles r hs := by
    rw [h₁.mem_roles, h₂.mem_roles]
    refine or_congr_left (exists_congr fun q => and_congr_left fun hon => h.roles q ?_)
    exact (Write.onRole_eq_some hon).2.1.symm.trans hs
  members m hs := by
    rw [h₁.mem_members, h₂.mem_members]
    refine exists_congr fun n => and_congr_left fun hon => h.members n ?_
    exact (Write.onMember_eq_some hon).2.1.symm.trans hs
  channels c hs := by
    rw [h₁.mem_channels, h₂.mem_channels]
    refine exists_congr fun d => and_congr_left fun hon => h.channels d ?_
    rw [← w.server_onChannel d, hon, hs]

/-- Whether a write succeeds and what it is answered with rests on the records of the server, but for
the ids of roles that are taken. -/
theorem AgreeInside.receipt_eq (h : s₁.AgreeInside server s₂) (hw : s₁.Encloses server w.about)
    (hfree : ∀ r, w = .createRole r → s₁.roles.get? r.id = none ∧ s₂.roles.get? r.id = none) :
    (s₁.commit w).map Prod.fst = (s₂.commit w).map Prod.fst := by
  obtain hw | ⟨c, hc, hs, hw⟩ := hw
  · cases w with
    | createRole r =>
      cases hw
      obtain ⟨hfree₁, hfree₂⟩ := hfree r rfl
      have hany : s₁.roles.toList.any (fun q => q.server == r.server && q.isDefault) =
          s₂.roles.toList.any (fun q => q.server == r.server && q.isDefault) := by
        rw [Bool.eq_iff_iff, List.any_eq_true, List.any_eq_true]
        refine exists_congr fun q => and_congr_left fun hq => h.roles q ?_
        simp only [Bool.and_eq_true, beq_iff_eq] at hq
        exact hq.1
      simp only [commit, createRole, hfree₁, hfree₂, hany]
      split
      · rfl
      · split <;> rfl
    | updateRole sv id patch =>
      cases hw
      simp only [commit, updateRole, h.findRole_eq]
      split <;> rfl
    | moveRole sv id expected position =>
      cases hw
      simp only [commit, moveRole, h.findRole_eq]
      split
      · rfl
      · split <;> rfl
    | deleteRole sv id =>
      cases hw
      simp only [commit, deleteRole, h.findRole_eq]
      split
      · rfl
      · split <;> rfl
    | assignRole sv user id =>
      cases hw
      simp only [commit, assignRole, h.findRole_eq, h.findMember_eq]
      split
      · rfl
      · split
        · rfl
        · split <;> rfl
    | unassignRole sv user id =>
      cases hw
      simp only [commit, unassignRole, h.findMember_eq]
      split <;> rfl
    | removeMember sv user =>
      cases hw
      simp only [commit, removeMember, h.findMember_eq]
      split <;> rfl
    | replaceOverrides id os => cases hw
  · cases w with
    | replaceOverrides id os =>
      obtain rfl : id = c.id := congrArg Prod.snd hw
      simp only [commit, replaceOverrides, hc, h.findChannel_eq hc hs]
      rfl
    | createRole | updateRole | moveRole | deleteRole | assignRole | unassignRole | removeMember =>
      cases hw

/-- A write in a server is refused by both stores alike, or made by both. -/
theorem AgreeInside.commit_cases (h : s₁.AgreeInside server s₂) (hw : s₁.Encloses server w.about)
    (hfree : ∀ r, w = .createRole r → s₁.roles.get? r.id = none ∧ s₂.roles.get? r.id = none) :
    (∃ why, s₁.commit w = .error why ∧ s₂.commit w = .error why) ∨
      ∃ receipt s₁' s₂', s₁.commit w = .ok (receipt, s₁') ∧ s₂.commit w = .ok (receipt, s₂') ∧
        s₁'.AgreeInside server s₂' := by
  have hreceipt := h.receipt_eq hw hfree
  cases h₁ : s₁.commit w with
  | error why =>
    cases h₂ : s₂.commit w with
    | error why' =>
      rw [h₁, h₂] at hreceipt
      cases hreceipt
      exact .inl ⟨why, rfl, rfl⟩
    | ok done =>
      rw [h₁, h₂] at hreceipt
      cases hreceipt
  | ok done =>
    cases h₂ : s₂.commit w with
    | error why' =>
      rw [h₁, h₂] at hreceipt
      cases hreceipt
    | ok done' =>
      obtain ⟨receipt, s₁'⟩ := done
      obtain ⟨receipt', s₂'⟩ := done'
      rw [h₁, h₂] at hreceipt
      cases hreceipt
      exact .inr ⟨receipt, s₁', s₂', rfl, rfl, h.of_follows (commit_ok h₁).2 (commit_ok h₂).2⟩

end Store

/-! ## Requests -/

/-- Whether a path leads to an endpoint of servers or of channels and names one of them. -/
def Http.Request.Addresses (r : Http.Request) (scope : ScopeKind × Id) : Prop :=
  ∃ endpoint spelled, Endpoint.find? r.path = some (endpoint, spelled) ∧
    endpoint.scopeKind = scope.1 ∧
    ((Http.parameter? spelled scope.1.parameter).bind Http.decodeSegment?).bind Id.ofString? =
      some scope.2

/-- A parameter of a path is decoded by itself. -/
theorem Http.parameter?_decodeParameters? {ps decoded : Http.Parameters}
    (h : Http.decodeParameters? ps = some decoded) (name : String) :
    Http.parameter? decoded name = (Http.parameter? ps name).bind Http.decodeSegment? := by
  unfold Http.decodeParameters? at h
  induction ps generalizing decoded with
  | nil =>
    cases h
    rfl
  | cons p ps ih =>
    obtain ⟨key, value⟩ := p
    simp only [List.mapM_cons, Option.bind_eq_bind, Option.bind_eq_some_iff, Option.map_eq_some_iff,
      Option.pure_def, Option.some.injEq] at h
    obtain ⟨_, ⟨text, htext, rfl⟩, rest, hrest, rfl⟩ := h
    by_cases hkey : key = name
    · simp [Http.parameter?, hkey, htext]
    · simpa [Http.parameter?, hkey] using ih hrest

theorem Http.Request.Addresses.named {r : Http.Request} {scope : ScopeKind × Id}
    (h : r.Addresses scope) {endpoint : Endpoint} {spelled decoded : Http.Parameters}
    (hf : Endpoint.find? r.path = some (endpoint, spelled))
    (hd : Http.decodeParameters? spelled = some decoded) :
    endpoint.scopeKind = scope.1 ∧ NamedBy decoded scope := by
  obtain ⟨_, _, hf', hk, hid⟩ := h
  cases hf.symm.trans hf'
  exact ⟨hk, by rw [NamedBy, Http.parameter?_decodeParameters? hd, hid]⟩

/-- A path that names a server or a channel addresses it. -/
theorem Http.Request.addresses_of_named {r : Http.Request} {endpoint : Endpoint}
    {spelled decoded : Http.Parameters} {id : Id}
    (hf : Endpoint.find? r.path = some (endpoint, spelled))
    (hd : Http.decodeParameters? spelled = some decoded)
    (hn : NamedBy decoded (endpoint.scopeKind, id)) : r.Addresses (endpoint.scopeKind, id) :=
  ⟨endpoint, spelled, hf, rfl, by rwa [← Http.parameter?_decodeParameters? hd]⟩

/-- A write is about what the paths of its endpoint name. -/
theorem Action.Makes.about {endpoint : Endpoint} {method : String} {action : Action} {w : Write}
    (h : action.Makes w) (ha : endpoint.action? method = some action) :
    w.about.1 = endpoint.scopeKind := by
  cases hk : endpoint.scopeKind with
  | channel =>
    obtain rfl | rfl | rfl := Endpoint.action_of_channel hk ha
    all_goals cases h
    rfl
  | server =>
    have hserver : ∀ e : Endpoint, e.scopeKind = .server →
        ∀ p ∈ e.actions, p.2 ≠ .replaceOverrides := by
      intro e
      cases e <;> decide
    obtain ⟨p, hf, hp⟩ := Option.map_eq_some_iff.1 ha
    have hne := hserver endpoint hk p (List.mem_of_find?_eq_some hf)
    cases h with
    | replaceOverrides => exact absurd hp hne
    | createRole | updateRole | moveRole | deleteRole | assignRole | unassignRole | removeMember => rfl

/-! ## An example -/

namespace Example

/-- Besides server 1 a server 2 that the newcomer owns, with a role that outranks all others and a
channel that bars user 7. -/
def crowded : Store :=
  .ofLists
    ([⟨60, 2, "warden", none, 9, .full, false⟩] ++ store.roles.toList)
    ([⟨8, 2, [60], true⟩, ⟨7, 2, [], false⟩] ++ store.members.toList)
    [⟨50, some 2, .text, none, [], [⟨.member 7, ∅, .full⟩]⟩]

end Example

/-! ## Responses -/

namespace Service

open Store

variable {v : Service} {t : Moment} {r : Http.Request} {s s₁ s₂ : Store} {server user : Id}
  {endpoint : Endpoint} {spelled ps : Http.Parameters} {action : Action} {w : Write}
  {scope : ScopeKind × Id}

theorem DecidesOn.about_eq (h : v.DecidesOn t r s user endpoint ps action w)
    (hr : r.Addresses scope) : w.about = scope := by
  obtain ⟨spelled, hf, hd⟩ := h.path
  obtain ⟨hk, hn⟩ := hr.named hf hd
  have hkind : w.about.1 = scope.1 := (h.makes.about h.method).trans hk
  have hnamed := h.named
  rw [NamedBy, hkind, hn] at hnamed
  exact Prod.ext hkind (Option.some.inj hnamed.symm)

/-- Two stores let the sender of a request in alike, if they have the same standing for everybody where
its path points to. -/
theorem enter_congr_of_load {now : Int}
    (h : ∀ decoded user, Http.decodeParameters? spelled = some decoded →
      (endpoint.gate action).load decoded user s₁ = (endpoint.gate action).load decoded user s₂) :
    v.enter now r endpoint spelled action s₁ = v.enter now r endpoint spelled action s₂ := by
  have hlet : ∀ user, (endpoint.gate action).letIn spelled (some user) s₁ =
      (endpoint.gate action).letIn spelled (some user) s₂ := by
    intro user
    unfold Gate.letIn
    cases hd : Http.decodeParameters? spelled with
    | none => rfl
    | some decoded => simp only [Gate.enter, h decoded user hd]
  simp only [enter, hlet]

/-- Who is let in to a server, and as what, rests on the records of the server. -/
theorem enter_congr {now : Int} (h : s₁.AgreeInside server s₂) (hscope : s₁.Encloses server scope)
    (hr : r.Addresses scope) (hf : Endpoint.find? r.path = some (endpoint, spelled)) :
    v.enter now r endpoint spelled action s₁ = v.enter now r endpoint spelled action s₂ := by
  apply enter_congr_of_load
  intro decoded user hd
  obtain ⟨hk, hn⟩ := hr.named hf hd
  exact Gate.load_congr h hscope hk hn

/-- A request in a server leaves all records outside it as they are. -/
theorem agreeOutside_respond (hr : r.Addresses scope) (hscope : s.Encloses server scope) :
    s.AgreeOutside server (v.respond t r s).2 := by
  obtain hsame | ⟨user, endpoint, ps, action, w, receipt, hd, hc⟩ := v.respond_decides t r s
  · exact hsame.symm ▸ .refl s server
  · have hconcerns : s.Concerns w server := by
      rw [Concerns, hd.about_eq hr]
      exact hscope
    exact agreeOutside_of_follows hconcerns (commit_ok hc).2

/-- What a request in a server comes to rests on the records of the server. -/
theorem act_congr (h : s₁.AgreeInside server s₂) (hscope : s₁.Encloses server scope)
    (howner : scope.1 = .channel → s₁.OneOwnerOf server)
    (hfree : s₁.roles.get? t.fresh = none ∧ s₂.roles.get? t.fresh = none) (hr : r.Addresses scope)
    (hf : Endpoint.find? r.path = some (endpoint, spelled))
    (ha : endpoint.action? r.method = some action) :
    (v.act t r endpoint spelled action s₁).1 = (v.act t r endpoint spelled action s₂).1 ∧
      (v.act t r endpoint spelled action s₁).2.AgreeInside server
        (v.act t r endpoint spelled action s₂).2 := by
  have henter : v.enter t.now r endpoint spelled action s₁ =
      v.enter t.now r endpoint spelled action s₂ := enter_congr h hscope hr hf
  cases he : v.enter t.now r endpoint spelled action s₁ with
  | error why =>
    rw [act, act, ← henter, he]
    exact ⟨rfl, h⟩
  | ok entry =>
    rw [act_of_enter he, act_of_enter (henter.symm.trans he)]
    obtain ⟨user, hauth, rfl, hd, hload, hreq⟩ := enter_eq_ok he
    obtain ⟨hk, hn⟩ := hr.named hf hd
    have hplan : entry.action.plan v.limits entry.access entry.parameters r t.fresh s₁ =
        entry.action.plan v.limits entry.access entry.parameters r t.fresh s₂ := by
      apply Action.plan_congr h
      · exact Gate.server_of_load hscope hk hn hload
      · intro c records hs
        exact howner (hk.symm.trans (Gate.kind_of_load hload hs))
    cases hp : entry.action.plan v.limits entry.access entry.parameters r t.fresh s₁ with
    | error why =>
      rw [perform, perform, ← hplan, hp]
      exact ⟨rfl, h⟩
    | ok plan =>
      have hp₂ := hplan.symm.trans hp
      cases plan with
      | answer body =>
        rw [perform_of_answer hp, perform_of_answer hp₂]
        exact ⟨rfl, h⟩
      | commit w =>
        have hplans : v.Plans t r s₁ user endpoint entry w :=
          ⟨hauth, ⟨spelled, hf, hd⟩, ha, hload, hreq, hp⟩
        have hw : s₁.Encloses server w.about := hplans.decides.about_eq hr ▸ hscope
        have hfresh : ∀ role, w = .createRole role →
            s₁.roles.get? role.id = none ∧ s₂.roles.get? role.id = none := by
          intro role hrole
          rwa [(hplans.decides.entitled.of_createRole hrole).1]
        obtain ⟨why, hc₁, hc₂⟩ | ⟨receipt, s₁', s₂', hc₁, hc₂, h'⟩ := h.commit_cases hw hfresh
        · simp only [perform, hp, hp₂, hc₁, hc₂]
          exact ⟨trivial, h⟩
        · rw [perform_of_commit hp hc₁, perform_of_commit hp₂ hc₂]
          exact ⟨rfl, h'⟩

/-- Servers are isolated. A request that names a server in its path, or a channel of the server,
leaves all records outside the server as they are. And two stores that have the same records of the
server answer it alike and have the same records of the server afterwards, if the id that a new role
would get is free in both, and for requests in a channel, if the server has one owner. -/
theorem respond_isolated (v : Service) (t : Moment) (hr : r.Addresses scope) :
    (∀ s : Store, s.Encloses server scope → s.AgreeOutside server (v.respond t r s).2) ∧
    ∀ s₁ s₂ : Store, s₁.AgreeInside server s₂ → s₁.Encloses server scope →
      (scope.1 = .channel → s₁.OneOwnerOf server) →
      s₁.roles.get? t.fresh = none → s₂.roles.get? t.fresh = none →
      (v.respond t r s₁).1 = (v.respond t r s₂).1 ∧
        (v.respond t r s₁).2.AgreeInside server (v.respond t r s₂).2 := by
  refine ⟨fun s hscope => agreeOutside_respond hr hscope, ?_⟩
  intro s₁ s₂ h hscope howner hfree₁ hfree₂
  obtain ⟨answer, hinert⟩ | ⟨endpoint, spelled, action, hf, ha⟩ := v.respond_inert_or_acts t r
  · rw [hinert, hinert]
    exact ⟨rfl, h⟩
  · obtain ⟨hanswer, hafter⟩ := act_congr (v := v) h hscope howner ⟨hfree₁, hfree₂⟩ hr hf ha
    rw [respond_of_action hf ha, respond_of_action hf ha, hanswer]
    exact ⟨rfl, hafter⟩

theorem respond_isolated_crowded :
    (Example.assignment 8).Addresses (.server, 1) ∧
      Example.store.AgreeInside 1 Example.crowded ∧
      Example.crowded.AgreeOutside 1
        (Example.service.respond Example.moment (Example.assignment 8) Example.crowded).2 ∧
      (Example.service.respond Example.moment (Example.assignment 8) Example.store).1 =
        (Example.service.respond Example.moment (Example.assignment 8) Example.crowded).1 ∧
      (Example.service.respond Example.moment (Example.assignment 8) Example.store).2.AgreeInside 1
        (Example.service.respond Example.moment (Example.assignment 8) Example.crowded).2 := by
  have haddresses : (Example.assignment 8).Addresses (.server, 1) := by
    refine ⟨.memberRole, [("server_id", (1 : Id).text), ("user_id", (8 : Id).text),
      ("role_id", (30 : Id).text)], ?_, rfl, ?_⟩
    all_goals decide +kernel
  have hagree : Example.store.AgreeInside 1 Example.crowded := by decide +kernel
  have hfree : Example.store.roles.get? Example.moment.fresh = none := by decide +kernel
  have hfree' : Example.crowded.roles.get? Example.moment.fresh = none := by decide +kernel
  obtain ⟨hframe, htwo⟩ := respond_isolated Example.service Example.moment haddresses
  exact ⟨haddresses, hagree, hframe _ (.inl rfl),
    htwo _ _ hagree (.inl rfl) (fun h => by cases h) hfree hfree'⟩

end Service

end Guildhall
