-- SUMMARY: What no run of requests moves: default roles and their place, owners, and what channels are.
import Guildhall.Proofs.Enforcement
import Mathlib.Data.Set.Basic

/-!
# Anchors

Some records a server is built on, and requests leave them where they are. Of a default role
they change the colour and the permissions at most, of a member who stays the roles, of a channel
the overrides; the rest of such a record is its anchor. `Store.KeepsAnchors` says that no anchor of
a default role, an owner or a channel comes or goes, and that nobody joins.

That the default role of a server stays below all other roles takes more: the place of a new or
moved role is at least one, or above all others. Only above the highest position there is no place
left, so a run must not ask for one there (`Service.LeavesRoom`).
-/

namespace Guildhall

/-- The role without what requests change of a default role. -/
def Role.anchor (r : Role) : Role := { r with color := none, permissions := ∅ }

theorem Role.eq_of_anchor_eq {r q : Role} (h : r.anchor = q.anchor) :
    r.id = q.id ∧ r.server = q.server ∧ r.position = q.position := by
  simp only [Role.anchor, Role.mk.injEq] at h
  exact ⟨h.1, h.2.1, h.2.2.2.2.1⟩

/-- The member without what requests change of a member who stays. -/
def Member.anchor (m : Member) : Member := { m with roles := [] }

/-- The channel without what requests change of a channel. -/
def Channel.anchor (c : Channel) : Channel := { c with overrides := [] }

namespace Store

variable {s s' s₁ s₂ s₃ : Store}

/-- The anchors of all default roles. -/
def defaults (s : Store) : Set Role := {a | ∃ r ∈ s.roles, r.isDefault = true ∧ r.anchor = a}

/-- The anchors of all owners. -/
def owners (s : Store) : Set Member := {a | ∃ m ∈ s.members, m.isOwner = true ∧ m.anchor = a}

/-- The anchors of all members. -/
def people (s : Store) : Set Member := {a | ∃ m ∈ s.members, m.anchor = a}

/-- The anchors of all channels. -/
def places (s : Store) : Set Channel := {a | ∃ c ∈ s.channels, c.anchor = a}

/-- Whether the second store has the default roles, owners and channels of the first, in their
place, and no other members. -/
structure KeepsAnchors (s s' : Store) : Prop where
  defaults : s'.defaults = s.defaults
  owners : s'.owners = s.owners
  members : s'.people ⊆ s.people
  channels : s'.places = s.places

theorem KeepsAnchors.refl (s : Store) : s.KeepsAnchors s := ⟨rfl, rfl, subset_rfl, rfl⟩

theorem KeepsAnchors.trans (h₁ : s₁.KeepsAnchors s₂) (h₂ : s₂.KeepsAnchors s₃) :
    s₁.KeepsAnchors s₃ where
  defaults := h₂.defaults.trans h₁.defaults
  owners := h₂.owners.trans h₁.owners
  members := h₂.members.trans h₁.members
  channels := h₂.channels.trans h₁.channels

end Store

/-! ## Single writes -/

namespace Write

variable {w : Write}

theorem anchor_onMember {m m' : Member} (h : w.onMember m = some m') : m'.anchor = m.anchor := by
  obtain ⟨huser, hserver, howner⟩ := onMember_eq_some h
  simp [Member.anchor, huser, hserver, howner]

theorem anchor_onChannel (w : Write) (c : Channel) : (w.onChannel c).anchor = c.anchor := by
  rw [onChannel_eq]
  rfl

end Write

namespace Store

variable {s s' : Store} {limits : Limits} {fresh user server id : Id} {w : Write}

/-- A role that is found and assigned to members is no default role. -/
private theorem not_key_of_isDefault {m : Member} {r target : Role}
    (found : (s.recordsOf m).findRole id = some target) (assigned : target.isDefault = false)
    (hr : r ∈ s.roles) (hd : r.isDefault = true) :
    ¬ (r.server = (s.recordsOf m).server ∧ r.id = id) := by
  rintro ⟨-, hid⟩
  obtain rfl := eq_of_findRole_recordsOf found hr hid
  rw [hd] at assigned
  cases assigned

/-- Default roles are neither deleted, nor moved, nor renamed. -/
theorem onRole_of_isDefault (hw : s.Entitles limits fresh user w) {r : Role} (hr : r ∈ s.roles)
    (hd : r.isDefault = true) : ∃ r', w.onRole r = some r' ∧ r'.anchor = r.anchor := by
  cases hw with
  | inChannel => exact ⟨r, rfl, rfl⟩
  | @inServer m _ member permitted warranted =>
    cases warranted with
    | createRole | assignRole | unassignRole | removeMember => exact ⟨r, rfl, rfl⟩
    | @updateRole role target e fields found below name granted =>
      by_cases hkey : r.server = (s.recordsOf m).server ∧ r.id = role
      · obtain rfl := eq_of_findRole_recordsOf found hr hkey.2
        have hname : e.name = none := by
          cases he : e.name with
          | none => rfl
          | some n => simp [checkRename, he, hd] at name
        refine ⟨_, by simp only [Write.onRole, if_pos hkey]; rfl, ?_⟩
        simp [Role.patch, Role.anchor, hname]
      · exact ⟨r, by simp only [Write.onRole, if_neg hkey], rfl⟩
    | @moveRole role target move fields found assigned below stillBelow =>
      have hother := not_key_of_isDefault found assigned hr hd
      exact ⟨r, by simp only [Write.onRole, if_neg hother], rfl⟩
    | @deleteRole role target found assigned below =>
      have hother := not_key_of_isDefault found assigned hr hd
      exact ⟨r, by simp only [Write.onRole, if_neg hother], rfl⟩

/-- Nobody removes an owner. -/
theorem onMember_of_isOwner (hw : s.Entitles limits fresh user w) {m : Member}
    (hm : m ∈ s.members) (ho : m.isOwner = true) : ∃ m', w.onMember m = some m' := by
  cases hon : w.onMember m with
  | some m' => exact ⟨m', rfl⟩
  | none =>
    obtain ⟨-, -, hnot, -⟩ := outranksMember_of_onMember hw hm hon
    rw [ho] at hnot
    cases hnot

/-- A write that its sender is entitled to keeps all anchors. -/
theorem keepsAnchors_of_follows (hw : s.Entitles limits fresh user w) (hf : s.Follows w s') :
    s.KeepsAnchors s' where
  defaults := by
    ext a
    constructor
    · rintro ⟨r', hr', hd', rfl⟩
      obtain ⟨r, hr, hon⟩ | hnew := hf.mem_roles.1 hr'
      · obtain ⟨-, -, hd⟩ := Write.onRole_eq_some hon
        obtain ⟨q, hq, hanchor⟩ := onRole_of_isDefault hw hr (hd ▸ hd')
        rw [hon] at hq
        cases hq
        exact ⟨r, hr, hd ▸ hd', hanchor.symm⟩
      · rw [(hw.of_createRole (Write.eq_createRole_of_mem_newRoles hnew)).2.1] at hd'
        cases hd'
    · rintro ⟨r, hr, hd, rfl⟩
      obtain ⟨r', hon, hanchor⟩ := onRole_of_isDefault hw hr hd
      obtain ⟨-, -, hd'⟩ := Write.onRole_eq_some hon
      exact ⟨r', hf.mem_roles.2 (.inl ⟨r, hr, hon⟩), hd'.trans hd, hanchor⟩
  owners := by
    ext a
    constructor
    · rintro ⟨m', hm', ho', rfl⟩
      obtain ⟨m, hm, hon⟩ := hf.mem_members.1 hm'
      obtain ⟨-, -, ho⟩ := Write.onMember_eq_some hon
      exact ⟨m, hm, ho ▸ ho', (Write.anchor_onMember hon).symm⟩
    · rintro ⟨m, hm, ho, rfl⟩
      obtain ⟨m', hon⟩ := onMember_of_isOwner hw hm ho
      obtain ⟨-, -, ho'⟩ := Write.onMember_eq_some hon
      exact ⟨m', hf.mem_members.2 ⟨m, hm, hon⟩, ho'.trans ho, Write.anchor_onMember hon⟩
  members := by
    rintro a ⟨m', hm', rfl⟩
    obtain ⟨m, hm, hon⟩ := hf.mem_members.1 hm'
    exact ⟨m, hm, (Write.anchor_onMember hon).symm⟩
  channels := by
    ext a
    constructor
    · rintro ⟨c', hc', rfl⟩
      obtain ⟨c, hc, rfl⟩ := hf.mem_channels.1 hc'
      exact ⟨c, hc, (w.anchor_onChannel c).symm⟩
    · rintro ⟨c, hc, rfl⟩
      exact ⟨w.onChannel c, hf.mem_channels.2 ⟨c, hc, rfl⟩, w.anchor_onChannel c⟩

/-! ## Misconfiguration -/

/-- Whether a server is misconfigured, its anchors tell. -/
theorem misconfigured_iff_defaults {reason : String} : s.Misconfigured server reason ↔
    ((∀ a ∈ s.defaults, a.server ≠ server) ∧ reason = ServerRecords.noDefault) ∨
      ((∃ a ∈ s.defaults, ∃ b ∈ s.defaults, a ≠ b ∧ a.server = server ∧ b.server = server) ∧
        reason = ServerRecords.severalDefaults) := by
  refine or_congr (and_congr_left fun _ => ?_) (and_congr_left fun _ => ?_)
  · constructor
    · rintro hnone a ⟨r, hr, hd, rfl⟩ hserver
      rw [hnone r hr hserver] at hd
      cases hd
    · intro hnone r hr hserver
      cases hd : r.isDefault with
      | false => rfl
      | true => exact absurd hserver (hnone r.anchor ⟨r, hr, hd, rfl⟩)
  · constructor
    · rintro ⟨r, hr, q, hq, hne, ⟨hrs, hrd⟩, hqs, hqd⟩
      refine ⟨r.anchor, ⟨r, hr, hrd, rfl⟩, q.anchor, ⟨q, hq, hqd, rfl⟩, ?_, hrs, hqs⟩
      intro hanchor
      exact hne (eq_of_id_eq hr hq (Role.eq_of_anchor_eq hanchor).1)
    · rintro ⟨_, ⟨r, hr, hrd, rfl⟩, _, ⟨q, hq, hqd, rfl⟩, hne, hrs, hqs⟩
      refine ⟨r, hr, q, hq, ?_, ⟨hrs, hrd⟩, hqs, hqd⟩
      rintro rfl
      exact hne rfl

/-- Where the default roles keep their anchors, the one default role of a server stays the one. -/
theorem KeepsAnchors.onlyDefault (h : s.KeepsAnchors s') {e : Role} (he : s.OnlyDefault server e) :
    ∃ e', s'.OnlyDefault server e' ∧ e'.anchor = e.anchor := by
  obtain ⟨hes, hserver, hd⟩ := (he e).2 rfl
  obtain ⟨e', hes', hd', hanchor⟩ : e.anchor ∈ s'.defaults := h.defaults ▸ ⟨e, hes, hd, rfl⟩
  have hserver' : e'.server = server := (Role.eq_of_anchor_eq hanchor).2.1.trans hserver
  refine ⟨e', fun r => ⟨?_, ?_⟩, hanchor⟩
  · rintro ⟨hr, hrs, hrd⟩
    obtain ⟨q, hq, hqd, hqr⟩ : r.anchor ∈ s.defaults := h.defaults ▸ ⟨r, hr, hrd, rfl⟩
    obtain rfl : q = e := (he q).1 ⟨hq, (Role.eq_of_anchor_eq hqr).2.1.trans hrs, hqd⟩
    exact eq_of_id_eq hr hes' (Role.eq_of_anchor_eq (hqr.symm.trans hanchor.symm)).1
  · rintro rfl
    exact ⟨hes', hserver', hd'⟩

/-! ## The lowest place -/

/-- Whether the one default role of a server has that id and stands at zero or lower, below all other
roles of the server. -/
def AtBottom (s : Store) (server id : Id) : Prop :=
  ∃ e, s.OnlyDefault server e ∧ e.id = id ∧ e.position ≤ 0 ∧
    ∀ r ∈ s.roles, r.server = server → r ≠ e → e.position < r.position

/-- A role keeps its place, or gets one above zero. -/
theorem position_of_onRole (hw : s.Entitles limits fresh user w) {r r' : Role}
    (hon : w.onRole r = some r') : r'.position = r.position ∨ 1 ≤ r'.position := by
  cases hw with
  | inChannel =>
    cases hon
    exact .inl rfl
  | inServer member permitted warranted =>
    cases warranted with
    | createRole | assignRole | unassignRole | removeMember =>
      cases hon
      exact .inl rfl
    | updateRole =>
      simp only [Write.onRole, Option.some.injEq] at hon
      subst hon
      split <;> exact .inl rfl
    | moveRole fields =>
      simp only [Write.onRole, Option.some.injEq] at hon
      subst hon
      split
      · exact .inr (of_decide_eq_true (RoleMove.checkFields_eq_ok.1 fields))
      · exact .inl rfl
    | deleteRole =>
      simp only [Write.onRole] at hon
      split at hon
      · cases hon
      · cases hon
        exact .inl rfl

/-- A write keeps the default role at the bottom, if a role that it creates stands above zero or
above all others. -/
theorem AtBottom.of_follows (h : s.AtBottom server id) (hw : s.Entitles limits fresh user w)
    (hf : s.Follows w s') (hnew : ∀ role, w = .createRole role → role.server = server →
      1 ≤ role.position ∨ ∀ r ∈ s.roles, r.server = server → r.position < role.position) :
    s'.AtBottom server id := by
  obtain ⟨e, he, rfl, hzero, hbelow⟩ := h
  obtain ⟨hes, hserver, -⟩ := (he e).2 rfl
  obtain ⟨e', he', hanchor⟩ := (keepsAnchors_of_follows hw hf).onlyDefault he
  obtain ⟨hid, -, hposition⟩ := Role.eq_of_anchor_eq hanchor
  have hpositive : ∀ p : Int32, 1 ≤ p → e.position < p := fun p hp =>
    Int32.lt_of_le_of_lt hzero (Int32.lt_of_lt_of_le (by decide) hp)
  refine ⟨e', he', hid, hposition ▸ hzero, ?_⟩
  intro r' hr' hserver' hne
  rw [hposition]
  obtain ⟨r, hr, hon⟩ | hcreated := hf.mem_roles.1 hr'
  · obtain ⟨hrid, hrs, -⟩ := Write.onRole_eq_some hon
    have hother : r ≠ e := by
      rintro rfl
      exact hne (eq_of_id_eq hr' ((he' e').2 rfl).1 (hrid.trans hid.symm))
    obtain hsame | hone := position_of_onRole hw hon
    · exact hsame ▸ hbelow r hr (hrs ▸ hserver') hother
    · exact hpositive _ hone
  · obtain hone | habove := hnew r' (Write.eq_createRole_of_mem_newRoles hcreated) hserver'
    · exact hpositive _ hone
    · exact habove e hes hserver

end Store

/-! ## The next place -/

/-- Below the highest position there is a next one. -/
theorem toInt_succ_of_ne_max {p : Int32} (h : p ≠ Int32.maxValue) : (p + 1).toInt = p.toInt + 1 := by
  have hlt : p.toInt < 2 ^ 31 - 1 := by
    have hle := p.toInt_le
    have hne : p.toInt ≠ Int32.maxValue.toInt := fun he => h (Int32.toInt_inj.1 he)
    simp only [Int32.toInt_maxValue] at hle hne
    omega
  have hge := p.le_toInt
  rw [Int32.toInt_add, Int32.toInt_one, Int.bmod_eq_of_le (by omega) (by omega)]

/-- The next place follows the highest one that is taken. -/
theorem exists_top_of_ne_nil {roles : List Role} (h : roles ≠ []) :
    ∃ top ∈ roles, (∀ r ∈ roles, r.position ≤ top.position) ∧
      nextPosition roles = top.position + 1 := by
  unfold nextPosition
  split
  · rename_i hnil
    exact absurd (List.map_eq_nil_iff.1 hnil) h
  · rename_i p ps hcons
    have hle : ∀ q ∈ p :: ps, q ≤ ps.foldl max p := by
      intro q hq
      obtain rfl | hq := List.mem_cons.1 hq
      · exact le_foldl_max_iff.2 (.inl Int32.le_rfl)
      · exact le_foldl_max_iff.2 (.inr ⟨q, hq, Int32.le_rfl⟩)
    have hmem : ps.foldl max p ∈ p :: ps := by
      obtain hmax | ⟨q, hq, hmax⟩ := le_foldl_max_iff.1 (Int32.le_refl (ps.foldl max p))
      · have heq : ps.foldl max p = p := Int32.le_antisymm hmax (hle p List.mem_cons_self)
        exact List.mem_cons.2 (.inl heq)
      · have heq : ps.foldl max p = q := Int32.le_antisymm hmax (hle q (List.mem_cons_of_mem p hq))
        exact List.mem_cons_of_mem p (heq ▸ hq)
    rw [← hcons] at hle hmem
    obtain ⟨top, htop, heq⟩ := List.mem_map.1 hmem
    exact ⟨top, htop, fun r hr => heq ▸ hle _ (List.mem_map_of_mem hr), by rw [heq]⟩

/-- The next place is above all roles, if none stands at the highest position. -/
theorem lt_nextPosition {roles : List Role} (hroom : ∀ q ∈ roles, q.position ≠ Int32.maxValue)
    {r : Role} (hr : r ∈ roles) : r.position < nextPosition roles := by
  obtain ⟨top, htop, hle, hnext⟩ := exists_top_of_ne_nil (List.ne_nil_of_mem hr)
  have hle' := Int32.le_iff_toInt_le.1 (hle r hr)
  rw [hnext, Int32.lt_iff_toInt_lt, toInt_succ_of_ne_max (hroom top htop)]
  omega

/-! ## An example -/

namespace Example

/-- User 7 as the owner of server 1. -/
def owner : Member := ⟨7, 1, [], true⟩

/-- Server 1 with its owner, the default role at the bottom. -/
def freehold : Store :=
  .ofLists
    [⟨10, 1, "@everyone", none, 0, ∅, true⟩, ⟨30, 1, "guard", none, 3, ∅, false⟩] [owner] []

/-- The owner asks for a role without saying where. -/
def creation : Http.Request :=
  submission "POST" ["servers", (1 : Id).text, "roles"] "\x7b\"name\": \"warden\"\x7d"

/-- The role that the owner gets. -/
def warden : Role := ⟨40, 1, "warden", none, 4, ∅, false⟩

theorem find_creation :
    Endpoint.find? creation.path = some (.roles, [("server_id", (1 : Id).text)]) := by decide

theorem letIn_creation :
    (Endpoint.roles.gate .createRole).letIn [("server_id", (1 : Id).text)] (some 7) freehold =
      .ok (⟨7, .server (freehold.recordsOf owner)⟩, [("server_id", (1 : Id).text)]) := by
  decide

theorem respond_creation :
    (service.respond moment creation freehold).2 = freehold.afterWrite (.createRole warden) := by
  have hcommit : freehold.commit (.createRole warden) =
      .ok (.role warden, freehold.afterWrite (.createRole warden)) := by decide
  exact Service.respond_of_commit find_creation rfl (authenticate_submission _ _ _) letIn_creation
    (by decide +kernel) hcommit

end Example

/-! ## Requests -/

namespace Service

open Store

variable {v : Service} {t : Moment} {r : Http.Request} {s : Store} {server id : Id}
  {requests : List (Moment × Http.Request)}

/-- Whether a request creates a role of a server without saying where. -/
def CreatesUnplaced (v : Service) (t : Moment) (r : Http.Request) (s : Store) (server : Id) : Prop :=
  ∃ d role, readBody RoleDraft.codec r = .ok d ∧ d.position = none ∧
    role ∈ (v.respond t r s).2.roles ∧ role.server = server ∧ ∀ q ∈ s.roles, q.id ≠ role.id

/-- Whether no request of a run creates a role of the server without saying where, while a role of the
server stands at the highest position. -/
def LeavesRoom (v : Service) (server : Id) (s : Store) (requests : List (Moment × Http.Request)) :
    Prop :=
  ∀ before q rest, requests = before ++ q :: rest →
    v.CreatesUnplaced q.1 q.2 (v.after s before) server →
    ∀ r ∈ (v.after s before).roles, r.server = server → r.position ≠ Int32.maxValue

/-- A request keeps the default role at the bottom, if there is room for a role that it creates. -/
theorem atBottom_respond (h : s.AtBottom server id)
    (hroom : v.CreatesUnplaced t r s server →
      ∀ q ∈ s.roles, q.server = server → q.position ≠ Int32.maxValue) :
    (v.respond t r s).2.AtBottom server id := by
  obtain hsame | ⟨user, endpoint, entry, w, receipt, hplans, hc⟩ := v.respond_plans t r s
  · rwa [hsame]
  obtain ⟨hadmits, hf⟩ := commit_ok hc
  refine h.of_follows hplans.decides.entitled hf ?_
  rintro role rfl hserver
  obtain ⟨d, hread, hfields, -, hrole⟩ := hplans.exists_draft
  have hplace : role.position = d.position.getD (nextPosition (s.serverRoles role.server)) :=
    congrArg Role.position hrole
  rw [hplace, hserver]
  cases hd : d.position with
  | some p => exact .inl (of_decide_eq_true ((RoleDraft.checkFields_eq_ok.1 hfields).1 p hd))
  | none =>
    have hcreated : role ∈ (v.respond t r s).2.roles :=
      hf.mem_roles.2 (.inr (List.mem_singleton_self role))
    have hunplaced : v.CreatesUnplaced t r s server :=
      ⟨d, role, hread, hd, hcreated, hserver, hadmits.1⟩
    refine .inr fun q hq hqs => lt_nextPosition ?_ (mem_serverRoles.2 ⟨hq, hqs⟩)
    intro q' hq'
    obtain ⟨hq', hqs'⟩ := mem_serverRoles.1 hq'
    exact hroom hunplaced q' hq' hqs'

theorem atBottom_after (h : s.AtBottom server id) (hroom : v.LeavesRoom server s requests) :
    (v.after s requests).AtBottom server id := by
  induction requests generalizing s with
  | nil => exact h
  | cons q requests ih =>
    refine ih (s := (v.respond q.1 q.2 s).2) ?_ ?_
    · exact atBottom_respond h fun hunplaced => hroom [] q requests rfl hunplaced
    · intro before q' rest hsplit hunplaced
      exact hroom (q :: before) q' rest (congrArg (q :: ·) hsplit) hunplaced

theorem keepsAnchors_after (v : Service) (s : Store) (requests : List (Moment × Http.Request)) :
    s.KeepsAnchors (v.after s requests) := by
  refine after_keeps (I := s.KeepsAnchors) (v.sentBy_anyone requests) ?_ (.refl s)
  intro s₁ s₂ user fresh w hkept _ hw _ hf
  exact hkept.trans (keepsAnchors_of_follows hw hf)

/-- No run of requests, whoever sends them, moves an anchor: default roles and owners stay, with all
that does not change about them, channels neither come nor go nor change but for their overrides, and
nobody joins. So a server is misconfigured afterwards just if it was before. And where the default
role stands at the bottom of its server, it stays there, if no role is created without a place while
there is no room for it. -/
theorem anchors_after (v : Service) (s : Store) (requests : List (Moment × Http.Request)) :
    s.KeepsAnchors (v.after s requests) ∧
    (∀ server reason, (v.after s requests).Misconfigured server reason ↔
      s.Misconfigured server reason) ∧
    ∀ server id, s.AtBottom server id → v.LeavesRoom server s requests →
      (v.after s requests).AtBottom server id := by
  have hkept := keepsAnchors_after v s requests
  refine ⟨hkept, ?_, fun server id h hroom => atBottom_after h hroom⟩
  intro server reason
  rw [misconfigured_iff_defaults, misconfigured_iff_defaults, hkept.defaults]

theorem anchors_after_creation :
    Example.freehold.AtBottom 1 10 ∧
      Example.service.CreatesUnplaced Example.moment Example.creation Example.freehold 1 ∧
      Example.service.LeavesRoom 1 Example.freehold [(Example.moment, Example.creation)] ∧
      (Example.service.after Example.freehold [(Example.moment, Example.creation)]).AtBottom 1 10 := by
  have hbottom : Example.freehold.AtBottom 1 10 := by
    refine ⟨⟨10, 1, "@everyone", none, 0, ∅, true⟩, onlyDefault_iff.2 ?_, rfl, ?_, ?_⟩
    all_goals decide +kernel
  have hunplaced :
      Example.service.CreatesUnplaced Example.moment Example.creation Example.freehold 1 := by
    refine ⟨⟨"warden", none, [], none⟩, Example.warden, ?_, rfl, ?_, rfl, ?_⟩
    · decide +kernel
    · rw [Example.respond_creation]
      decide +kernel
    · decide +kernel
  have hroom :
      Example.service.LeavesRoom 1 Example.freehold [(Example.moment, Example.creation)] := by
    intro before q rest hsplit _
    obtain rfl : before = [] := by
      cases before with
      | nil => rfl
      | cons q' before => simp at hsplit
    decide +kernel
  exact ⟨hbottom, hunplaced, hroom, (anchors_after _ _ _).2.2 1 10 hbottom hroom⟩

end Service

end Guildhall
