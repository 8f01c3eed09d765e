-- SUMMARY: Where the permissions of members come from after a request, and that nobody raises their own.
import Guildhall.Proofs.Credentials
import Guildhall.Proofs.Warrants

/-!
# Escalation

Roles gain only permissions that whoever edits or creates them has. Their assignment is a matter of
rank: who may manage roles and stands above both the role and the member can assign it, whatever it
grants. So a member's permissions can grow beyond those of the sender in one way only: by the
assignment of a role that was there before (`Store.mem_effective_cases`). Assignments excepted, no
request hands out what its sender does not have (`Service.effective_respond_subset_iff`). As nobody
outranks themselves, nobody assigns roles to themselves but the owner, and no run of requests by one
user adds to that user's permissions.
-/

namespace Guildhall

namespace Store

variable {s s' : Store} {limits : Limits} {fresh user server x : Id} {w : Write} {m m' : Member}
  {p : Permission}

/-! ## Single writes -/

/-- Nobody stands above themselves. -/
theorem not_outranksMember_self (s : Store) (m : Member) : ¬ (s.recordsOf m).OutranksMember m := by
  rintro ⟨hnot, howner | hlt⟩
  · rw [member_recordsOf, hnot] at howner
    cases howner
  · rw [member_recordsOf] at hlt
    exact Int32.lt_irrefl hlt

theorem Entitles.of_createRole {r : Role} (h : s.Entitles limits fresh user w)
    (hw : w = .createRole r) :
    r.id = fresh ∧ r.isDefault = false ∧ r.permissions ⊆ s.effective r.server user := by
  cases h with
  | inChannel => cases hw
  | inServer member permitted warranted =>
    cases warranted with
    | createRole fields name room granted place below =>
      cases hw
      rw [server_recordsOf, effective_of_findMember member]
      exact ⟨rfl, rfl, granted⟩
    | updateRole | moveRole | deleteRole | assignRole | unassignRole | removeMember => cases hw

theorem Entitles.of_updateRole {role : Id} {patch : RolePatch}
    (h : s.Entitles limits fresh user w) (hw : w = .updateRole server role patch) :
    ∃ target ∈ s.roles, target.id = role ∧ ∀ ps, patch.permissions = some ps →
      ps \ target.permissions ⊆ s.effective server user := by
  cases h with
  | inChannel => cases hw
  | inServer member permitted warranted =>
    cases warranted with
    | updateRole fields found below name granted =>
      cases hw
      obtain ⟨htarget, hserver, hid⟩ := findRole_recordsOf_eq_some.1 found
      rw [server_recordsOf, effective_of_findMember member]
      refine ⟨_, htarget, hid, ?_⟩
      intro ps hps
      obtain ⟨qs, hqs, rfl⟩ := Option.map_eq_some_iff.1 hps
      exact granted qs hqs
    | createRole | moveRole | deleteRole | assignRole | unassignRole | removeMember => cases hw

/-- Only owners assign roles to themselves. -/
theorem Entitles.of_assignRole {role : Id} (h : s.Entitles limits fresh user w)
    (hw : w = .assignRole server x role) :
    .manageRoles ∈ s.effective server user ∧ (x ≠ user ∨ s.owns server user = true) := by
  cases h with
  | inChannel => cases hw
  | inServer member permitted warranted =>
    cases warranted with
    | assignRole target above found assigned below =>
      cases hw
      rw [server_recordsOf] at target
      rw [server_recordsOf, effective_of_findMember member]
      refine ⟨permitted, ?_⟩
      by_cases hx : x = user
      · subst hx
        rw [member] at target
        cases target
        obtain howner | habove := above
        · exact .inr (by simpa [owns, member] using howner)
        · exact absurd habove (not_outranksMember_self s _)
      · exact .inl hx
    | createRole | updateRole | moveRole | deleteRole | unassignRole | removeMember => cases hw

/-- Whoever is removed stands below the sender. -/
theorem outranksMember_of_onMember (hw : s.Entitles limits fresh user w) {m : Member}
    (hm : m ∈ s.members) (hon : w.onMember m = none) :
    ∃ b, s.findMember m.server user = some b ∧ (s.recordsOf b).OutranksMember m := by
  have hremove := Write.eq_removeMember_of_onMember hon
  cases hw with
  | inChannel => cases hremove
  | @inServer b _ member permitted warranted =>
    cases warranted with
    | @removeMember x target found above =>
      injection hremove with hserver huser
      have hfind : s.findMember m.server m.user = some m := findMember_eq_some.2 ⟨hm, rfl, rfl⟩
      rw [hserver, huser, hfind] at found
      cases found
      rw [server_recordsOf] at hserver
      exact ⟨b, hserver ▸ member, above⟩
    | createRole | updateRole | moveRole | deleteRole | assignRole | unassignRole => cases hremove

/-! ## Roles after a write -/

/-- A permission that a role has after a write it had before, or the sender has it. -/
theorem mem_permissions_cases (hw : s.Entitles limits fresh user w) (hf : s.Follows w s')
    {r' : Role} (hr : r' ∈ s'.roles) (hp : p ∈ r'.permissions) :
    (∃ r ∈ s.roles, w.onRole r = some r' ∧ p ∈ r.permissions) ∨ p ∈ s.effective r'.server user := by
  obtain ⟨r, hrs, hon⟩ | hnew := hf.mem_roles.1 hr
  · obtain ⟨hid, hserver, -⟩ := Write.onRole_eq_some hon
    obtain hold | ⟨patch, ps, hupdate, hps, hgained⟩ := Write.mem_permissions_of_onRole hon hp
    · exact .inl ⟨r, hrs, hon, hold⟩
    · obtain ⟨target, htarget, htid, hgranted⟩ := hw.of_updateRole hupdate
      have htr : target = r := eq_of_id_eq htarget hrs htid
      subst htr
      by_cases hold : p ∈ target.permissions
      · exact .inl ⟨target, hrs, hon, hold⟩
      · rw [hserver]
        exact .inr (hgranted ps hps (PermissionSet.mem_sdiff.2 ⟨hgained, hold⟩))
  · have hcreate := Write.eq_createRole_of_mem_newRoles hnew
    exact .inr ((hw.of_createRole hcreate).2.2 hp)

/-- Default roles are neither added nor deleted. -/
theorem defaultId_iff (hw : s.Entitles limits fresh user w) (ha : s.Admits w)
    (hf : s.Follows w s') {id : Id} : s'.DefaultId server id ↔ s.DefaultId server id := by
  have hnew : ∀ r ∈ w.newRoles, r.isDefault = false := fun r hr =>
    (hw.of_createRole (Write.eq_createRole_of_mem_newRoles hr)).2.1
  constructor
  · rintro ⟨e', he', rfl⟩
    obtain ⟨e, he, hon⟩ := (hf.onlyDefault_iff ha hnew).1 he'
    exact ⟨e, he, (Write.onRole_eq_some hon).1.symm⟩
  · rintro ⟨e, he, rfl⟩
    obtain ⟨hes, -, hed⟩ := (he e).2 rfl
    obtain ⟨e', hon⟩ := ha.exists_onRole hes hed
    exact ⟨e', (hf.onlyDefault_iff ha hnew).2 ⟨e, he, hon⟩, (Write.onRole_eq_some hon).1⟩

theorem configured_iff (hw : s.Entitles limits fresh user w) (ha : s.Admits w)
    (hf : s.Follows w s') : s'.Configured server ↔ s.Configured server := by
  simp only [configured_iff_exists_defaultId, defaultId_iff hw ha hf]

/-! ## Members after a write -/

/-- Whether the second store has a user hold a role that they did not hold in the first. -/
def NewlyHolds (s s' : Store) (server x : Id) (r : Role) : Prop :=
  r ∈ s.roles ∧ r.server = server ∧ ∃ m m', s.findMember server x = some m ∧
    s'.findMember server x = some m' ∧ m.holds r.id = false ∧ m'.holds r.id = true

private theorem draws_cases (hw : s.Entitles limits fresh user w) (hf : s.Follows w s')
    (hon : w.onMember m = some m') (h : s'.Draws m' p) :
    s.Draws m p ∨ p ∈ s.effective m.server user ∨
      ∃ r ∈ s.roles, r.server = m.server ∧ p ∈ r.permissions ∧ m.holds r.id = false ∧
        m'.holds r.id = true ∧ w = .assignRole m.server m.user r.id := by
  obtain ⟨-, hserver, -⟩ := Write.onMember_eq_some hon
  obtain ⟨r', hr', hrs', hcounts, hp⟩ := h
  obtain ⟨r, hr, honr, hp⟩ | hsender := mem_permissions_cases hw hf hr' hp
  · obtain ⟨hid, hrs, hd⟩ := Write.onRole_eq_some honr
    have hrsv : r.server = m.server := by rw [← hrs, hrs', hserver]
    rw [hid, hd] at hcounts
    obtain hdefault | hholds := hcounts
    · exact .inl ⟨r, hr, hrsv, .inl hdefault, hp⟩
    · cases hbefore : m.holds r.id with
      | true => exact .inl ⟨r, hr, hrsv, .inr hbefore, hp⟩
      | false =>
        obtain h' | hassign := Write.holds_of_onMember hon hholds
        · rw [hbefore] at h'
          cases h'
        · exact .inr (.inr ⟨r, hr, hrsv, hp, hbefore, hholds, hassign⟩)
  · rw [hrs', hserver] at hsender
    exact .inr (.inl hsender)

/-- A permission that a member has after a write they had before, or the sender has it, or it
comes with a role that the write assigns to them. -/
theorem mem_effective_cases (hw : s.Entitles limits fresh user w) (ha : s.Admits w)
    (hf : s.Follows w s') (h : p ∈ s'.effective server x) :
    p ∈ s.effective server x ∨ p ∈ s.effective server user ∨
      ∃ r, s.NewlyHolds s' server x r ∧ p ∈ r.permissions.widened ∧
        w = .assignRole server x r.id := by
  obtain ⟨m', hm', hp⟩ := findMember_of_mem_effective h
  obtain ⟨m, hm, hon⟩ := hf.findMember_of_findMember hm'
  obtain ⟨-, hserver', howner⟩ := Write.onMember_eq_some hon
  obtain ⟨-, rfl, rfl⟩ := findMember_eq_some.1 hm
  rw [effective_of_findMember hm]
  cases ho : m.isOwner with
  | true => exact .inl (by simp [permissionsOf_of_isOwner ho])
  | false =>
    rw [mem_permissionsOf (howner.trans ho), hserver', configured_iff hw ha hf] at hp
    obtain ⟨hc, hdraws⟩ := hp
    -- the administrator permission stands for `p`, so both are traced back in the same way
    have trace : ∀ q, s'.Draws m' q → (q = .administrator ∨ q = p) →
        p ∈ s.permissionsOf m ∨ p ∈ s.effective m.server user ∨
          ∃ r, s.NewlyHolds s' m.server m.user r ∧ p ∈ r.permissions.widened ∧
            w = .assignRole m.server m.user r.id := by
      intro q hq hqp
      obtain hbefore | hsender | ⟨r, hr, hrs, hqr, hnot, hnow, hassign⟩ := draws_cases hw hf hon hq
      · refine .inl ((mem_permissionsOf ho).2 ⟨hc, ?_⟩)
        obtain rfl | rfl := hqp
        · exact .inl hbefore
        · exact .inr hbefore
      · obtain rfl | rfl := hqp
        · exact .inr (.inl (mem_effective_of_admin hsender p))
        · exact .inr (.inl hsender)
      · refine .inr (.inr ⟨r, ⟨hr, hrs, m, m', hm, hm', hnot, hnow⟩, ?_, hassign⟩)
        rw [PermissionSet.mem_widened]
        obtain rfl | rfl := hqp
        · exact .inl hqr
        · exact .inr hqr
    obtain hadmin | hp := hdraws
    · exact trace _ hadmin (.inl rfl)
    · exact trace _ hp (.inr rfl)

/-- Only an assignment has somebody newly hold a role. -/
theorem NewlyHolds.eq_assignRole {q : Role} (hf : s.Follows w s')
    (h : s.NewlyHolds s' server x q) : w = .assignRole server x q.id := by
  obtain ⟨-, -, m, m', hm, hm', hnot, hnow⟩ := h
  obtain ⟨m₀, hm₀, hon⟩ := hf.findMember_of_findMember hm'
  rw [hm] at hm₀
  cases hm₀
  obtain ⟨-, rfl, rfl⟩ := findMember_eq_some.1 hm
  obtain hbefore | hassign := Write.holds_of_onMember hon hnow
  · rw [hnot] at hbefore
    cases hbefore
  · exact hassign

theorem not_newlyHolds_self (s : Store) (server x : Id) (q : Role) :
    ¬ s.NewlyHolds s server x q := by
  rintro ⟨-, -, m, m', hm, hm', hnot, hnow⟩
  rw [hm] at hm'
  cases hm'
  rw [hnot] at hnow
  cases hnow

/-- What a role grants, those who newly hold it have, unless the sender owns the server. -/
theorem NewlyHolds.mem_effective {q : Role} (hw : s.Entitles limits fresh user w)
    (ha : s.Admits w) (hf : s.Follows w s') (h : s.NewlyHolds s' server x q)
    (hp : p ∈ q.permissions.widened) :
    p ∈ s'.effective server x ∨ p ∈ s.effective server user := by
  have hassign := h.eq_assignRole hf
  obtain ⟨hq, rfl, -, m', -, hm', -, hnow⟩ := h
  have hq' : q ∈ s'.roles := hf.mem_roles.2 (.inl ⟨q, hq, by rw [hassign]; rfl⟩)
  obtain ⟨hmanage, -⟩ := hw.of_assignRole hassign
  obtain howns | hconf := configured_of_mem_effective hmanage
  · exact .inr (by simp [effective_of_owns howns])
  · refine .inl ?_
    obtain ⟨-, hserver, -⟩ := findMember_eq_some.1 hm'
    rw [effective_of_findMember hm']
    cases ho : m'.isOwner with
    | true => simp [permissionsOf_of_isOwner ho]
    | false =>
      rw [mem_permissionsOf ho, hserver, configured_iff hw ha hf]
      obtain hadmin | hpq := PermissionSet.mem_widened.1 hp
      · exact ⟨hconf, .inl ⟨q, hq', hserver.symm, .inr hnow, hadmin⟩⟩
      · exact ⟨hconf, .inr ⟨q, hq', hserver.symm, .inr hnow, hpq⟩⟩

/-- Nobody comes to own a server. -/
theorem owns_of_follows (hf : s.Follows w s') (h : s'.owns server x = true) :
    s.owns server x = true := by
  obtain ⟨m', hm', ho⟩ := owns_eq_true.1 h
  obtain ⟨m, hm, hon⟩ := hf.findMember_of_findMember hm'
  obtain ⟨-, -, howner⟩ := Write.onMember_eq_some hon
  exact owns_eq_true.2 ⟨m, hm, howner ▸ ho⟩

/-- Nobody but the owner has the roles of a server grant more than they did together. -/
theorem pool_subset_of_follows (hw : s.Entitles limits fresh user w) (hf : s.Follows w s')
    (h : s.owns server user = false) : s'.pool server ⊆ s.pool server := by
  have trace : ∀ q, ∀ r' ∈ s'.roles, r'.server = server → q ∈ r'.permissions →
      q ∈ s.pool server := by
    intro q r' hr' hs' hq
    obtain ⟨r, hr, hon, hq⟩ | hsender := mem_permissions_cases hw hf hr' hq
    · obtain ⟨-, hserver, -⟩ := Write.onRole_eq_some hon
      exact mem_pool.2 ⟨r, hr, hserver.symm.trans hs', .inr hq⟩
    · exact effective_subset_pool h (hs' ▸ hsender)
  intro p hp
  obtain ⟨r', hr', hs', hadmin | hp⟩ := mem_pool.1 hp
  · exact mem_pool_of_admin (trace _ r' hr' hs' hadmin) p
  · exact trace p r' hr' hs' hp

end Store

/-! ## An example -/

namespace Example

/-- Manages the roles of server 1 below their own. -/
def manager : Member := ⟨7, 1, [20], false⟩

/-- Server 1 with its manager, the newcomer 8 and the owner 9. -/
def store : Store :=
  .ofLists
    [⟨10, 1, "@everyone", none, 0, ∅, true⟩,
     ⟨20, 1, "manager", none, 5, .ofList [.manageRoles], false⟩,
     ⟨30, 1, "guard", none, 3, .ofList [.banMembers], false⟩]
    [manager, ⟨8, 1, [], false⟩, ⟨9, 1, [30], true⟩]
    []

def service : Service := ⟨"secret", .standard⟩

def moment : Moment := ⟨1, 0, 40⟩

/-- The manager asks that user `x` be made a guard. -/
def assignment (x : Id) : Http.Request :=
  request "PUT" ["servers", (1 : Id).text, "members", x.text, "roles", (30 : Id).text]

/-- The manager makes the newcomer a guard and tries the same for themself. -/
def run : List (Moment × Http.Request) := [(moment, assignment 8), (moment, assignment 7)]

/-- What the run leaves. -/
def final : Store := service.after store run

theorem sentBy_run {who : Id → Prop} (h : who 7) : service.SentBy who run := by
  intro q hq user hauth
  obtain rfl | rfl : q = (moment, assignment 8) ∨ q = (moment, assignment 7) := by
    simpa [run] using hq
  · cases (authenticate_request _ _).symm.trans hauth
    exact h
  · cases (authenticate_request _ _).symm.trans hauth
    exact h

/-- What the path of an assignment to the newcomer names. -/
def assignmentPath : Http.Parameters :=
  [("server_id", (1 : Id).text), ("user_id", (8 : Id).text), ("role_id", (30 : Id).text)]

/-- The manager is let in to make the newcomer a guard, and the store makes the write that this comes
to. -/
theorem plan_assignment :
    Endpoint.find? (assignment 8).path = some (.memberRole, assignmentPath) ∧
      (Endpoint.memberRole.gate .assignRole).letIn assignmentPath (some 7) store =
        .ok (⟨7, .server (store.recordsOf manager)⟩, assignmentPath) ∧
      Action.assignRole.plan .standard ⟨7, .server (store.recordsOf manager)⟩ assignmentPath
        (assignment 8) moment.fresh store = .ok (.commit (.assignRole 1 8 30)) ∧
      store.commit (.assignRole 1 8 30) =
        .ok (.member ⟨8, 1, [30], false⟩, store.afterWrite (.assignRole 1 8 30)) := by
  decide +kernel

/-- The newcomer becomes a guard. -/
theorem respond_assignment :
    (service.respond moment (assignment 8) store).2 = store.afterWrite (.assignRole 1 8 30) := by
  obtain ⟨hpath, hlet, hplan, hcommit⟩ := plan_assignment
  exact Service.respond_of_commit hpath rfl (authenticate_request _ _) hlet hplan hcommit

end Example

/-! ## Requests -/

namespace Service

open Store

variable {v : Service} {t : Moment} {r : Http.Request} {s : Store} {user server x : Id}
  {requests : List (Moment × Http.Request)}

/-- No run of requests by one user adds to what that user may do in a server, and they stay a
member. -/
theorem effective_after_subset {a : Member} (hby : v.SentBy (· = user) requests)
    (hm : s.findMember server user = some a) :
    ∃ b, (v.after s requests).findMember server user = some b ∧ b.isOwner = a.isOwner ∧
      (v.after s requests).effective server user ⊆ s.effective server user := by
  refine after_keeps (I := fun s' => ∃ b, s'.findMember server user = some b ∧
    b.isOwner = a.isOwner ∧ s'.effective server user ⊆ s.effective server user) hby ?_
    ⟨a, hm, rfl, fun _ h => h⟩
  rintro s₁ s₂ sender fresh w ⟨b, hb, hbo, hsub⟩ rfl hw ha hf
  have hkept : ∃ c, w.onMember b = some c := by
    cases hon : w.onMember b with
    | some c => exact ⟨c, rfl⟩
    | none =>
      obtain ⟨hbs, hserver, -⟩ := findMember_eq_some.1 hb
      obtain ⟨c, hc, habove⟩ := outranksMember_of_onMember hw hbs hon
      rw [hserver, hb] at hc
      cases hc
      exact absurd habove (not_outranksMember_self s₁ b)
  obtain ⟨c, hc⟩ := hkept
  obtain ⟨-, -, hco⟩ := Write.onMember_eq_some hc
  refine ⟨c, hf.findMember_of_onMember hb hc, hco.trans hbo, ?_⟩
  intro p hp
  obtain hbefore | hsender | ⟨q, -, -, hassign⟩ := mem_effective_cases hw ha hf hp
  · exact hsub hbefore
  · exact hsub hsender
  · obtain ⟨-, hne | howns⟩ := hw.of_assignRole hassign
    · exact absurd rfl hne
    · obtain ⟨b', hb', ho⟩ := owns_eq_true.1 howns
      rw [hb] at hb'
      cases hb'
      simp [effective_of_owns (owns_eq_true.2 ⟨a, hm, hbo ▸ ho⟩)]

theorem effective_after_subset_manager :
    Example.service.SentBy (· = 7) Example.run ∧
      Example.store.findMember 1 7 = some Example.manager ∧
      ∃ b, Example.final.findMember 1 7 = some b ∧ b.isOwner = Example.manager.isOwner ∧
        Example.final.effective 1 7 ⊆ Example.store.effective 1 7 := by
  have hby : Example.service.SentBy (· = 7) Example.run := Example.sentBy_run rfl
  have hm : Example.store.findMember 1 7 = some Example.manager := by decide +kernel
  exact ⟨hby, hm, effective_after_subset hby hm⟩

/-- No run of requests by users who do not own a server adds to what its roles grant together,
and nobody but its owner ends up with more than that. -/
theorem pool_after_subset (hby : v.SentBy (fun u => s.owns server u = false) requests) :
    (v.after s requests).pool server ⊆ s.pool server ∧
      ∀ x, (v.after s requests).owns server x = false →
        (v.after s requests).effective server x ⊆ s.pool server := by
  have hkept : (v.after s requests).pool server ⊆ s.pool server ∧
      ∀ u, (v.after s requests).owns server u = true → s.owns server u = true := by
    refine after_keeps (I := fun s' => s'.pool server ⊆ s.pool server ∧
      ∀ u, s'.owns server u = true → s.owns server u = true) hby ?_
      ⟨fun _ h => h, fun _ h => h⟩
    rintro s₁ s₂ sender fresh w ⟨hsub, howns⟩ hsender hw - hf
    have hsender₁ : s₁.owns server sender = false := by
      cases ho : s₁.owns server sender with
      | false => rfl
      | true =>
        rw [howns sender ho] at hsender
        cases hsender
    constructor
    · intro p hp
      exact hsub (pool_subset_of_follows hw hf hsender₁ hp)
    · intro u hu
      exact howns u (owns_of_follows hf hu)
  refine ⟨hkept.1, ?_⟩
  intro x hx p hp
  exact hkept.1 (effective_subset_pool hx hp)

theorem pool_after_subset_manager :
    Example.service.SentBy (fun u => Example.store.owns 1 u = false) Example.run ∧
      Example.final.pool 1 ⊆ Example.store.pool 1 ∧
      ∀ x, Example.final.owns 1 x = false → Example.final.effective 1 x ⊆ Example.store.pool 1 := by
  have hby : Example.service.SentBy (fun u => Example.store.owns 1 u = false) Example.run :=
    Example.sentBy_run (by decide +kernel)
  exact ⟨hby, pool_after_subset hby⟩

/-- A request hands a member nothing beyond what they and its sender have, just if every role
that they newly hold grants nothing beyond that. Such a role is one that the request assigns to
them, and the assignment is all that the request does. -/
theorem effective_respond_subset_iff (hauth : authenticate v.secret t.now r = .ok user) :
    ((v.respond t r s).2.effective server x ⊆ s.effective server x ∪ s.effective server user ↔
      ∀ q, s.NewlyHolds (v.respond t r s).2 server x q →
        q.permissions.widened ⊆ s.effective server x ∪ s.effective server user) ∧
    ∀ q, s.NewlyHolds (v.respond t r s).2 server x q →
      (v.respond t r s).2 = s.afterWrite (.assignRole server x q.id) := by
  obtain hsame | ⟨sender, w, receipt, hauth', hw, hc⟩ := v.respond_cases t r s
  · rw [hsame]
    refine ⟨⟨?_, ?_⟩, ?_⟩
    · rintro - q hq
      exact absurd hq (not_newlyHolds_self s server x q)
    · rintro - p hp
      exact PermissionSet.mem_union.2 (.inl hp)
    · intro q hq
      exact absurd hq (not_newlyHolds_self s server x q)
  · rw [hauth] at hauth'
    cases hauth'
    obtain ⟨ha, hf⟩ := commit_ok hc
    refine ⟨⟨?_, ?_⟩, ?_⟩
    · intro hsub q hq p hp
      obtain hnow | hsender := hq.mem_effective hw ha hf hp
      · exact hsub hnow
      · exact PermissionSet.mem_union.2 (.inr hsender)
    · intro hnew p hp
      obtain hbefore | hsender | ⟨q, hq, hpq, -⟩ := mem_effective_cases hw ha hf hp
      · exact PermissionSet.mem_union.2 (.inl hbefore)
      · exact PermissionSet.mem_union.2 (.inr hsender)
      · exact hnew q hq hpq
    · intro q hq
      rw [← hq.eq_assignRole hf, afterWrite, hc]

theorem effective_respond_subset_iff_manager :
    authenticate Example.service.secret Example.moment.now (Example.assignment 8) = .ok 7 ∧
      ((Example.service.respond Example.moment (Example.assignment 8) Example.store).2.effective 1 8
          ⊆ Example.store.effective 1 8 ∪ Example.store.effective 1 7 ↔
        ∀ q, Example.store.NewlyHolds
            (Example.service.respond Example.moment (Example.assignment 8) Example.store).2 1 8 q →
          q.permissions.widened ⊆ Example.store.effective 1 8 ∪ Example.store.effective 1 7) ∧
      ∀ q, Example.store.NewlyHolds
          (Example.service.respond Example.moment (Example.assignment 8) Example.store).2 1 8 q →
        (Example.service.respond Example.moment (Example.assignment 8) Example.store).2 =
          Example.store.afterWrite (.assignRole 1 8 q.id) := by
  have hauth : authenticate Example.service.secret Example.moment.now (Example.assignment 8) =
      .ok 7 := Example.authenticate_request _ _
  exact ⟨hauth, effective_respond_subset_iff hauth⟩

/-- The manager, who may not ban members, hands that permission to the newcomer. -/
theorem not_effective_respond_subset :
    authenticate Example.service.secret Example.moment.now (Example.assignment 8) = .ok 7 ∧
      Example.store.owns 1 7 = false ∧
      .banMembers ∈ (Example.service.respond Example.moment (Example.assignment 8)
        Example.store).2.effective 1 8 ∧
      .banMembers ∉ Example.store.effective 1 8 ∧ .banMembers ∉ Example.store.effective 1 7 := by
  rw [Example.respond_assignment]
  refine ⟨Example.authenticate_request _ _, ?_⟩
  decide +kernel

end Service

end Guildhall
