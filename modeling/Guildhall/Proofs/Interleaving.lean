-- SUMMARY: Requests that are let in by one store and acted on by a later one, and what that lets past their checks.
import Guildhall.Proofs.Atomicity
import Guildhall.Proofs.RankConfinement
import Guildhall.Proofs.Isolation
import Guildhall.Proofs.RoleMoves

/-!
# Requests between the steps of a request

A guarded request is let in by the store as its sender's records are loaded, and acted on by the
store at that time; other requests can come in between. `Service.respondAcross` answers a request
that sees one store in the first step and another in the second one. The checks of a change of a
role all look at the records that were loaded, so a change that is let past them is made of any
later form of the role: of every form for an edit, of every form at the position that the request
names for a move.
-/

namespace Guildhall

/-- Of what is known to be held but for the members of one set, only these are left to check. -/
theorem PermissionSet.sdiff_subset_iff {s t u held : PermissionSet} (h : s \ t ⊆ held) :
    s \ u ⊆ held ↔ (s ∩ t) \ u ⊆ held := by
  constructor
  · intro hsub p hp
    rw [mem_sdiff, mem_inter] at hp
    exact hsub (mem_sdiff.2 ⟨hp.1.1, hp.2⟩)
  · intro hsub p hp
    rw [mem_sdiff] at hp
    by_cases ht : p ∈ t
    · exact hsub (mem_sdiff.2 ⟨mem_inter.2 ⟨hp.1, ht⟩, hp.2⟩)
    · exact h (mem_sdiff.2 ⟨hp.1, ht⟩)

/-- Whether a request asks for an action on a role of a server. -/
structure Http.Request.Asks (r : Http.Request) (action : Action) (server role : Id) : Prop where
  addresses : r.Addresses (.server, server)
  selects : ∃ endpoint spelled ps, Endpoint.find? r.path = some (endpoint, spelled) ∧
    endpoint.action? r.method = some action ∧ Http.decodeParameters? spelled = some ps ∧
    readPathId ps "role_id" = .ok role

namespace Service

open Store

variable {v : Service} {t : Moment} {r : Http.Request} {s s₀ s₁ : Store} {user server role : Id}
  {endpoint : Endpoint} {spelled ps : Http.Parameters} {action : Action} {entry : Entry} {w : Write}

/-! ## Two stores -/

/-- Answers a request whose sender is let in by one store, and that is acted on by another. What
does not act sees the second store only. -/
def respondAcross (v : Service) (t : Moment) (r : Http.Request) (s₀ s₁ : Store) :
    Http.Response × Store :=
  match Endpoint.find? r.path with
  | none => v.respond t r s₁
  | some (endpoint, ps) =>
    match endpoint.action? r.method with
    | none => v.respond t r s₁
    | some action =>
      match v.enter t.now r endpoint ps action s₀ with
      | .error why => (sent r (response (.error why)), s₁)
      | .ok entry =>
        let (outcome, s₂) := v.perform t.fresh r entry s₁
        (sent r (response outcome), s₂)

/-- Where nothing comes in between, a request sees one store. -/
theorem respondAcross_self (v : Service) (t : Moment) (r : Http.Request) (s : Store) :
    v.respondAcross t r s s = v.respond t r s := by
  cases hf : Endpoint.find? r.path with
  | none => simp only [respondAcross, hf]
  | some found =>
    obtain ⟨endpoint, spelled⟩ := found
    cases ha : endpoint.action? r.method with
    | none => simp only [respondAcross, hf, ha]
    | some action =>
      rw [respond_of_action hf ha]
      cases he : v.enter t.now r endpoint spelled action s with
      | error why => simp only [respondAcross, hf, ha, act, he]
      | ok entry => simp only [respondAcross, hf, ha, act, he]

/-- Whose sender is let in by the first store is acted on by the second. -/
theorem respondAcross_of_enter (hf : Endpoint.find? r.path = some (endpoint, spelled))
    (ha : endpoint.action? r.method = some action)
    (he : v.enter t.now r endpoint spelled action s₀ = .ok entry) (s : Store) :
    v.respondAcross t r s₀ s =
      (sent r (response (v.perform t.fresh r entry s).1), (v.perform t.fresh r entry s).2) := by
  simp only [respondAcross, hf, ha, he]

theorem exists_entry_of_succeeds (hf : Endpoint.find? r.path = some (endpoint, spelled))
    (ha : endpoint.action? r.method = some action)
    (hok : (v.respondAcross t r s₀ s₁).1.Succeeds) :
    ∃ entry, v.enter t.now r endpoint spelled action s₀ = .ok entry := by
  cases he : v.enter t.now r endpoint spelled action s₀ with
  | ok entry => exact ⟨entry, rfl⟩
  | error why =>
    simp only [respondAcross, hf, ha, he, Http.Response.Succeeds, status_sent] at hok
    exact absurd hok why.not_succeeds

/-- What has planned a write does nothing else, and succeeds just if the store makes the write. -/
theorem perform_of_plan {fresh : Id}
    (h : entry.action.plan v.limits entry.access entry.parameters r fresh s = .ok (.commit w)) :
    (v.perform fresh r entry s).2 = s.afterWrite w ∧
      ((response (v.perform fresh r entry s).1).Succeeds ↔ ∃ done, s.commit w = .ok done) := by
  cases hc : s.commit w with
  | error why =>
    simp only [perform, h, hc, afterWrite, reduceCtorEq, exists_false, iff_false]
    exact ⟨trivial, Rejection.not_succeeds _⟩
  | ok done =>
    rw [perform_of_commit h hc]
    refine ⟨by simp only [afterWrite, hc], ?_⟩
    exact iff_of_true (entry.action.succeeds_reply done.1) ⟨done, rfl⟩

/-- A request about a role that succeeds has its sender's records loaded from the first store, and
is acted on with these records by whatever store comes second. -/
theorem exists_records_of_succeeds (hauth : authenticate v.secret t.now r = .ok user)
    (hasks : r.Asks action server role) (hok : (v.respondAcross t r s₀ s₁).1.Succeeds) :
    ∃ m ps, s₀.findMember server user = some m ∧ readPathId ps "role_id" = .ok role ∧
      ∀ s, v.respondAcross t r s₀ s =
        (sent r (response
          (v.perform t.fresh r ⟨action, ⟨user, .server (s₀.recordsOf m)⟩, ps⟩ s).1),
        (v.perform t.fresh r ⟨action, ⟨user, .server (s₀.recordsOf m)⟩, ps⟩ s).2) := by
  obtain ⟨endpoint, spelled, ps, hf, ha, hd, hrole⟩ := hasks.selects
  obtain ⟨entry, henter⟩ := exists_entry_of_succeeds hf ha hok
  obtain ⟨user', hauth', rfl, hd', hload, -⟩ := enter_eq_ok henter
  cases hauth.symm.trans hauth'
  cases hd.symm.trans hd'
  obtain ⟨hk, hnamed⟩ := hasks.addresses.named hf hd
  obtain ⟨m, hnamed', hm, haccess⟩ := Gate.load_server hk hload
  have hserver : server = m.server := Option.some.inj (hnamed.symm.trans hnamed')
  refine ⟨m, entry.parameters, hserver ▸ hm, hrole, ?_⟩
  rw [← haccess]
  exact respondAcross_of_enter hf ha henter

/-- What has its plan from the loaded records alone makes the planned write in any later store, as
far as that store makes it. -/
theorem exists_write_of_succeeds {entry : Entry} {planned : Except Refusal Write}
    (hok : (v.respondAcross t r s₀ s₁).1.Succeeds)
    (hacross : ∀ s, v.respondAcross t r s₀ s =
      (sent r (response (v.perform t.fresh r entry s).1), (v.perform t.fresh r entry s).2))
    (hplan : ∀ s, entry.action.plan v.limits entry.access entry.parameters r t.fresh s =
      committing planned) :
    ∃ w, planned = .ok w ∧ (∃ done, s₁.commit w = .ok done) ∧
      ∀ s, (v.respondAcross t r s₀ s).2 = s.afterWrite w ∧
        ((v.respondAcross t r s₀ s).1.Succeeds ↔ ∃ done, s.commit w = .ok done) := by
  cases hw : planned with
  | error why =>
    have hfails : entry.action.plan v.limits entry.access entry.parameters r t.fresh s₁ =
        .error (.refused why) := by
      rw [hplan, hw]
      rfl
    rw [hacross, Http.Response.Succeeds, status_sent] at hok
    simp only [perform, hfails] at hok
    exact absurd hok (Rejection.not_succeeds _)
  | ok w =>
    have hall : ∀ s, (v.respondAcross t r s₀ s).2 = s.afterWrite w ∧
        ((v.respondAcross t r s₀ s).1.Succeeds ↔ ∃ done, s.commit w = .ok done) := by
      intro s
      have hcommits : entry.action.plan v.limits entry.access entry.parameters r t.fresh s =
          .ok (.commit w) := by
        rw [hplan, committing_eq_ok, hw]
      obtain ⟨hafter, hiff⟩ := perform_of_plan hcommits
      rw [hacross, Http.Response.Succeeds, status_sent]
      exact ⟨hafter, hiff⟩
    exact ⟨w, rfl, (hall s₁).2.1 hok, hall⟩

end Service

/-! ## Examples -/

namespace Example

/-- A request by the owner with a JSON body. -/
def ownerSubmission (method : String) (path : List String) (body : String) : Http.Request :=
  { submission method path body with
    headers := [("authorization",
        "Bearer " ++ Token.sign "secret" { claims with subject := (9 : Id).text }),
      ("content-type", "application/json")] }

theorem authenticate_ownerSubmission (method : String) (path : List String) (body : String) :
    authenticate "secret" 1 (ownerSubmission method path body) = .ok 9 := by
  have hheader : (ownerSubmission method path body).header? "authorization" =
      some ("Bearer " ++ Token.sign "secret" { claims with subject := (9 : Id).text }) := by
    simp [ownerSubmission, Http.Request.header?]
  exact authenticate_sign hheader (by decide +kernel) rfl (by decide +kernel)

/-- The manager takes the guards down from position 9, where they are not. -/
def dropping : Http.Request :=
  submission "PUT" ["servers", (1 : Id).text, "roles", (30 : Id).text, "position"]
    "\x7b\"expected_position\": 9, \"position\": 2\x7d"

/-- The owner puts the guards there, above the manager. -/
def lifting : Http.Request :=
  ownerSubmission "PUT" ["servers", (1 : Id).text, "roles", (30 : Id).text, "position"]
    "\x7b\"expected_position\": 3, \"position\": 9\x7d"

/-- The manager lets the guards ban members, as they already may. -/
def restoring : Http.Request :=
  submission "PATCH" ["servers", (1 : Id).text, "roles", (30 : Id).text]
    "\x7b\"permissions\": [\"BAN_MEMBERS\"]\x7d"

/-- The owner takes this from the guards. -/
def revoking : Http.Request :=
  ownerSubmission "PATCH" ["servers", (1 : Id).text, "roles", (30 : Id).text]
    "\x7b\"permissions\": []\x7d"

def lifted : Store := service.after store [(moment, lifting)]

def stripped : Store := service.after store [(moment, revoking)]

/-- What the paths to the guards name. -/
def guardPath : Http.Parameters := [("server_id", (1 : Id).text), ("role_id", (30 : Id).text)]

/-- The manager and the owner are let in where the requests about the guards lead to. -/
theorem letIn_guardPath :
    (∀ g ∈ [Endpoint.rolePosition.gate .moveRole, Endpoint.role.gate .updateRole],
      ∀ m ∈ [manager, ⟨9, 1, [30], true⟩], g.letIn guardPath (some m.user) store =
        .ok (⟨m.user, .server (store.recordsOf m)⟩, guardPath)) ∧
    Endpoint.find? dropping.path = some (.rolePosition, guardPath) ∧
    Endpoint.find? restoring.path = some (.role, guardPath) := by
  decide

/-- The manager is let in to take the guards down. -/
theorem enter_dropping :
    service.enter moment.now dropping .rolePosition guardPath .moveRole store =
      .ok ⟨.moveRole, ⟨7, .server (store.recordsOf manager)⟩, guardPath⟩ :=
  Service.enter_of_letIn (authenticate_submission _ _ _)
    (letIn_guardPath.1 _ (by decide) manager (by decide))

/-- The owner's move is made, and the manager's move across it too. -/
theorem respondAcross_dropping :
    dropping.Asks .moveRole 1 30 ∧ readBody RoleMove.codec dropping = .ok ⟨9, 2⟩ ∧
      (service.respondAcross moment dropping store lifted).1.Succeeds ∧
      lifted.findRole 1 30 = some ⟨30, 1, "guard", none, 9, .ofList [.banMembers], false⟩ := by
  have hlet := letIn_guardPath.1
  have hpath' := letIn_guardPath.2.1
  have hsame : lifting.path = dropping.path := by
    simp only [Http.Request.path, lifting, dropping, ownerSubmission, submission]
  have hpath := (congrArg Endpoint.find? hsame).trans hpath'
  have hcommit : store.commit (.moveRole 1 30 3 9) =
      .ok (.role ⟨30, 1, "guard", none, 9, .ofList [.banMembers], false⟩,
        store.afterWrite (.moveRole 1 30 3 9)) := by decide
  have hlifted : lifted = store.afterWrite (.moveRole 1 30 3 9) := by
    rw [lifted, Service.after_singleton]
    exact Service.respond_of_commit hpath rfl (authenticate_ownerSubmission _ _ _)
      (hlet _ (by decide) ⟨9, 1, [30], true⟩ (by decide)) (by decide +kernel) hcommit
  rw [Service.respondAcross_of_enter hpath' rfl enter_dropping, hlifted, Http.Response.Succeeds,
    Service.status_sent]
  refine ⟨⟨⟨_, _, hpath', rfl, ?_⟩, _, _, guardPath, hpath', rfl, ?_⟩, ?_⟩
  all_goals decide +kernel

/-- The owner's edit is made, and the manager's edit across it too. -/
theorem respondAcross_restoring :
    restoring.Asks .updateRole 1 30 ∧
      readBody RoleEdit.codec restoring = .ok ⟨none, none, some [.banMembers]⟩ ∧
      (service.respondAcross moment restoring store stripped).1.Succeeds ∧
      stripped.findRole 1 30 = some ⟨30, 1, "guard", none, 3, ∅, false⟩ ∧
      (service.respondAcross moment restoring store stripped).2.findRole 1 30 =
        some ⟨30, 1, "guard", none, 3, .ofList [.banMembers], false⟩ := by
  have hlet := letIn_guardPath.1
  have hpath' := letIn_guardPath.2.2
  have hsame : revoking.path = restoring.path := by
    simp only [Http.Request.path, revoking, restoring, ownerSubmission, submission]
  have hpath := (congrArg Endpoint.find? hsame).trans hpath'
  have hcommit : store.commit (.updateRole 1 30 ⟨none, none, some ∅⟩) =
      .ok (.role ⟨30, 1, "guard", none, 3, ∅, false⟩,
        store.afterWrite (.updateRole 1 30 ⟨none, none, some ∅⟩)) := by decide
  have hstripped : stripped = store.afterWrite (.updateRole 1 30 ⟨none, none, some ∅⟩) := by
    rw [stripped, Service.after_singleton]
    exact Service.respond_of_commit hpath rfl (authenticate_ownerSubmission _ _ _)
      (hlet _ (by decide) ⟨9, 1, [30], true⟩ (by decide)) (by decide +kernel) hcommit
  have henter : service.enter moment.now restoring .role guardPath .updateRole store =
      .ok ⟨.updateRole, ⟨7, .server (store.recordsOf manager)⟩, guardPath⟩ :=
    Service.enter_of_letIn (authenticate_submission _ _ _) (hlet _ (by decide) manager (by decide))
  rw [Service.respondAcross_of_enter hpath' rfl henter, hstripped, Http.Response.Succeeds,
    Service.status_sent]
  refine ⟨⟨⟨_, _, hpath', rfl, ?_⟩, _, _, guardPath, hpath', rfl, ?_⟩, ?_⟩
  all_goals decide +kernel

/-- The manager is no owner and no administrator, and may not ban members. -/
theorem standing_manager : store.findMember 1 7 = some manager ∧ store.owns 1 7 = false ∧
    .administrator ∉ store.effective 1 7 ∧ .banMembers ∉ store.effective 1 7 ∧
    ¬ 9 < store.rankOf manager := by
  decide

end Example

namespace Service

open Store

variable {v : Service} {t : Moment} {r : Http.Request} {s₀ s₁ : Store} {user server role : Id}

/-! ## Moves -/

/-- The position that a non-owner's move takes a role away from is below their rank as it was loaded
just if the position that they expected is. The role was below it when it was loaded and is put
below it, but once the checks are passed, the move takes the role away from whatever position it
expects, wherever other requests have put the role meanwhile. -/
theorem moveRole_across {move : RoleMove} (hauth : authenticate v.secret t.now r = .ok user)
    (hasks : r.Asks .moveRole server role) (hbody : readBody RoleMove.codec r = .ok move)
    (hnot : s₀.owns server user = false) (hok : (v.respondAcross t r s₀ s₁).1.Succeeds) :
    ∃ m q₀ q₁, s₀.findMember server user = some m ∧
      s₀.findRole server role = some q₀ ∧ q₀.position < s₀.rankOf m ∧
      move.position < s₀.rankOf m ∧
      s₁.findRole server role = some q₁ ∧
      (q₁.position < s₀.rankOf m ↔ move.expected < s₀.rankOf m) ∧
      (v.respondAcross t r s₀ s₁).2 =
        s₁.afterWrite (.moveRole server role move.expected move.position) ∧
      ∀ s q, s.findRole server role = some q →
        ((v.respondAcross t r s₀ s).1.Succeeds ↔ q.position = move.expected) := by
  obtain ⟨m, ps, hm, hrole, hacross⟩ := exists_records_of_succeeds hauth hasks hok
  have hplan : ∀ s, Action.moveRole.plan v.limits ⟨user, .server (s₀.recordsOf m)⟩ ps r t.fresh s =
      committing (planMove ⟨user, .server (s₀.recordsOf m)⟩ role move) := by
    intro s
    simp only [Action.plan, hrole, hbody, bind, Except.bind]
  obtain ⟨w, hplanned, ⟨done, hdone⟩, hall⟩ := exists_write_of_succeeds hok hacross hplan
  obtain ⟨-, rfl, stillBelow, q₀, found, -, below⟩ := ServerRecords.planMove_ok rfl hplanned
  obtain ⟨-, hserver, -⟩ := findMember_eq_some.1 hm
  rw [findRole_recordsOf, hserver] at found
  rw [server_recordsOf, hserver] at hdone
  simp only [server_recordsOf, hserver] at hall
  have hno : m.isOwner = false := by simpa [owns, hm] using hnot
  obtain ⟨q₁, hq₁, hexpected⟩ := (commit_ok hdone).1
  refine ⟨m, q₀, q₁, hm, found, lt_rankOf_of_outranks hno below,
    lt_rankOf_of_outranks hno stillBelow, hq₁, by rw [hexpected], (hall s₁).1, ?_⟩
  intro s q hq
  rw [(hall s).2, exists_commit_moveRole_iff hq]

/-- The manager's move takes the guards down from above the manager. -/
theorem moveRole_across_manager :
    ∃ m q₀ q₁, Example.store.findMember 1 7 = some m ∧
      Example.store.findRole 1 30 = some q₀ ∧ q₀.position < Example.store.rankOf m ∧
      2 < Example.store.rankOf m ∧ Example.lifted.findRole 1 30 = some q₁ ∧
      (q₁.position < Example.store.rankOf m ↔ 9 < Example.store.rankOf m) ∧
      (Example.service.respondAcross Example.moment Example.dropping Example.store
        Example.lifted).2 = Example.lifted.afterWrite (.moveRole 1 30 9 2) ∧
      ∀ s q, s.findRole 1 30 = some q →
        ((Example.service.respondAcross Example.moment Example.dropping Example.store
          s).1.Succeeds ↔ q.position = 9) := by
  have hauth : authenticate Example.service.secret Example.moment.now Example.dropping = .ok 7 :=
    Example.authenticate_submission _ _ _
  obtain ⟨hasks, hbody, hok, -⟩ := Example.respondAcross_dropping
  have hacross := moveRole_across (v := Example.service) (t := Example.moment) hauth hasks hbody
    Example.standing_manager.2.1 hok
  exact hacross

/-- The manager, who is not the owner, moves a role that has come to be above them. -/
theorem not_moveRole_across_below :
    authenticate Example.service.secret Example.moment.now Example.dropping = .ok 7 ∧
      Example.dropping.Asks .moveRole 1 30 ∧ Example.store.owns 1 7 = false ∧
      (Example.service.respondAcross Example.moment Example.dropping Example.store
        Example.lifted).1.Succeeds ∧
      Example.store.findMember 1 7 = some Example.manager ∧
      ∃ q, Example.lifted.findRole 1 30 = some q ∧
        ¬ q.position < Example.store.rankOf Example.manager := by
  obtain ⟨hasks, -, hok, hq⟩ := Example.respondAcross_dropping
  obtain ⟨hm, hnot, -, -, habove⟩ := Example.standing_manager
  exact ⟨Example.authenticate_submission _ _ _, hasks, hnot, hok, hm, _, hq, habove⟩

/-! ## Edits -/

/-- What an edit gives a role that the role did not have just before it, is in its sender's
permissions as they were loaded, just if that is so for what the edit lists, the role had when it was
loaded and has lost since. These permissions are not checked, as the role had them; and an edit that
has passed its checks is made whatever has become of the role. -/
theorem updateRole_across {edit : RoleEdit} (hauth : authenticate v.secret t.now r = .ok user)
    (hasks : r.Asks .updateRole server role) (hbody : readBody RoleEdit.codec r = .ok edit)
    (hok : (v.respondAcross t r s₀ s₁).1.Succeeds) :
    ∃ q₀ q₁ q₂, s₀.findRole server role = some q₀ ∧ s₁.findRole server role = some q₁ ∧
      (v.respondAcross t r s₀ s₁).2.findRole server role = some q₂ ∧
      (q₂.permissions \ q₁.permissions ⊆ s₀.effective server user ↔
        ∀ ps, edit.permissions = some ps →
          (PermissionSet.ofList ps ∩ q₀.permissions) \ q₁.permissions ⊆
            s₀.effective server user) ∧
      ∀ s q, s.findRole server role = some q → (v.respondAcross t r s₀ s).1.Succeeds := by
  obtain ⟨m, ps, hm, hrole, hacross⟩ := exists_records_of_succeeds hauth hasks hok
  have hplan : ∀ s,
      Action.updateRole.plan v.limits ⟨user, .server (s₀.recordsOf m)⟩ ps r t.fresh s =
        committing (planUpdate ⟨user, .server (s₀.recordsOf m)⟩ role edit) := by
    intro s
    simp only [Action.plan, hrole, hbody, bind, Except.bind]
  obtain ⟨w, hplanned, ⟨done, hdone⟩, hall⟩ := exists_write_of_succeeds hok hacross hplan
  obtain ⟨-, rfl, q₀, found, -, -, granted⟩ := ServerRecords.planUpdate_ok rfl hplanned
  obtain ⟨-, hserver, -⟩ := findMember_eq_some.1 hm
  rw [findRole_recordsOf, hserver] at found
  rw [server_recordsOf, hserver] at hdone
  simp only [server_recordsOf, hserver] at hall
  obtain ⟨q₁, hq₁⟩ := (commit_ok hdone).1
  refine ⟨q₀, q₁, _, found, hq₁, by rw [(hall s₁).1, findRole_afterWrite_updateRole hq₁], ?_, ?_⟩
  · rw [effective_of_findMember hm]
    cases hps : edit.permissions with
    | none =>
      refine iff_of_true ?_ (fun ps h => by cases h)
      intro p hp
      exact absurd (PermissionSet.mem_sdiff.1 hp).1 (PermissionSet.mem_sdiff.1 hp).2
    | some ps =>
      have hgranted : PermissionSet.ofList ps \ q₀.permissions ⊆ s₀.permissionsOf m :=
        granted ps hps
      have hpatched : (q₁.patch ⟨edit.name.map trim, edit.color,
          (some ps).map PermissionSet.ofList⟩).permissions = .ofList ps := rfl
      rw [hpatched, PermissionSet.sdiff_subset_iff hgranted]
      simp only [Option.some.injEq, forall_eq']
  · intro s q hq
    rw [(hall s).2]
    exact ⟨_, commit_updateRole hq⟩

/-- The manager's edit brings back what the owner has taken from the guards. -/
theorem updateRole_across_manager :
    ∃ q₀ q₁ q₂, Example.store.findRole 1 30 = some q₀ ∧ Example.stripped.findRole 1 30 = some q₁ ∧
      (Example.service.respondAcross Example.moment Example.restoring Example.store
        Example.stripped).2.findRole 1 30 = some q₂ ∧
      (q₂.permissions \ q₁.permissions ⊆ Example.store.effective 1 7 ↔
        ∀ ps, some [.banMembers] = some ps →
          (PermissionSet.ofList ps ∩ q₀.permissions) \ q₁.permissions ⊆
            Example.store.effective 1 7) ∧
      ∀ s q, s.findRole 1 30 = some q →
        (Example.service.respondAcross Example.moment Example.restoring Example.store
          s).1.Succeeds := by
  have hauth : authenticate Example.service.secret Example.moment.now Example.restoring = .ok 7 :=
    Example.authenticate_submission _ _ _
  obtain ⟨hasks, hbody, hok, -⟩ := Example.respondAcross_restoring
  exact updateRole_across (v := Example.service) (t := Example.moment) hauth hasks hbody hok

/-- The manager, who may not ban members and is no administrator, lets the guards do so after the
owner has taken it from them. -/
theorem not_updateRole_across_subset :
    authenticate Example.service.secret Example.moment.now Example.restoring = .ok 7 ∧
      Example.restoring.Asks .updateRole 1 30 ∧ Example.store.owns 1 7 = false ∧
      .administrator ∉ Example.store.effective 1 7 ∧
      (Example.service.respondAcross Example.moment Example.restoring Example.store
        Example.stripped).1.Succeeds ∧
      ∃ q₁ q₂, Example.stripped.findRole 1 30 = some q₁ ∧
        (Example.service.respondAcross Example.moment Example.restoring Example.store
          Example.stripped).2.findRole 1 30 = some q₂ ∧
        .banMembers ∈ q₂.permissions ∧ .banMembers ∉ q₁.permissions ∧
        .banMembers ∉ Example.store.effective 1 7 := by
  obtain ⟨hasks, -, hok, hq₁, hq₂⟩ := Example.respondAcross_restoring
  obtain ⟨-, hnot, hadmin, hban, -⟩ := Example.standing_manager
  refine ⟨Example.authenticate_submission _ _ _, hasks, hnot, hadmin, hok, _, _, hq₁, hq₂, ?_⟩
  exact ⟨by decide, by decide, hban⟩

end Service

end Guildhall
