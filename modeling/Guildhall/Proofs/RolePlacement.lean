-- SUMMARY: Where new roles are put: where the request says, above zero, or above all roles of their server.
import Guildhall.Proofs.RoleLimit

/-!
# The place of a new role

A request for a new role may say where to put it, and then the position must be at least one, as it
must for every role that is moved. A role without a place goes one above the highest of its server.
The bound is for what is asked for, and roles that a server starts with may stand anywhere. So a place
that was not asked for is at least one where a role of the server stands at zero or above, or where
there is none, and over roles that are all below zero it is zero or below
(`Service.position_created`).
-/

namespace Guildhall

/-- The next place is at least one just if there is no role, or one that stands at zero or above. -/
theorem one_le_nextPosition {roles : List Role} (hroom : ∀ q ∈ roles, q.position ≠ Int32.maxValue) :
    1 ≤ nextPosition roles ↔ roles = [] ∨ ∃ r ∈ roles, 0 ≤ r.position := by
  by_cases hnil : roles = []
  · subst hnil
    decide
  obtain ⟨top, htop, hle, hnext⟩ := exists_top_of_ne_nil hnil
  have hone : 1 ≤ nextPosition roles ↔ 0 ≤ top.position := by
    rw [hnext, Int32.le_iff_toInt_le, Int32.le_iff_toInt_le, toInt_succ_of_ne_max (hroom top htop),
      Int32.toInt_one, Int32.toInt_zero]
    omega
  rw [hone]
  constructor
  · exact fun h => .inr ⟨top, htop, h⟩
  · rintro (h | ⟨r, hr, h⟩)
    · exact absurd h hnil
    · exact Int32.le_trans h (hle r hr)

namespace Service

variable {v : Service} {t : Moment} {r : Http.Request} {s : Store} {server : Id}

/-- Whether a request has a role created: the one that its body describes, whose id was free, which
is all that changes in the store, and which the request is answered with. -/
structure Creates (v : Service) (t : Moment) (r : Http.Request) (s : Store) (d : RoleDraft)
    (role : Role) : Prop where
  body : readBody RoleDraft.codec r = .ok d
  fields : d.checkFields = .ok ()
  name : checkRoleName d.name = .ok ()
  described : role = d.role t.fresh role.server (s.serverRoles role.server)
  free : ∀ q ∈ s.roles, q.id ≠ role.id
  made : v.respond t r s =
    (sent r (response (.ok ⟨201, .json (Role.codec.write role)⟩)), s.insertRole role)

/-- A creation that has success has a role created in the server that it addresses. -/
theorem Achieves.exists_creates (h : v.Achieves t r s .createRole server) :
    ∃ d role, v.Creates t r s d role ∧ role.server = server := by
  obtain ⟨user, endpoint, entry, w, receipt, hplans, haction, hc⟩ :=
    plans_of_succeeds (by decide) h.selects h.succeeds
  have hd := hplans.decides
  obtain ⟨role, rfl⟩ := (haction ▸ hd.makes).exists_createRole
  obtain ⟨d, hread, hfields, hname, hrole⟩ := hplans.exists_draft
  have hmade := hplans.respond_eq hc
  obtain ⟨rfl, hstore⟩ := Store.eq_of_commit_createRole hc
  rw [haction, hstore] at hmade
  exact ⟨d, role, ⟨hread, hfields, hname, hrole, (Store.commit_ok hc).1.1, hmade⟩,
    congrArg Prod.snd (hd.about_eq h.addresses)⟩

end Service

/-! ## Examples -/

namespace Example

/-- Server 1 with its owner, the default role below zero. -/
def cellar : Store := .ofLists [⟨10, 1, "@everyone", none, -1, ∅, true⟩] [owner] []

theorem readBody_creation :
    readBody RoleDraft.codec creation = .ok ⟨"warden", none, [], none⟩ := by
  decide +kernel

/-- The owner has success with asking for a warden, wherever they are let in to it and get one. -/
theorem achieves_creation {s s' : Store} {role : Role}
    (hlet : (Endpoint.roles.gate .createRole).letIn [("server_id", (1 : Id).text)] (some 7) s =
      .ok (⟨7, .server (s.recordsOf owner)⟩, [("server_id", (1 : Id).text)]))
    (hplan : planCreate .standard ⟨7, .server (s.recordsOf owner)⟩ 40 ⟨"warden", none, [], none⟩ =
      .ok (.createRole role))
    (hc : s.commit (.createRole role) = .ok (.role role, s')) :
    service.Achieves moment creation s .createRole 1 := by
  have hplanned : Action.createRole.plan .standard ⟨7, .server (s.recordsOf owner)⟩
      [("server_id", (1 : Id).text)] creation 40 s = .ok (.commit (.createRole role)) := by
    simp only [Action.plan, bind_eq_ok, committing_eq_ok]
    exact ⟨_, readBody_creation, hplan⟩
  refine ⟨⟨.roles, _, find_creation, rfl⟩, ⟨.roles, _, find_creation, rfl, ?_⟩, ?_⟩
  · decide +kernel
  · have henter : service.enter moment.now creation .roles [("server_id", (1 : Id).text)]
        .createRole s = .ok ⟨.createRole, ⟨7, .server (s.recordsOf owner)⟩,
          [("server_id", (1 : Id).text)]⟩ :=
      Service.enter_of_letIn (authenticate_submission _ _ _) hlet
    rw [Http.Response.Succeeds, Service.respond_of_action find_creation rfl, Service.status_sent,
      Service.act_of_enter henter, Service.perform_of_commit hplanned hc]
    exact Action.succeeds_reply _ _

end Example

namespace Service

variable {v : Service} {t : Moment} {r : Http.Request} {s : Store} {server : Id}

/-- A role that is created at a place that was asked for stands there, and at one at least. One that
is created without a place stands above all roles that its server had, if none of them is at the
highest position, and at one at least just if the server had no role or one at zero or above. -/
theorem position_created (h : v.Achieves t r s .createRole server)
    (hroom : ∀ q ∈ s.roles, q.server = server → q.position ≠ Int32.maxValue) :
    ∃ d role, v.Creates t r s d role ∧ role.server = server ∧
      (∀ p, d.position = some p → role.position = p ∧ 1 ≤ p) ∧
      (d.position = none →
        (∀ q ∈ s.roles, q.server = server → q.position < role.position) ∧
        (1 ≤ role.position ↔ (∀ q ∈ s.roles, q.server ≠ server) ∨
          ∃ q ∈ s.roles, q.server = server ∧ 0 ≤ q.position)) := by
  obtain ⟨d, role, hcreates, rfl⟩ := h.exists_creates
  have hplace : role.position = d.position.getD (nextPosition (s.serverRoles role.server)) :=
    congrArg Role.position hcreates.described
  have hroom' : ∀ q ∈ s.serverRoles role.server, q.position ≠ Int32.maxValue := by
    intro q hq
    obtain ⟨hq, hserver⟩ := Store.mem_serverRoles.1 hq
    exact hroom q hq hserver
  refine ⟨d, role, hcreates, rfl, ?_, ?_⟩
  · intro p hp
    have hfits := (RoleDraft.checkFields_eq_ok.1 hcreates.fields).1 p hp
    exact ⟨by rw [hplace, hp, Option.getD_some], of_decide_eq_true hfits⟩
  · intro hnone
    rw [hnone, Option.getD_none] at hplace
    rw [hplace]
    refine ⟨fun q hq hserver => ?_, ?_⟩
    · exact lt_nextPosition hroom' (Store.mem_serverRoles.2 ⟨hq, hserver⟩)
    · rw [one_le_nextPosition hroom', List.eq_nil_iff_forall_not_mem]
      simp only [Store.mem_serverRoles, not_and, and_assoc]

/-- The owner's warden goes above the guards. -/
theorem position_created_warden :
    Example.service.Achieves Example.moment Example.creation Example.freehold .createRole 1 ∧
      (∀ q ∈ Example.freehold.roles, q.server = 1 → q.position ≠ Int32.maxValue) ∧
      ∃ d role, Example.service.Creates Example.moment Example.creation Example.freehold d role ∧
        role.server = 1 ∧ (∀ p, d.position = some p → role.position = p ∧ 1 ≤ p) ∧
        (d.position = none →
          (∀ q ∈ Example.freehold.roles, q.server = 1 → q.position < role.position) ∧
          (1 ≤ role.position ↔ (∀ q ∈ Example.freehold.roles, q.server ≠ 1) ∨
            ∃ q ∈ Example.freehold.roles, q.server = 1 ∧ 0 ≤ q.position)) := by
  have hcommit : Example.freehold.commit (.createRole Example.warden) =
      .ok (.role Example.warden, Example.freehold.afterWrite (.createRole Example.warden)) := by
    decide
  have hachieves := Example.achieves_creation Example.letIn_creation rfl hcommit
  have hroom : ∀ q ∈ Example.freehold.roles, q.server = 1 → q.position ≠ Int32.maxValue := by
    decide
  exact ⟨hachieves, hroom, position_created hachieves hroom⟩

/-- Over a default role that is below zero the owner gets a role at zero. -/
theorem not_one_le_position_created :
    Example.service.Achieves Example.moment Example.creation Example.cellar .createRole 1 ∧
      (∀ q ∈ Example.cellar.roles, q.server = 1 → q.position ≠ Int32.maxValue) ∧
      ∃ d role, Example.service.Creates Example.moment Example.creation Example.cellar d role ∧
        role.server = 1 ∧ ¬ 1 ≤ role.position := by
  have hcommit : Example.cellar.commit (.createRole { Example.warden with position := 0 }) =
      .ok (.role { Example.warden with position := 0 },
        Example.cellar.afterWrite (.createRole { Example.warden with position := 0 })) := by
    decide
  have hachieves := Example.achieves_creation (s := Example.cellar) (by decide) rfl hcommit
  obtain ⟨d, role, hcreates, hserver⟩ := hachieves.exists_creates
  refine ⟨hachieves, by decide, d, role, hcreates, hserver, ?_⟩
  cases Example.readBody_creation.symm.trans hcreates.body
  rw [hcreates.described, hserver]
  decide

end Service

end Guildhall
