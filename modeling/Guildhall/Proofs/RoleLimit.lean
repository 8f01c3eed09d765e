-- SUMMARY: The limit on the roles of a server: which creations meet it, and that no run of requests exceeds it.
import Guildhall.Proofs.Anchors
import Guildhall.Proofs.Atomicity
import Guildhall.Proofs.Resubmission

/-!
# The limit on roles

A server has room for another role as long as it has fewer roles than the limit, its default role
not counted. `Store.roleCount` counts them. A write changes the count only if it creates or deletes
a role of the server, and then by one; so the count of a run never exceeds the limit, unless it did
so from the start. `Service.refuses_limitReached_iff` says which creations meet the limit:
those in whose way nothing stands before it, wherever there is no room.
-/

namespace Guildhall

/-! ## Counting -/

/-- How many roles a server has besides its default roles. -/
def Store.roleCount (s : Store) (server : Id) : Nat :=
  s.roles.toList.countP fun r => r.server == server && !r.isDefault

namespace Store

variable {s s' : Store} {w : Write} {server : Id} {limits : Limits} {fresh user : Id}

theorem length_assigned (s : Store) (server : Id) :
    ((s.serverRoles server).filter (!·.isDefault)).length = s.roleCount server := by
  rw [← List.countP_eq_length_filter, serverRoles, (sortBy_perm _ _).countP_eq, List.countP_filter,
    roleCount]
  exact List.countP_congr fun r _ => by rw [Bool.and_comm]

/-- The roles that stay count as before, and those that are created come on top. -/
theorem Follows.roleCount (h : s.Follows w s') (server : Id) :
    s'.roleCount server =
      (s.roles.toList.countP fun r =>
        (w.onRole r).isSome && (r.server == server && !r.isDefault)) +
      w.newRoles.countP fun r => r.server == server && !r.isDefault := by
  rw [Store.roleCount, h.roles, List.countP_append, List.countP_filterMap]
  congr 1
  refine List.countP_congr fun r _ => ?_
  cases hon : w.onRole r with
  | none => simp
  | some r' =>
    obtain ⟨-, hserver, hdefault⟩ := Write.onRole_eq_some hon
    simp [hserver, hdefault]

/-- A creation raises the count of its server by one. -/
theorem Follows.roleCount_createRole {role : Role} (h : s.Follows (.createRole role) s')
    (hd : role.isDefault = false) (server : Id) :
    s'.roleCount server = s.roleCount server + if role.server = server then 1 else 0 := by
  rw [h.roleCount, Store.roleCount]
  by_cases hserver : role.server = server
  · simp [Write.onRole, Write.newRoles, hd, hserver]
  · simp [Write.onRole, Write.newRoles, hserver]

/-- A deletion takes just the one role away. -/
theorem Follows.toList_deleteRole {r : Role} (h : s.Follows (.deleteRole r.server r.id) s')
    (hr : r ∈ s.roles) : s'.roles.toList = s.roles.toList.erase r := by
  have hnodup : s.roles.toList.Nodup := .of_map _ s.roles.nodup
  have hon : ∀ q ∈ s.roles.toList,
      (Write.deleteRole r.server r.id).onRole q = Option.guard (· != r) q := by
    intro q hq
    by_cases hqr : q = r
    · simp [Write.onRole, Option.guard, hqr]
    · have hid : q.id ≠ r.id := fun hid => hqr (eq_of_id_eq hq hr hid)
      simp [Write.onRole, Option.guard, hid, hqr]
  have hnew : (Write.deleteRole r.server r.id).newRoles = [] := rfl
  rw [h.roles, hnew, List.append_nil, List.filterMap_congr hon, List.filterMap_eq_filter,
    hnodup.erase_eq_filter]

/-- A deletion lowers the count of its server by one. -/
theorem Follows.roleCount_deleteRole {sv id : Id} (h : s.Follows (.deleteRole sv id) s')
    (ha : s.Admits (.deleteRole sv id)) (server : Id) :
    s'.roleCount server + (if sv = server then 1 else 0) = s.roleCount server := by
  obtain ⟨r, hr, hd⟩ := ha
  obtain ⟨hrs, rfl, rfl⟩ := findRole_eq_some.1 hr
  have hsplit : s.roles.toList.Perm (r :: s'.roles.toList) := by
    rw [h.toList_deleteRole hrs]
    exact List.perm_cons_erase hrs
  rw [Store.roleCount, Store.roleCount, hsplit.countP_eq, List.countP_cons]
  simp [hd]

/-- No other write changes a count. -/
theorem Follows.roleCount_eq (h : s.Follows w s') (hc : ∀ role, w ≠ .createRole role)
    (hd : ∀ sv id, w ≠ .deleteRole sv id) (server : Id) :
    s'.roleCount server = s.roleCount server := by
  have hnew : w.newRoles = [] :=
    List.eq_nil_iff_forall_not_mem.2 fun r hr => hc r (Write.eq_createRole_of_mem_newRoles hr)
  rw [h.roleCount, hnew, List.countP_nil, Nat.add_zero, Store.roleCount]
  refine List.countP_congr fun r _ => ?_
  cases hon : w.onRole r with
  | none => exact absurd (Write.eq_deleteRole_of_onRole hon) (hd _ _)
  | some r' => simp

/-- Whoever is entitled to create a role has found room for it. -/
theorem Entitles.room_of_createRole {role : Role} (h : s.Entitles limits fresh user (.createRole role)) :
    s.roleCount role.server < limits.rolesPerServer := by
  cases h with
  | inServer member permitted warranted =>
    cases warranted with
    | createRole fields name room granted place below =>
      rw [roles_recordsOf, length_assigned] at room
      rwa [server_recordsOf]

/-- A write keeps the count of a server within any bound that reaches the limit. -/
theorem roleCount_le_of_follows {bound : Nat} (hbound : limits.rolesPerServer ≤ bound)
    (hw : s.Entitles limits fresh user w) (ha : s.Admits w) (hf : s.Follows w s') {server : Id}
    (h : s.roleCount server ≤ bound) : s'.roleCount server ≤ bound := by
  cases w with
  | createRole role =>
    rw [hf.roleCount_createRole (hw.of_createRole rfl).2.1]
    have hroom := hw.room_of_createRole
    split
    · rename_i hserver
      rw [hserver] at hroom
      omega
    · exact h
  | deleteRole sv id =>
    have hlower := hf.roleCount_deleteRole ha server
    omega
  | updateRole | moveRole | assignRole | unassignRole | removeMember | replaceOverrides =>
    rwa [hf.roleCount_eq (fun _ h => by cases h) fun _ _ h => by cases h]

end Store

/-!
## Creations that meet the limit

No check but the one for room fails with `limitReached`, so a creation that does has passed all
checks before it, and where there is room none behind it can fail in this way.
-/

theorem refuseProblems_ne_limitReached {problems : List String} {m : String} :
    refuseProblems problems ≠ .error (.limitReached m) := by
  unfold refuseProblems
  split
  all_goals simp

theorem checkRoleName_ne_limitReached {name m : String} :
    checkRoleName name ≠ .error (.limitReached m) := by
  unfold checkRoleName
  split
  · simp
  · split
    all_goals simp

theorem checkEscalation_ne_limitReached {held ps : PermissionSet} {isOwner : Bool} {m : String} :
    checkEscalation held isOwner ps ≠ .error (.limitReached m) := by
  unfold checkEscalation
  dsimp only
  split
  · simp
  · split
    all_goals simp

theorem Member.checkOutranksRole_ne_limitReached {actor : Member} {roles : List Role}
    {position : Int32} {m : String} :
    actor.checkOutranksRole roles position ≠ .error (.limitReached m) := by
  unfold Member.checkOutranksRole
  split
  · simp
  · split
    all_goals simp

section

variable {a : Access} {records : ServerRecords} {m : String}

theorem Access.misconfigured_ne_limitReached (hs : a.scope = .server records) :
    a.misconfigured ≠ .limitReached m := by
  simp [Access.misconfigured, Access.records?, hs, ServerRecords.misconfigured]

theorem Access.effective_ne_limitReached (hs : a.scope = .server records) :
    a.effective ≠ .error (.limitReached m) := by
  simp only [Access.effective, hs]
  split
  · simp [Access.misconfigured_ne_limitReached hs]
  · simp

theorem Access.require_ne_limitReached (hs : a.scope = .server records) {p : Option Permission} :
    a.require p ≠ .error (.limitReached m) := by
  unfold Access.require
  split
  · simp
  · split
    · simp
    · rename_i why _
      cases why with
      | misconfigured => exact fun h => misconfigured_ne_limitReached hs (Except.error.inj h)
      | missingPermission | notAllowedInDm | notRecipient | channelOutsideServer =>
        exact fun h => by cases h

/-- A creation meets the limit if its body is in order and there is no room. -/
theorem planCreate_eq_limitReached {limits : Limits} {fresh : Id} {d : RoleDraft}
    (hs : a.scope = .server records) :
    (∃ m, planCreate limits a fresh d = .error (.limitReached m)) ↔
      d.checkFields = .ok () ∧ checkRoleName d.name = .ok () ∧
        limits.rolesPerServer ≤ (records.roles.filter (!·.isDefault)).length := by
  have hrecords : a.serverRecords = .ok records := by
    simp [Access.serverRecords, Access.records?, hs]
  constructor
  · rintro ⟨m, h⟩
    obtain ⟨⟨⟩, hfields, h⟩ := (bind_eq_error_iff_of_ne refuseProblems_ne_limitReached).1 h
    obtain ⟨⟨⟩, hname, h⟩ := (bind_eq_error_iff_of_ne checkRoleName_ne_limitReached).1 h
    refine ⟨hfields, hname, Nat.le_of_not_lt fun hroom => ?_⟩
    rw [hrecords] at h
    replace h := (if_neg (Nat.not_le.2 hroom)).symm.trans h
    obtain ⟨held, -, h⟩ := (bind_eq_error_iff_of_ne (Access.effective_ne_limitReached hs)).1 h
    obtain ⟨⟨⟩, -, h⟩ := (bind_eq_error_iff_of_ne checkEscalation_ne_limitReached).1 h
    obtain ⟨⟨⟩, -, h⟩ := (bind_eq_error_iff_of_ne Member.checkOutranksRole_ne_limitReached).1 h
    cases h
  · rintro ⟨hfields, hname, hfull⟩
    simp only [planCreate, hfields, hname, hrecords, bind, Except.bind, if_pos hfull]
    exact ⟨_, rfl⟩

theorem Store.createRole_ne_limitReached {s : Store} {role : Role} :
    s.createRole role ≠ .error (.limitReached m) := by
  unfold Store.createRole
  split
  · simp
  · split
    all_goals simp

theorem readBody_ne_refused {α : Type} {c : Json.Codec α} {r : Http.Request} {why : Refusal} :
    readBody c r ≠ .error (.refused why) := by
  unfold readBody
  split
  · simp
  · split
    · simp
    · cases c.readText r.body <;> simp [Except.mapError]

theorem authenticate_ne_limitReached {secret : String} {now : Int} {r : Http.Request} :
    authenticate secret now r ≠ .error (.limitReached m) := by
  unfold authenticate tokenUser
  split
  · simp
  · split
    · simp
    · split
      · simp
      · split
        all_goals simp

theorem neededPathId_ne_limitReached {ps : Http.Parameters} {name : String} :
    neededPathId ps name ≠ .error (.limitReached m) := by
  cases hp : Http.parameter? ps name with
  | none => simp [neededPathId, pathId, hp, bind, Except.bind, throw, throwThe, MonadExceptOf.throw]
  | some value =>
    cases hv : Id.ofString? value with
    | none => simp [neededPathId, pathId, hp, hv, bind, Except.bind]
    | some i => simp [neededPathId, pathId, hp, hv, bind, Except.bind, pure, Except.pure]

theorem Store.loadServerAccess_ne_limitReached {s : Store} {user server : Id} :
    s.loadServerAccess user server ≠ .error (.limitReached m) := by
  unfold loadServerAccess loadRecords
  cases s.findMember server user <;> simp [bind, Except.bind, pure, Except.pure]

section

variable {g : Gate} {ps : Http.Parameters} {user : Id} {s : Store}

theorem Gate.load_ne_limitReached (hk : g.kind = .server) :
    g.load ps user s ≠ .error (.limitReached m) := by
  intro h
  simp only [load, hk] at h
  obtain ⟨server, -, h⟩ := (bind_eq_error_iff_of_ne neededPathId_ne_limitReached).1 h
  exact Store.loadServerAccess_ne_limitReached h

theorem Gate.enter_ne_limitReached (hk : g.kind = .server) :
    g.enter ps (some user) s ≠ .error (.limitReached m) := by
  intro h
  obtain ⟨access, hload, h⟩ := (bind_eq_error_iff_of_ne (load_ne_limitReached hk)).1 h
  obtain ⟨member, -, -, rfl⟩ := load_server hk hload
  obtain ⟨⟨⟩, -, h⟩ := (bind_eq_error_iff_of_ne (Access.require_ne_limitReached rfl)).1 h
  cases h

/-- Nobody is kept out of a server for want of room. -/
theorem Gate.letIn_ne_limitReached (hk : g.kind = .server) :
    g.letIn ps (some user) s ≠ .error (.refused (.limitReached m)) := by
  intro h
  unfold letIn at h
  split at h
  · cases h
  · rename_i decoded _
    have henter : refusing (g.enter decoded (some user) s) ≠ .error (.refused (.limitReached m)) :=
      refusing_eq_error.not.2 (enter_ne_limitReached hk)
    obtain ⟨access, -, h⟩ := (bind_eq_error_iff_of_ne henter).1 h
    cases h

end

end

/-! ## Responses -/

/-- Whether the body of a request describes a role, and nothing is wrong with the description. -/
def Http.Request.DescribesRole (r : Http.Request) : Prop :=
  ∃ d, readBody RoleDraft.codec r = .ok d ∧ d.checkFields = .ok () ∧ checkRoleName d.name = .ok ()

theorem Endpoint.eq_roles_of_createRole {e : Endpoint} {method : String}
    (h : e.action? method = some .createRole) : e = .roles := by
  obtain ⟨p, hf, hp⟩ := Option.map_eq_some_iff.1 h
  have honly : ∀ e : Endpoint, ∀ p ∈ e.actions, p.2 = .createRole → e = .roles := by
    intro e
    cases e <;> decide
  exact honly e p (List.mem_of_find?_eq_some hf) hp

theorem Refusal.code_eq_limitReached {why : Refusal} :
    why.code = "LIMIT_REACHED" ↔ ∃ m, why = .limitReached m := by
  cases why <;> simp [code]

namespace Service

variable {v : Service} {t : Moment} {r : Http.Request} {s : Store} {endpoint : Endpoint}
  {ps : Http.Parameters} {entry : Entry} {m : String}

theorem enter_ne_limitReached (hk : endpoint.scopeKind = .server) {action : Action} :
    v.enter t.now r endpoint ps action s ≠ .error (.refused (.limitReached m)) := by
  intro h
  obtain ⟨user, -, h⟩ :=
    (bind_eq_error_iff_of_ne (refusing_eq_error.not.2 authenticate_ne_limitReached)).1 h
  obtain ⟨access, -, h⟩ := (bind_eq_error_iff_of_ne (Gate.letIn_ne_limitReached hk)).1 h
  cases h

/-- A creation is planned up to the limit if its body is in order and there is no room. -/
theorem plan_eq_limitReached {records : ServerRecords} (ha : entry.action = .createRole)
    (hs : entry.access.scope = .server records) :
    (∃ m, entry.action.plan v.limits entry.access entry.parameters r t.fresh s =
        .error (.refused (.limitReached m))) ↔
      r.DescribesRole ∧
        v.limits.rolesPerServer ≤ (records.roles.filter (!·.isDefault)).length := by
  simp only [ha, Action.plan, bind_eq_error_iff_of_ne readBody_ne_refused, committing_eq_error]
  rw [exists_comm]
  simp only [exists_and_left, planCreate_eq_limitReached hs, Http.Request.DescribesRole]
  constructor
  · rintro ⟨d, hread, hfields, hname, hfull⟩
    exact ⟨⟨d, hread, hfields, hname⟩, hfull⟩
  · rintro ⟨⟨d, hread, hfields, hname⟩, hfull⟩
    exact ⟨d, hread, hfields, hname, hfull⟩

/-- The store does not refuse a role for want of room: only its plan does. -/
theorem perform_eq_limitReached {records : ServerRecords} (ha : entry.action = .createRole)
    (hs : entry.access.scope = .server records) :
    (v.perform t.fresh r entry s).1 = .error (.refused (.limitReached m)) ↔
      entry.action.plan v.limits entry.access entry.parameters r t.fresh s =
        .error (.refused (.limitReached m)) := by
  cases hp : entry.action.plan v.limits entry.access entry.parameters r t.fresh s with
  | error why => simp [perform, hp]
  | ok plan =>
    cases plan with
    | answer body => simp [perform_of_answer hp]
    | commit w =>
      obtain ⟨-, hmakes⟩ := Action.warrants_of_plan hs hp
      obtain ⟨role, rfl⟩ := (ha ▸ hmakes).exists_createRole
      cases hc : s.commit (.createRole role) with
      | error why =>
        have hne : why ≠ .limitReached m := by
          rintro rfl
          exact Store.createRole_ne_limitReached hc
        simp [perform, hp, hc, hne]
      | ok done => simp [perform_of_commit hp hc]

/-- A creation is refused for want of room if nothing else stands in its way before: its sender is let
in, its body describes a role, and the server has at least as many roles as the limit. -/
theorem refuses_limitReached_iff (h : r.Selects .createRole) :
    (v.respond t r s).1.Refuses 403 "LIMIT_REACHED" ↔
      v.LetsIn t r .createRole s ∧ r.DescribesRole ∧
        ∃ server, r.Addresses (.server, server) ∧
          v.limits.rolesPerServer ≤ s.roleCount server := by
  obtain ⟨endpoint, spelled, hf, ha⟩ := h
  obtain rfl := Endpoint.eq_roles_of_createRole ha
  have hhead : r.method ≠ "HEAD" := by
    intro hm
    rw [hm] at ha
    exact absurd ha (by decide)
  have houtcome : (v.respond t r s).1.Refuses 403 "LIMIT_REACHED" ↔
      ∃ m, (v.act t r .roles spelled .createRole s).1 = .error (.refused (.limitReached m)) := by
    rw [respond_of_action hf ha]
    cases hact : (v.act t r .roles spelled .createRole s).1 with
    | error why =>
      rw [refuses_sent_error hhead]
      constructor
      · rintro ⟨refusal, rfl, -, hcode⟩
        obtain ⟨m, rfl⟩ := Refusal.code_eq_limitReached.1 hcode
        exact ⟨m, rfl⟩
      · rintro ⟨m, hm⟩
        cases hm
        exact ⟨_, rfl, rfl, rfl⟩
    | ok reply =>
      refine iff_of_false ?_ (by simp)
      rintro ⟨hstatus, -⟩
      have hok := (succeeds_of_act hact).2
      rw [status_sent] at hstatus
      omega
  rw [houtcome]
  cases he : v.enter t.now r .roles spelled .createRole s with
  | error why =>
    refine iff_of_false ?_ ?_
    · rintro ⟨m, hm⟩
      simp only [act, he, Except.error.injEq] at hm
      exact enter_ne_limitReached rfl (hm ▸ he)
    · rintro ⟨⟨endpoint, spelled', entry, hf', ha', he'⟩, -⟩
      cases hf.symm.trans hf'
      cases he.symm.trans he'
  | ok entry =>
    obtain ⟨user, -, hentry, hd, hload, -⟩ := enter_eq_ok he
    obtain ⟨member, hnamed, -, haccess⟩ := Gate.load_server rfl hload
    have hscope := congrArg Access.scope haccess
    rw [act_of_enter he]
    simp only [perform_eq_limitReached hentry hscope, plan_eq_limitReached hentry hscope,
      Store.roles_recordsOf, Store.length_assigned]
    constructor
    · rintro ⟨hdescribes, hfull⟩
      exact ⟨⟨.roles, spelled, entry, hf, ha, he⟩, hdescribes, member.server,
        Http.Request.addresses_of_named hf hd hnamed, hfull⟩
    · rintro ⟨-, hdescribes, server, haddresses, hfull⟩
      obtain rfl : server = member.server :=
        Option.some.inj ((haddresses.named hf hd).2.symm.trans hnamed)
      exact ⟨hdescribes, hfull⟩

/-- Whether a request asks for an action in a server, and has success. -/
structure Achieves (v : Service) (t : Moment) (r : Http.Request) (s : Store) (action : Action)
    (server : Id) : Prop where
  selects : r.Selects action
  addresses : r.Addresses (.server, server)
  succeeds : (v.respond t r s).1.Succeeds

/-- A creation that has success raises the count of its server by one. -/
theorem Achieves.roleCount_createRole {server : Id} (h : v.Achieves t r s .createRole server) :
    (v.respond t r s).2.roleCount server = s.roleCount server + 1 := by
  obtain ⟨user, endpoint, entry, w, receipt, hplans, ha, hc⟩ :=
    plans_of_succeeds (by decide) h.selects h.succeeds
  have hd := hplans.decides
  obtain ⟨role, rfl⟩ := (ha ▸ hd.makes).exists_createRole
  have hserver : role.server = server := congrArg Prod.snd (hd.about_eq h.addresses)
  rw [(Store.commit_ok hc).2.roleCount_createRole (hd.entitled.of_createRole rfl).2.1, if_pos hserver]

/-- A deletion that has success lowers the count of its server by one. -/
theorem Achieves.roleCount_deleteRole {server : Id} (h : v.Achieves t r s .deleteRole server) :
    (v.respond t r s).2.roleCount server + 1 = s.roleCount server := by
  obtain ⟨user, endpoint, entry, w, receipt, hplans, ha, hc⟩ :=
    plans_of_succeeds (by decide) h.selects h.succeeds
  have hd := hplans.decides
  obtain ⟨sv, id, rfl⟩ := (ha ▸ hd.makes).exists_deleteRole
  have hserver : sv = server := congrArg Prod.snd (hd.about_eq h.addresses)
  obtain ⟨hadmits, hfollows⟩ := Store.commit_ok hc
  rw [← hfollows.roleCount_deleteRole hadmits server, if_pos hserver]

/-- Nothing else changes the count of a server. -/
theorem roleCount_respond_eq {server : Id} (hcreate : ¬ v.Achieves t r s .createRole server)
    (hdelete : ¬ v.Achieves t r s .deleteRole server) :
    (v.respond t r s).2.roleCount server = s.roleCount server := by
  obtain hsame | ⟨user, endpoint, entry, w, receipt, hplans, hc⟩ := v.respond_plans t r s
  · rw [hsame]
  obtain hsame | hok := v.succeeds_or_unchanged t r s
  · rw [hsame]
  have hd := hplans.decides
  obtain ⟨hadmits, hfollows⟩ := Store.commit_ok hc
  obtain ⟨spelled, hf, hdecoded⟩ := hplans.path
  have haddresses : r.Addresses w.about := by
    rw [← Prod.eta w.about, hd.makes.about hd.method]
    exact Http.Request.addresses_of_named hf hdecoded (hd.makes.about hd.method ▸ hd.named)
  have hselects : r.Selects entry.action := ⟨endpoint, spelled, hf, hplans.method⟩
  cases w with
  | createRole role =>
    have hserver : role.server ≠ server := by
      rintro rfl
      exact hcreate ⟨hd.makes.eq_createRole ▸ hselects, haddresses, hok⟩
    rw [hfollows.roleCount_createRole (hd.entitled.of_createRole rfl).2.1, if_neg hserver,
      Nat.add_zero]
  | deleteRole sv id =>
    have hserver : sv ≠ server := by
      rintro rfl
      exact hdelete ⟨hd.makes.eq_deleteRole ▸ hselects, haddresses, hok⟩
    rw [← hfollows.roleCount_deleteRole hadmits server, if_neg hserver, Nat.add_zero]
  | updateRole | moveRole | assignRole | unassignRole | removeMember | replaceOverrides =>
    exact hfollows.roleCount_eq (fun _ h => by cases h) (fun _ _ h => by cases h) server

/-- No run takes the count of a server beyond the limit, or beyond what it was if that was more. -/
theorem roleCount_after_le (v : Service) (s : Store) (requests : List (Moment × Http.Request))
    (server : Id) :
    (v.after s requests).roleCount server ≤ max v.limits.rolesPerServer (s.roleCount server) := by
  refine after_keeps (I := fun s' => s'.roleCount server ≤ _) (v.sentBy_anyone requests) ?_
    (Nat.le_max_right _ _)
  intro s₁ s₂ user fresh w h _ hw ha hf
  exact Store.roleCount_le_of_follows (Nat.le_max_left _ _) hw ha hf h

/-- The limit on roles holds in every run of requests, whoever sends them: no server comes to have
more roles besides its default role than the limit or than it had before. A creation is refused with
`LIMIT_REACHED` just if its sender is let in, its body describes a role and the server has at least as
many roles as the limit. Each creation that has success raises the count of its server by one, each
such deletion lowers it by one, and nothing else changes it. -/
theorem roleCount_limited (v : Service) :
    (∀ s requests server, (v.after s requests).roleCount server ≤
      max v.limits.rolesPerServer (s.roleCount server)) ∧
    ∀ t r s,
      (r.Selects .createRole → ((v.respond t r s).1.Refuses 403 "LIMIT_REACHED" ↔
        v.LetsIn t r .createRole s ∧ r.DescribesRole ∧
          ∃ server, r.Addresses (.server, server) ∧
            v.limits.rolesPerServer ≤ s.roleCount server)) ∧
      ∀ server,
        (v.Achieves t r s .createRole server →
          (v.respond t r s).2.roleCount server = s.roleCount server + 1) ∧
        (v.Achieves t r s .deleteRole server →
          (v.respond t r s).2.roleCount server + 1 = s.roleCount server) ∧
        (¬ v.Achieves t r s .createRole server → ¬ v.Achieves t r s .deleteRole server →
          (v.respond t r s).2.roleCount server = s.roleCount server) := by
  refine ⟨v.roleCount_after_le, fun t r s => ⟨refuses_limitReached_iff, fun server => ?_⟩⟩
  exact ⟨Achieves.roleCount_createRole, Achieves.roleCount_deleteRole, roleCount_respond_eq⟩

end Service

/-! ## An example -/

namespace Example

/-- A service that allows one role in each server. -/
def confined : Service := { service with limits := ⟨1, 100⟩ }

end Example

/-- With room for one role the owner gets no second one; without the limit they do. -/
theorem Service.roleCount_limited_creation :
    (Example.confined.respond Example.moment Example.creation Example.freehold).1.Refuses 403
        "LIMIT_REACHED" ∧
      (Example.service.respond Example.moment Example.creation Example.freehold).2.roleCount 1 = 2 := by
  have hselects : Example.creation.Selects .createRole := ⟨.roles, _, Example.find_creation, rfl⟩
  have haddresses : Example.creation.Addresses (.server, 1) := by
    refine ⟨.roles, _, Example.find_creation, rfl, ?_⟩
    decide +kernel
  have hlet : Example.confined.LetsIn Example.moment Example.creation .createRole Example.freehold :=
    ⟨.roles, _, _, Example.find_creation, rfl,
      enter_of_letIn (Example.authenticate_submission _ _ _) Example.letIn_creation⟩
  have hdescribes : Example.creation.DescribesRole := by
    refine ⟨⟨"warden", none, [], none⟩, ?_, ?_, ?_⟩
    all_goals decide +kernel
  have hfull : Example.confined.limits.rolesPerServer ≤ Example.freehold.roleCount 1 := by
    decide +kernel
  have hachieves : Example.service.Achieves Example.moment Example.creation Example.freehold
      .createRole 1 := by
    refine ⟨hselects, haddresses, ?_⟩
    obtain hsame | hok := Example.service.succeeds_or_unchanged Example.moment Example.creation
      Example.freehold
    · rw [Example.respond_creation] at hsame
      exact absurd hsame (by decide +kernel)
    · exact hok
  refine ⟨?_, ?_⟩
  · exact (((roleCount_limited _).2 _ _ _).1 hselects).2 ⟨hlet, hdescribes, 1, haddresses, hfull⟩
  · exact (((roleCount_limited _).2 _ _ _).2 1).1 hachieves

end Guildhall
