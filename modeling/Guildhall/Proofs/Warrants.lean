-- SUMMARY: Every write that a request can lead to, with all that has been checked when it is decided on.
import Guildhall.Proofs.Responses
import Guildhall.Proofs.Writes

/-!
# Warranted writes

A request changes the store by one write at most. `ServerRecords.Warrants` lists the writes
that an action decides on, each with all the checks it has passed; `Store.Entitles` adds the
gate in front of the action, and `Service.DecidesOn` the way of the request to it.
`Service.respond_plans` says that a response leaves the store as it was, or commits a write that its
request planned. Of the plan, `Service.respond_decides` keeps the checks that the request has passed,
and `Service.respond_cases` only who sent it and that they were entitled to the write.
-/

namespace Guildhall

/-! ## Outcomes -/

theorem bind_eq_ok {ε α β : Type} {x : Except ε α} {f : α → Except ε β} {b : β} :
    (x >>= f) = .ok b ↔ ∃ a, x = .ok a ∧ f a = .ok b := by
  cases x with
  | error e => simp [bind, Except.bind]
  | ok a => simp [bind, Except.bind]

theorem pure_eq_ok {ε α : Type} {a b : α} : (pure a : Except ε α) = .ok b ↔ a = b := by
  simp [pure, Except.pure]

/-- What stands behind a guard is only reached if the guard does not throw. -/
theorem guard_eq_ok {ε α β : Type} {c : Prop} [Decidable c] {e : ε} {f : α → Except ε β}
    {x : Except ε β} {b : β} :
    (if c then throw e >>= f else x) = .ok b ↔ ¬ c ∧ x = .ok b := by
  by_cases hc : c
  · simp [hc, throw, throwThe, MonadExceptOf.throw, bind, Except.bind]
  · simp [hc]

theorem refusing_eq_ok {α : Type} {x : Except Refusal α} {a : α} :
    refusing x = .ok a ↔ x = .ok a := by
  cases x with
  | error e => simp [refusing, Except.mapError]
  | ok b => simp [refusing, Except.mapError]

theorem committing_eq_ok {x : Except Refusal Write} {w : Write} :
    committing x = .ok (.commit w) ↔ x = .ok w := by
  cases x with
  | error e => simp [committing, refusing, Except.mapError, Except.map]
  | ok w' => simp [committing, refusing, Except.mapError, Except.map]

/-- What is behind a step that does not fail in some way is what fails in that way. -/
theorem bind_eq_error_iff_of_ne {ε α β : Type} {x : Except ε α} {f : α → Except ε β} {e : ε}
    (hx : x ≠ .error e) : (x >>= f) = .error e ↔ ∃ a, x = .ok a ∧ f a = .error e := by
  cases x with
  | error e' =>
    have he : e' ≠ e := fun he => hx (by rw [he])
    simp [bind, Except.bind, he]
  | ok a => simp [bind, Except.bind]

theorem refusing_eq_error {α : Type} {x : Except Refusal α} {why : Refusal} :
    refusing x = .error (.refused why) ↔ x = .error why := by
  cases x with
  | error e => simp [refusing, Except.mapError]
  | ok b => simp [refusing, Except.mapError]

theorem committing_eq_error {x : Except Refusal Write} {why : Refusal} :
    committing x = .error (.refused why) ↔ x = .error why := by
  cases x with
  | error e => simp [committing, refusing, Except.mapError, Except.map]
  | ok w => simp [committing, refusing, Except.mapError, Except.map]

/-! ## Warrants -/

/-- The permission that the sender of a write needs. -/
def Write.permission : Write → Permission
  | .removeMember .. => .kickMembers
  | .replaceOverrides .. => .manageChannel
  | _ => .manageRoles

/-- The kind of write that an action asks for. -/
inductive Action.Makes : Action → Write → Prop
  | createRole {r : Role} : Makes .createRole (.createRole r)
  | updateRole {server role : Id} {patch : RolePatch} :
      Makes .updateRole (.updateRole server role patch)
  | moveRole {server role : Id} {expected position : Int32} :
      Makes .moveRole (.moveRole server role expected position)
  | deleteRole {server role : Id} : Makes .deleteRole (.deleteRole server role)
  | assignRole {server user role : Id} : Makes .assignRole (.assignRole server user role)
  | unassignRole {server user role : Id} : Makes .unassignRole (.unassignRole server user role)
  | removeMember {server user : Id} : Makes .removeMember (.removeMember server user)
  | replaceOverrides {channel : Id} {overrides : List Override} :
      Makes .replaceOverrides (.replaceOverrides channel overrides)

/-- An action needs the permission for the write that it makes. -/
theorem Action.Makes.permission {action : Action} {w : Write} (h : action.Makes w) :
    action.permission = some w.permission := by
  cases h <;> rfl

theorem Action.Makes.exists_createRole {w : Write} (h : Makes .createRole w) :
    ∃ role, w = .createRole role := by
  cases h
  exact ⟨_, rfl⟩

theorem Action.Makes.exists_updateRole {w : Write} (h : Makes .updateRole w) :
    ∃ server role patch, w = .updateRole server role patch := by
  cases h
  exact ⟨_, _, _, rfl⟩

theorem Action.Makes.exists_deleteRole {w : Write} (h : Makes .deleteRole w) :
    ∃ server role, w = .deleteRole server role := by
  cases h
  exact ⟨_, _, rfl⟩

theorem Action.Makes.eq_createRole {action : Action} {role : Role}
    (h : action.Makes (.createRole role)) : action = .createRole := by
  cases h
  rfl

theorem Action.Makes.eq_updateRole {action : Action} {server role : Id} {patch : RolePatch}
    (h : action.Makes (.updateRole server role patch)) : action = .updateRole := by
  cases h
  rfl

theorem Action.Makes.eq_deleteRole {action : Action} {server role : Id}
    (h : action.Makes (.deleteRole server role)) : action = .deleteRole := by
  cases h
  rfl

/-- What a write is about: a server, or one channel. -/
def Write.about : Write → ScopeKind × Id
  | .createRole r => (.server, r.server)
  | .updateRole server .. | .moveRole server .. | .deleteRole server .. | .assignRole server ..
  | .unassignRole server .. | .removeMember server .. => (.server, server)
  | .replaceOverrides channel _ => (.channel, channel)

namespace ServerRecords

variable {r : ServerRecords} {s : Store} {limits : Limits} {fresh : Id}

/-- Whether the member stands above a position. Owners stand above all. -/
def Outranks (r : ServerRecords) (position : Int32) : Prop :=
  r.member.isOwner = true ∨ position < r.member.rank r.roles

/-- Whether the member stands above another member. Nobody stands above the owner. -/
def OutranksMember (r : ServerRecords) (x : Member) : Prop :=
  x.isOwner = false ∧ (r.member.isOwner = true ∨ x.rank r.roles < r.member.rank r.roles)

/-- The writes that the records of a caller warrant in the server as a whole. -/
inductive Warrants (r : ServerRecords) (s : Store) (limits : Limits) (fresh : Id) : Write → Prop
  | createRole {d : RoleDraft} {position : Int32}
      (fields : d.checkFields = .ok ())
      (name : checkRoleName d.name = .ok ())
      (room : (r.roles.filter (!·.isDefault)).length < limits.rolesPerServer)
      (granted : PermissionSet.ofList d.permissions ⊆ r.resolve none)
      (place : position = d.position.getD (nextPosition r.roles))
      (below : r.Outranks position) :
      r.Warrants s limits fresh (.createRole
        { id := fresh, server := r.server, name := trim d.name, color := d.color, position,
          permissions := .ofList d.permissions, isDefault := false })
  | updateRole {role : Id} {target : Role} {e : RoleEdit}
      (fields : e.checkFields = .ok ())
      (found : r.findRole role = some target)
      (below : r.Outranks target.position)
      (name : checkRename target e.name = .ok ())
      (granted : ∀ ps, e.permissions = some ps →
        PermissionSet.ofList ps \ target.permissions ⊆ r.resolve none) :
      r.Warrants s limits fresh (.updateRole r.server role
        { name := e.name.map trim, color := e.color,
          permissions := e.permissions.map PermissionSet.ofList })
  | moveRole {role : Id} {target : Role} {m : RoleMove}
      (fields : m.checkFields = .ok ())
      (found : r.findRole role = some target)
      (assigned : target.isDefault = false)
      (below : r.Outranks target.position)
      (stillBelow : r.Outranks m.position) :
      r.Warrants s limits fresh (.moveRole r.server role m.expected m.position)
  | deleteRole {role : Id} {target : Role}
      (found : r.findRole role = some target)
      (assigned : target.isDefault = false)
      (below : r.Outranks target.position) :
      r.Warrants s limits fresh (.deleteRole r.server role)
  | assignRole {user role : Id} {x : Member} {target : Role}
      (member : s.findMember r.server user = some x)
      (above : r.member.isOwner = true ∨ r.OutranksMember x)
      (found : r.findRole role = some target)
      (assigned : target.isDefault = false)
      (below : r.Outranks target.position) :
      r.Warrants s limits fresh (.assignRole r.server user role)
  | unassignRole {user role : Id} {x : Member} {target : Role}
      (member : s.findMember r.server user = some x)
      (above : r.member.isOwner = true ∨ r.OutranksMember x)
      (found : r.findRole role = some target)
      (assigned : target.isDefault = false)
      (below : r.Outranks target.position) :
      r.Warrants s limits fresh (.unassignRole r.server user role)
  | removeMember {user : Id} {x : Member}
      (member : s.findMember r.server user = some x)
      (above : r.OutranksMember x) :
      r.Warrants s limits fresh (.removeMember r.server user)

/-- What is warranted in a server is about that server. -/
theorem Warrants.about {w : Write} (h : r.Warrants s limits fresh w) :
    w.about = (.server, r.server) := by
  cases h <;> rfl

/-! ## Plans -/

theorem targetRole_eq_ok {role : Id} {target : Role} :
    r.targetRole role = .ok target ↔ r.findRole role = some target := by
  unfold targetRole
  split
  · rename_i found
    simp [found]
  · rename_i missing
    simp [missing]

theorem targetMember_eq_ok {server user : Id} {x : Member} :
    targetMember s server user = .ok x ↔ s.findMember server user = some x := by
  unfold targetMember
  split
  · rename_i found
    simp [found]
  · rename_i missing
    simp [missing]

variable {a : Access}

private theorem serverRecords_eq_ok (hs : a.scope = .server r) : a.serverRecords = .ok r := by
  simp [Access.serverRecords, Access.records?, hs]

/-- Who hands out permissions has them: administrators have all. -/
private theorem subset_of_checkEscalation {held requested : PermissionSet} (hs : a.scope = .server r)
    (he : a.effective = .ok held)
    (h : checkEscalation held r.member.isOwner requested = .ok ()) : requested ⊆ r.resolve none := by
  have hheld : held = r.resolve none := by
    simp only [Access.effective, hs, Access.channel?] at he
    split at he
    · cases he
    · cases he
      rfl
  intro p hp
  obtain howner | hadmin | hsub := checkEscalation_eq_ok.1 h
  · simp [resolve, Member.resolve_none_of_isOwner howner]
  · rw [hheld] at hadmin
    exact Member.mem_resolve_none_of_admin hadmin p
  · exact hheld ▸ hsub hp

private theorem warrants_of_planCreate {d : RoleDraft} {w : Write} (hs : a.scope = .server r)
    (h : planCreate limits a fresh d = .ok w) : r.Warrants s limits fresh w ∧
      Action.createRole.Makes w := by
  simp only [planCreate, bind_eq_ok, guard_eq_ok, pure_eq_ok, serverRecords_eq_ok hs,
    Except.ok.injEq, exists_eq_left'] at h
  obtain ⟨⟨⟩, fields, ⟨⟩, name, room, held, heff, ⟨⟩, hesc, ⟨⟩, hrank, rfl⟩ := h
  have granted := subset_of_checkEscalation hs heff hesc
  have below := Member.checkOutranksRole_eq_ok.1 hrank
  exact ⟨.createRole fields name (Nat.lt_of_not_le room) granted rfl below, .createRole⟩

/-- What a change of a role has passed: all of it is checked in the caller's records. -/
theorem planUpdate_ok {role : Id} {e : RoleEdit} {w : Write} (hs : a.scope = .server r)
    (h : planUpdate a role e = .ok w) :
    e.checkFields = .ok () ∧
      w = .updateRole r.server role
        { name := e.name.map trim, color := e.color,
          permissions := e.permissions.map PermissionSet.ofList } ∧
      ∃ target, r.findRole role = some target ∧ r.Outranks target.position ∧
        checkRename target e.name = .ok () ∧
        ∀ ps, e.permissions = some ps →
          PermissionSet.ofList ps \ target.permissions ⊆ r.resolve none := by
  simp only [planUpdate, bind_eq_ok, pure_eq_ok, serverRecords_eq_ok hs, Except.ok.injEq,
    exists_eq_left', targetRole_eq_ok] at h
  obtain ⟨⟨⟩, fields, target, found, ⟨⟩, hrank, ⟨⟩, name, ⟨⟩, hgrant, rfl⟩ := h
  refine ⟨fields, rfl, target, found, Member.checkOutranksRole_eq_ok.1 hrank, name, ?_⟩
  intro ps hps
  simp only [checkRegrant, hps, Option.map_some, bind_eq_ok] at hgrant
  obtain ⟨held, heff, hesc⟩ := hgrant
  exact subset_of_checkEscalation hs heff hesc

private theorem warrants_of_planUpdate {role : Id} {e : RoleEdit} {w : Write}
    (hs : a.scope = .server r) (h : planUpdate a role e = .ok w) : r.Warrants s limits fresh w ∧
      Action.updateRole.Makes w := by
  obtain ⟨fields, rfl, target, found, below, name, granted⟩ := planUpdate_ok hs h
  exact ⟨.updateRole fields found below name granted, .updateRole⟩

/-- What a move of a role has passed: all of it is checked in the caller's records. -/
theorem planMove_ok {role : Id} {m : RoleMove} {w : Write} (hs : a.scope = .server r)
    (h : planMove a role m = .ok w) :
    m.checkFields = .ok () ∧ w = .moveRole r.server role m.expected m.position ∧
      r.Outranks m.position ∧
      ∃ target, r.findRole role = some target ∧ target.isDefault = false ∧
        r.Outranks target.position := by
  simp only [planMove, bind_eq_ok, guard_eq_ok, pure_eq_ok, serverRecords_eq_ok hs,
    Except.ok.injEq, exists_eq_left', targetRole_eq_ok, Bool.not_eq_true] at h
  obtain ⟨⟨⟩, fields, target, found, assigned, ⟨⟩, hfrom, ⟨⟩, hto, rfl⟩ := h
  have below := Member.checkOutranksRole_eq_ok.1 hfrom
  have stillBelow := Member.checkOutranksRole_eq_ok.1 hto
  exact ⟨fields, rfl, stillBelow, target, found, assigned, below⟩

private theorem warrants_of_planMove {role : Id} {m : RoleMove} {w : Write}
    (hs : a.scope = .server r) (h : planMove a role m = .ok w) : r.Warrants s limits fresh w ∧
      Action.moveRole.Makes w := by
  obtain ⟨fields, rfl, stillBelow, target, found, assigned, below⟩ := planMove_ok hs h
  exact ⟨.moveRole fields found assigned below stillBelow, .moveRole⟩

private theorem warrants_of_planDelete {role : Id} {w : Write} (hs : a.scope = .server r)
    (h : planDelete a role = .ok w) : r.Warrants s limits fresh w ∧
      Action.deleteRole.Makes w := by
  simp only [planDelete, bind_eq_ok, guard_eq_ok, pure_eq_ok, serverRecords_eq_ok hs,
    Except.ok.injEq, exists_eq_left', targetRole_eq_ok, Bool.not_eq_true] at h
  obtain ⟨target, found, assigned, ⟨⟩, hrank, rfl⟩ := h
  exact ⟨.deleteRole found assigned (Member.checkOutranksRole_eq_ok.1 hrank), .deleteRole⟩

private theorem checkAssignable_ok {user role : Id} (h : checkAssignable s r user role = .ok ()) :
    ∃ x target, s.findMember r.server user = some x ∧
      (r.member.isOwner = true ∨ r.OutranksMember x) ∧ r.findRole role = some target ∧
      target.isDefault = false ∧ r.Outranks target.position := by
  simp only [checkAssignable, bind_eq_ok, targetMember_eq_ok] at h
  obtain ⟨x, member, h⟩ := h
  cases howner : r.member.isOwner with
  | true =>
    simp only [howner, Bool.not_true, Bool.false_eq_true, if_false, bind_eq_ok, guard_eq_ok,
      targetRole_eq_ok, Bool.not_eq_true] at h
    obtain ⟨target, found, assigned, hrank⟩ := h
    exact ⟨x, target, member, .inl rfl, found, assigned, Member.checkOutranksRole_eq_ok.1 hrank⟩
  | false =>
    simp only [howner, Bool.not_false, if_true, bind_eq_ok, guard_eq_ok, targetRole_eq_ok,
      Bool.not_eq_true] at h
    obtain ⟨⟨⟩, habove, target, found, assigned, hrank⟩ := h
    exact ⟨x, target, member, .inr (Member.checkOutranksMember_eq_ok.1 habove), found, assigned,
      Member.checkOutranksRole_eq_ok.1 hrank⟩

private theorem warrants_of_planAssign {user role : Id} {w : Write} (hs : a.scope = .server r)
    (h : planAssign a s user role = .ok w) : r.Warrants s limits fresh w ∧
      Action.assignRole.Makes w := by
  simp only [planAssign, bind_eq_ok, pure_eq_ok, serverRecords_eq_ok hs, Except.ok.injEq,
    exists_eq_left'] at h
  obtain ⟨⟨⟩, hcheck, rfl⟩ := h
  obtain ⟨x, target, member, above, found, assigned, below⟩ := checkAssignable_ok hcheck
  exact ⟨.assignRole member above found assigned below, .assignRole⟩

private theorem warrants_of_planUnassign {user role : Id} {w : Write} (hs : a.scope = .server r)
    (h : planUnassign a s user role = .ok w) : r.Warrants s limits fresh w ∧
      Action.unassignRole.Makes w := by
  simp only [planUnassign, bind_eq_ok, pure_eq_ok, serverRecords_eq_ok hs, Except.ok.injEq,
    exists_eq_left'] at h
  obtain ⟨⟨⟩, hcheck, rfl⟩ := h
  obtain ⟨x, target, member, above, found, assigned, below⟩ := checkAssignable_ok hcheck
  exact ⟨.unassignRole member above found assigned below, .unassignRole⟩

private theorem warrants_of_planRemove {user : Id} {w : Write} (hs : a.scope = .server r)
    (h : planRemove a s user = .ok w) : r.Warrants s limits fresh w ∧
      Action.removeMember.Makes w := by
  simp only [planRemove, bind_eq_ok, pure_eq_ok, serverRecords_eq_ok hs, Except.ok.injEq,
    exists_eq_left', targetMember_eq_ok] at h
  obtain ⟨x, member, ⟨⟩, habove, rfl⟩ := h
  exact ⟨.removeMember member (Member.checkOutranksMember_eq_ok.1 habove), .removeMember⟩

end ServerRecords

/-! ## Actions -/

section

variable {action : Action} {limits : Limits} {a : Access} {ps : Http.Parameters}
  {r : Http.Request} {fresh : Id} {s : Store} {w : Write}

private theorem map_answer_ne_commit {x : Except Refusal Json} :
    refusing (x.map Plan.answer) ≠ .ok (.commit w) := by
  cases x with
  | error e => simp [refusing, Except.map, Except.mapError]
  | ok b => simp [refusing, Except.map, Except.mapError]

/-- In a server as a whole, an action decides on nothing but what the records warrant. -/
theorem Action.warrants_of_plan {records : ServerRecords} (hs : a.scope = .server records)
    (h : action.plan limits a ps r fresh s = .ok (.commit w)) :
    records.Warrants s limits fresh w ∧ action.Makes w := by
  cases action with
  | showPermissions => exact absurd h map_answer_ne_commit
  | listOverrides => simp [Action.plan] at h
  | listRoles => exact absurd h map_answer_ne_commit
  | replaceOverrides =>
    simp only [Action.plan, bind_eq_ok, committing_eq_ok] at h
    obtain ⟨ds, -, h⟩ := h
    simp [planOverrides, hs] at h
  | createRole =>
    simp only [Action.plan, bind_eq_ok, committing_eq_ok] at h
    obtain ⟨d, -, h⟩ := h
    exact ServerRecords.warrants_of_planCreate hs h
  | updateRole =>
    simp only [Action.plan, bind_eq_ok, committing_eq_ok] at h
    obtain ⟨role, -, e, -, h⟩ := h
    exact ServerRecords.warrants_of_planUpdate hs h
  | moveRole =>
    simp only [Action.plan, bind_eq_ok, committing_eq_ok] at h
    obtain ⟨role, -, m, -, h⟩ := h
    exact ServerRecords.warrants_of_planMove hs h
  | deleteRole =>
    simp only [Action.plan, bind_eq_ok, committing_eq_ok] at h
    obtain ⟨role, -, h⟩ := h
    exact ServerRecords.warrants_of_planDelete hs h
  | assignRole =>
    simp only [Action.plan, bind_eq_ok, committing_eq_ok] at h
    obtain ⟨user, -, role, -, h⟩ := h
    exact ServerRecords.warrants_of_planAssign hs h
  | unassignRole =>
    simp only [Action.plan, bind_eq_ok, committing_eq_ok] at h
    obtain ⟨user, -, role, -, h⟩ := h
    exact ServerRecords.warrants_of_planUnassign hs h
  | removeMember =>
    simp only [Action.plan, bind_eq_ok, committing_eq_ok] at h
    obtain ⟨user, -, h⟩ := h
    exact ServerRecords.warrants_of_planRemove hs h

/-- The role that a draft describes. It is put above `roles` if the draft does not say where. -/
def RoleDraft.role (d : RoleDraft) (fresh server : Id) (roles : List Role) : Role where
  id := fresh
  server := server
  name := trim d.name
  color := d.color
  position := d.position.getD (nextPosition roles)
  permissions := .ofList d.permissions
  isDefault := false

/-- A role that an action creates is the one that the body of the request describes. -/
theorem Action.exists_draft_of_plan {records : ServerRecords} {role : Role}
    (hs : a.scope = .server records)
    (h : action.plan limits a ps r fresh s = .ok (.commit (.createRole role))) :
    ∃ d, readBody RoleDraft.codec r = .ok d ∧ d.checkFields = .ok () ∧
      checkRoleName d.name = .ok () ∧ role = d.role fresh records.server records.roles := by
  obtain ⟨-, hmakes⟩ := Action.warrants_of_plan hs h
  obtain rfl := hmakes.eq_createRole
  simp only [Action.plan, bind_eq_ok, committing_eq_ok] at h
  obtain ⟨d, hread, h⟩ := h
  simp only [planCreate, bind_eq_ok, guard_eq_ok, pure_eq_ok, ServerRecords.serverRecords_eq_ok hs,
    Except.ok.injEq, exists_eq_left', Write.createRole.injEq] at h
  obtain ⟨⟨⟩, fields, ⟨⟩, name, -, -, -, ⟨⟩, -, ⟨⟩, -, rfl⟩ := h
  exact ⟨d, hread, fields, name, rfl⟩

/-- In a channel, the only write is the replacement of its overrides. -/
theorem Action.replaces_of_plan {c : Channel} {records : ServerRecords}
    (ha : action = .showPermissions ∨ action = .listOverrides ∨ action = .replaceOverrides)
    (hs : a.scope = .channel c records)
    (h : action.plan limits a ps r fresh s = .ok (.commit w)) :
    ∃ ds overrides, (records.overrideRules limits s).normalize ds = .ok overrides ∧
      (records.resolve (some { c with overrides })).grants .manageChannel = true ∧
      w = .replaceOverrides c.id overrides ∧ action.Makes w := by
  obtain rfl | rfl | rfl := ha
  · exact absurd h map_answer_ne_commit
  · simp [Action.plan] at h
  · simp only [Action.plan, bind_eq_ok, committing_eq_ok] at h
    obtain ⟨ds, -, h⟩ := h
    simp only [planOverrides, hs, bind_eq_ok, guard_eq_ok, pure_eq_ok, Bool.not_eq_true',
      Bool.not_eq_false] at h
    obtain ⟨overrides, hn, hkeeps, rfl⟩ := h
    exact ⟨ds, overrides, hn, hkeeps, rfl, .replaceOverrides⟩

theorem Action.not_commit_of_dm {c : Channel}
    (ha : action = .showPermissions ∨ action = .listOverrides ∨ action = .replaceOverrides)
    (hs : a.scope = .dm c) : action.plan limits a ps r fresh s ≠ .ok (.commit w) := by
  intro h
  obtain rfl | rfl | rfl := ha
  · exact map_answer_ne_commit h
  · simp [Action.plan] at h
  · simp only [Action.plan, bind_eq_ok, committing_eq_ok] at h
    obtain ⟨ds, -, h⟩ := h
    simp [planOverrides, hs] at h

end

/-! ## Gates -/

theorem Endpoint.action_of_channel {e : Endpoint} {method : String} {action : Action}
    (he : e.scopeKind = .channel) (h : e.action? method = some action) :
    action = .showPermissions ∨ action = .listOverrides ∨ action = .replaceOverrides := by
  obtain ⟨⟨name, a⟩, hf, rfl⟩ := Option.map_eq_some_iff.1 h
  have hmem := List.mem_of_find?_eq_some hf
  have hactions : e.actions = [("GET", .showPermissions)] ∨
      e.actions = [("GET", .listOverrides), ("PUT", .replaceOverrides)] := by
    cases e with
    | channelPermissions => exact .inl rfl
    | channelOverrides | serverChannelOverrides => exact .inr rfl
    | health | serverPermissions | roles | role | rolePosition | memberRole | member => cases he
  obtain hactions | hactions := hactions
  · simp only [hactions, List.mem_singleton, Prod.mk.injEq] at hmem
    exact .inl hmem.2
  · simp only [hactions, List.mem_cons, List.not_mem_nil, or_false, Prod.mk.injEq] at hmem
    exact .inr (hmem.imp And.right And.right)

theorem Access.require_eq_ok {a : Access} {p : Permission} :
    a.require (some p) = .ok () ↔ a.decide p = .allowed := by
  unfold Access.require
  cases hd : a.decide p with
  | allowed => simp [hd]
  | denied why => simp [hd]

/-- The name of the parameter that a server or a channel stands in. -/
def ScopeKind.parameter : ScopeKind → String
  | .server => "server_id"
  | .channel => "channel_id"

/-- Whether a parameter of the path spells the id of a server or a channel. -/
def NamedBy (ps : Http.Parameters) (scope : ScopeKind × Id) : Prop :=
  (Http.parameter? ps scope.1.parameter).bind Id.ofString? = some scope.2

theorem neededPathId_eq_ok {ps : Http.Parameters} {name : String} {id : Id} :
    neededPathId ps name = .ok id ↔ (Http.parameter? ps name).bind Id.ofString? = some id := by
  cases hp : Http.parameter? ps name with
  | none => simp [neededPathId, pathId, hp, bind, Except.bind, throw, throwThe,
      MonadExceptOf.throw]
  | some value =>
    cases hv : Id.ofString? value with
    | none => simp [neededPathId, pathId, hp, hv, bind, Except.bind]
    | some i => simp [neededPathId, pathId, hp, hv, bind, Except.bind, pure, Except.pure]

namespace Store

variable {s : Store} {user server id : Id} {routeServer : Option Id} {a : Access}

/-- In a server, members have a standing. -/
theorem loadServerAccess_eq_ok :
    s.loadServerAccess user server = .ok a ↔
      ∃ m, s.findMember server user = some m ∧ a = ⟨user, .server (s.recordsOf m)⟩ := by
  simp only [loadServerAccess, bind_eq_ok, loadRecords_eq_ok, pure_eq_ok]
  constructor
  · rintro ⟨r, ⟨m, hm, rfl⟩, rfl⟩
    exact ⟨m, hm, rfl⟩
  · rintro ⟨m, hm, rfl⟩
    exact ⟨_, ⟨m, hm, rfl⟩, rfl⟩

/-- In a direct message recipients have a standing, and in a text channel the members of its
server. A server in the route must be the channel's own. -/
theorem loadChannelAccess_eq_ok :
    s.loadChannelAccess user id routeServer = .ok a ↔ ∃ c, s.findChannel id = some c ∧
      (c.isDm = true ∧ routeServer = none ∧ c.isRecipient user = true ∧ a = ⟨user, .dm c⟩ ∨
        c.isDm = false ∧ ∃ m, c.server = some m.server ∧ (∀ r, routeServer = some r → r = m.server) ∧
          s.findMember m.server user = some m ∧ a = ⟨user, .channel c (s.recordsOf m)⟩) := by
  unfold loadChannelAccess
  cases hc : s.findChannel id with
  | none => simp
  | some c =>
    simp only [Option.some.injEq, exists_eq_left']
    cases hdm : c.isDm with
    | true =>
      cases routeServer with
      | some route => simp
      | none =>
        cases hr : c.isRecipient user with
        | false => simp
        | true => simp [eq_comm]
    | false =>
      cases hs : c.server with
      | none => simp
      | some server =>
        have hroute : routeServer.any (· != server) = true ↔
            ¬ ∀ r, routeServer = some r → r = server := by
          cases routeServer with
          | none => simp
          | some route => simp
        simp only [Bool.false_eq_true, if_false, false_and, false_or, true_and, Option.some.injEq]
        by_cases hin : ∀ r, routeServer = some r → r = server
        · rw [if_neg fun hany => hroute.1 hany hin]
          simp only [bind_eq_ok, loadRecords_eq_ok, pure_eq_ok]
          constructor
          · rintro ⟨r, ⟨m, hm, rfl⟩, rfl⟩
            obtain ⟨-, rfl, -⟩ := findMember_eq_some.1 hm
            exact ⟨m, rfl, hin, hm, rfl⟩
          · rintro ⟨m, rfl, -, hm, rfl⟩
            exact ⟨_, ⟨m, hm, rfl⟩, rfl⟩
        · rw [if_pos (hroute.2 hin)]
          simp only [reduceCtorEq, false_iff]
          rintro ⟨m, rfl, hin', -, -⟩
          exact hin hin'

end Store

namespace Gate

variable {g : Gate} {ps decoded : Http.Parameters} {user : Id} {s : Store} {a : Access}

theorem letIn_eq_ok (h : g.letIn ps (some user) s = .ok (a, decoded)) :
    Http.decodeParameters? ps = some decoded ∧ g.load decoded user s = .ok a ∧
      a.require g.permission = .ok () := by
  unfold letIn at h
  cases hd : Http.decodeParameters? ps with
  | none => simp [hd] at h
  | some d =>
    simp only [hd, bind_eq_ok, refusing_eq_ok, pure_eq_ok, Prod.mk.injEq, enter] at h
    obtain ⟨b, ⟨c, hload, ⟨⟩, hreq, rfl⟩, rfl, rfl⟩ := h
    exact ⟨rfl, hload, hreq⟩

/-- At the gate of a server stands a member of the server that the path names. -/
theorem load_server (hk : g.kind = .server) (h : g.load ps user s = .ok a) :
    ∃ m, NamedBy ps (.server, m.server) ∧ s.findMember m.server user = some m ∧
      a = ⟨user, .server (s.recordsOf m)⟩ := by
  simp only [load, hk, bind_eq_ok, neededPathId_eq_ok, Store.loadServerAccess_eq_ok] at h
  obtain ⟨server, hserver, m, hm, rfl⟩ := h
  obtain ⟨-, rfl, -⟩ := Store.findMember_eq_some.1 hm
  exact ⟨m, hserver, hm, rfl⟩

/-- At the gate of a channel stands a recipient, or a member of the server of the channel that the
path names. -/
theorem load_channel (hk : g.kind = .channel) (h : g.load ps user s = .ok a) :
    (∃ c, a.scope = .dm c) ∨
      ∃ c m, NamedBy ps (.channel, c.id) ∧ s.findChannel c.id = some c ∧ c.isDm = false ∧
        c.server = some m.server ∧ s.findMember m.server user = some m ∧
        a = ⟨user, .channel c (s.recordsOf m)⟩ := by
  simp only [load, hk, bind_eq_ok, neededPathId_eq_ok, Store.loadChannelAccess_eq_ok] at h
  obtain ⟨id, hid, routeServer, -, c, hc, ⟨-, -, -, rfl⟩ | ⟨hdm, m, hs, -, hm, rfl⟩⟩ := h
  · exact .inl ⟨c, rfl⟩
  · obtain ⟨-, rfl⟩ := Table.get?_eq_some_iff.1 hc
    exact .inr ⟨c, m, hid, hc, hdm, hs, hm, rfl⟩

end Gate

/-! ## Responses -/

/-- The writes that a user is entitled to: those that their records warrant in the server, and
overrides of a channel that they can manage before and after. -/
inductive Store.Entitles (s : Store) (limits : Limits) (fresh user : Id) : Write → Prop
  | inServer {m : Member} {w : Write}
      (member : s.findMember m.server user = some m)
      (permitted : w.permission ∈ s.permissionsOf m)
      (warranted : (s.recordsOf m).Warrants s limits fresh w) :
      s.Entitles limits fresh user w
  | inChannel {m : Member} {c : Channel} {ds : List OverrideDraft} {overrides : List Override}
      (channel : s.findChannel c.id = some c)
      (text : c.isDm = false)
      (server : c.server = some m.server)
      (member : s.findMember m.server user = some m)
      (permitted : ((s.recordsOf m).resolve (some c)).grants .manageChannel = true)
      (normal : ((s.recordsOf m).overrideRules limits s).normalize ds = .ok overrides)
      (keeps : ((s.recordsOf m).resolve (some { c with overrides })).grants .manageChannel = true) :
      s.Entitles limits fresh user (.replaceOverrides c.id overrides)

namespace Service

variable {v : Service} {t : Moment} {r : Http.Request} {s : Store}

/-- How a request comes to decide on a write: its path and method select the action that makes such
a write, the path names what the write is about, and the sender, who is known by their
credentials, is entitled to it. -/
structure DecidesOn (v : Service) (t : Moment) (r : Http.Request) (s : Store) (user : Id)
    (endpoint : Endpoint) (ps : Http.Parameters) (action : Action) (w : Write) : Prop where
  sender : authenticate v.secret t.now r = .ok user
  path : ∃ spelled, Endpoint.find? r.path = some (endpoint, spelled) ∧
    Http.decodeParameters? spelled = some ps
  method : endpoint.action? r.method = some action
  makes : action.Makes w
  named : NamedBy ps w.about
  entitled : s.Entitles v.limits t.fresh user w

/-- Whoever is let in is entitled to the write that their action decides on. -/
theorem entitles_of_plan {endpoint : Endpoint} {ps : Http.Parameters} {action : Action}
    {limits : Limits} {fresh user : Id} {access : Access} {w : Write}
    (ha : endpoint.action? r.method = some action)
    (hload : (endpoint.gate action).load ps user s = .ok access)
    (hreq : access.require action.permission = .ok ())
    (h : action.plan limits access ps r fresh s = .ok (.commit w)) :
    s.Entitles limits fresh user w ∧ action.Makes w ∧ NamedBy ps w.about := by
  cases hk : endpoint.scopeKind with
  | server =>
    obtain ⟨m, hnamed, hm, rfl⟩ := Gate.load_server hk hload
    obtain ⟨hw, hmakes⟩ := Action.warrants_of_plan rfl h
    have hgrants : (s.permissionsOf m).grants w.permission = true := by
      simp only [hmakes.permission, Access.require_eq_ok] at hreq
      exact Member.authorize_eq_allowed.1 hreq
    have hmem : w.permission ∈ s.permissionsOf m :=
      (PermissionSet.grants_iff.1 hgrants).elim (Store.mem_permissionsOf_of_admin · _) id
    exact ⟨.inServer hm hmem hw, hmakes, by simpa [hw.about] using hnamed⟩
  | channel =>
    have hact := Endpoint.action_of_channel hk ha
    obtain ⟨c, hdm⟩ | ⟨c, m, hnamed, hc, htext, hserver, hm, rfl⟩ := Gate.load_channel hk hload
    · exact absurd h (Action.not_commit_of_dm hact hdm)
    · obtain ⟨ds, overrides, hn, hkeeps, rfl, hmakes⟩ := Action.replaces_of_plan hact rfl h
      simp only [hmakes.permission, Access.require_eq_ok] at hreq
      have hgrants : ((s.recordsOf m).resolve (some c)).grants .manageChannel = true :=
        Member.authorize_eq_allowed.1 hreq
      exact ⟨.inChannel hc htext hserver hm hgrants hn hkeeps, hmakes, hnamed⟩

/-- Whoever is let in is known by their credentials and has a standing where the path points to. -/
theorem enter_eq_ok {endpoint : Endpoint} {ps : Http.Parameters} {action : Action} {entry : Entry}
    (h : v.enter t.now r endpoint ps action s = .ok entry) :
    ∃ user, authenticate v.secret t.now r = .ok user ∧ entry.action = action ∧
      Http.decodeParameters? ps = some entry.parameters ∧
      (endpoint.gate action).load entry.parameters user s = .ok entry.access ∧
      entry.access.require action.permission = .ok () := by
  simp only [enter, bind_eq_ok, refusing_eq_ok, pure_eq_ok] at h
  obtain ⟨user, hauth, ⟨access, parameters⟩, hlet, rfl⟩ := h
  obtain ⟨hdecoded, hload, hreq⟩ := Gate.letIn_eq_ok hlet
  exact ⟨user, hauth, rfl, hdecoded, hload, hreq⟩

theorem enter_of_letIn {endpoint : Endpoint} {ps parameters : Http.Parameters} {action : Action}
    {user : Id} {access : Access} (hauth : authenticate v.secret t.now r = .ok user)
    (hlet : (endpoint.gate action).letIn ps (some user) s = .ok (access, parameters)) :
    v.enter t.now r endpoint ps action s = .ok ⟨action, access, parameters⟩ := by
  simp [enter, hauth, hlet, refusing, Except.mapError, bind, Except.bind, pure, Except.pure]

/-- How a request comes to plan a write: its sender is known and let in where the path points to, and
the action that its path and method select plans the write. -/
structure Plans (v : Service) (t : Moment) (r : Http.Request) (s : Store) (user : Id)
    (endpoint : Endpoint) (entry : Entry) (w : Write) : Prop where
  sender : authenticate v.secret t.now r = .ok user
  path : ∃ spelled, Endpoint.find? r.path = some (endpoint, spelled) ∧
    Http.decodeParameters? spelled = some entry.parameters
  method : endpoint.action? r.method = some entry.action
  standing : (endpoint.gate entry.action).load entry.parameters user s = .ok entry.access
  permitted : entry.access.require entry.action.permission = .ok ()
  planned : entry.action.plan v.limits entry.access entry.parameters r t.fresh s = .ok (.commit w)

section

variable {user : Id} {endpoint : Endpoint} {entry : Entry} {w : Write}

/-- Whoever is let in and whose action comes to a write has planned it. -/
theorem plans_of_enter {spelled : Http.Parameters} {action : Action}
    (hf : Endpoint.find? r.path = some (endpoint, spelled))
    (ha : endpoint.action? r.method = some action)
    (he : v.enter t.now r endpoint spelled action s = .ok entry)
    (hp : entry.action.plan v.limits entry.access entry.parameters r t.fresh s = .ok (.commit w)) :
    entry.action = action ∧ ∃ user, v.Plans t r s user endpoint entry w := by
  obtain ⟨user, hauth, rfl, hdecoded, hload, hreq⟩ := enter_eq_ok he
  exact ⟨rfl, user, hauth, ⟨spelled, hf, hdecoded⟩, ha, hload, hreq, hp⟩

theorem Plans.decides (h : v.Plans t r s user endpoint entry w) :
    v.DecidesOn t r s user endpoint entry.parameters entry.action w := by
  obtain ⟨hw, hmakes, hnamed⟩ := entitles_of_plan h.method h.standing h.permitted h.planned
  exact ⟨h.sender, h.path, h.method, hmakes, hnamed, hw⟩

/-- A role that is created is the one that the body of the request describes. -/
theorem Plans.exists_draft {role : Role} (h : v.Plans t r s user endpoint entry (.createRole role)) :
    ∃ d, readBody RoleDraft.codec r = .ok d ∧ d.checkFields = .ok () ∧
      checkRoleName d.name = .ok () ∧
      role = d.role t.fresh role.server (s.serverRoles role.server) := by
  cases hk : endpoint.scopeKind with
  | server =>
    obtain ⟨m, -, -, haccess⟩ := Gate.load_server hk h.standing
    obtain ⟨d, hread, hfields, hname, rfl⟩ :=
      Action.exists_draft_of_plan (congrArg Access.scope haccess) h.planned
    rw [Store.roles_recordsOf, Store.server_recordsOf]
    exact ⟨d, hread, hfields, hname, rfl⟩
  | channel =>
    have hcreates := h.decides.makes.eq_createRole
    obtain hact | hact | hact := Endpoint.action_of_channel hk h.method
    all_goals cases hcreates.symm.trans hact

/-- What is planned is answered with what the store leaves of it. -/
theorem Plans.respond_eq {receipt : Receipt} {s' : Store}
    (h : v.Plans t r s user endpoint entry w) (hc : s.commit w = .ok (receipt, s')) :
    v.respond t r s = (sent r (response (.ok (entry.action.reply receipt))), s') := by
  obtain ⟨spelled, hf, hdecoded⟩ := h.path
  have henter : (endpoint.gate entry.action).enter entry.parameters (some user) s =
      .ok entry.access := by
    simp only [Gate.enter, bind_eq_ok, pure_eq_ok]
    exact ⟨entry.access, h.standing, (), h.permitted, rfl⟩
  have hlet : (endpoint.gate entry.action).letIn spelled (some user) s =
      .ok (entry.access, entry.parameters) := by
    simp [Gate.letIn, hdecoded, henter, refusing, Except.mapError, bind, Except.bind, pure,
      Except.pure]
  rw [respond_of_action hf h.method, act_of_enter (enter_of_letIn h.sender hlet),
    perform_of_commit h.planned hc]

end

/-- A response leaves the store as it was, or commits a write that its request planned. -/
theorem respond_plans (v : Service) (t : Moment) (r : Http.Request) (s : Store) :
    (v.respond t r s).2 = s ∨ ∃ user endpoint entry w receipt,
      v.Plans t r s user endpoint entry w ∧
      s.commit w = .ok (receipt, (v.respond t r s).2) := by
  obtain ⟨answer, hinert⟩ | ⟨endpoint, spelled, action, hf, ha⟩ := v.respond_inert_or_acts t r
  · exact .inl (by rw [hinert])
  rw [respond_of_action hf ha]
  obtain hsame | ⟨entry, w, receipt, s', he, hp, hc, hact⟩ :=
    v.act_cases t r endpoint spelled action s
  · exact .inl hsame
  obtain ⟨-, user, hplans⟩ := plans_of_enter hf ha he hp
  refine .inr ⟨user, endpoint, entry, w, receipt, hplans, ?_⟩
  rw [hact]
  exact hc

/-- A response leaves the store as it was, or commits a write that its request decided on. -/
theorem respond_decides (v : Service) (t : Moment) (r : Http.Request) (s : Store) :
    (v.respond t r s).2 = s ∨ ∃ user endpoint ps action w receipt,
      v.DecidesOn t r s user endpoint ps action w ∧
      s.commit w = .ok (receipt, (v.respond t r s).2) := by
  obtain hsame | ⟨user, endpoint, entry, w, receipt, hplans, hc⟩ := v.respond_plans t r s
  · exact .inl hsame
  · exact .inr ⟨user, endpoint, entry.parameters, entry.action, w, receipt, hplans.decides, hc⟩

/-- A response leaves the store as it was, or commits a write that its sender, who is known by
their credentials, is entitled to. -/
theorem respond_cases (v : Service) (t : Moment) (r : Http.Request) (s : Store) :
    (v.respond t r s).2 = s ∨ ∃ user w receipt, authenticate v.secret t.now r = .ok user ∧
      s.Entitles v.limits t.fresh user w ∧ s.commit w = .ok (receipt, (v.respond t r s).2) := by
  obtain hsame | ⟨user, endpoint, ps, action, w, receipt, hd, hc⟩ := v.respond_decides t r s
  · exact .inl hsame
  · exact .inr ⟨user, w, receipt, hd.sender, hd.entitled, hc⟩

/-- A request whose sender is let in takes effect, if its action decides on a write that the
store makes. -/
theorem respond_of_commit {endpoint : Endpoint} {ps parameters : Http.Parameters}
    {action : Action} {user : Id} {access : Access} {w : Write} {receipt : Receipt} {s' : Store}
    (hf : Endpoint.find? r.path = some (endpoint, ps))
    (ha : endpoint.action? r.method = some action)
    (hauth : authenticate v.secret t.now r = .ok user)
    (hlet : (endpoint.gate action).letIn ps (some user) s = .ok (access, parameters))
    (hplan : action.plan v.limits access parameters r t.fresh s = .ok (.commit w))
    (hc : s.commit w = .ok (receipt, s')) : (v.respond t r s).2 = s' := by
  rw [respond_of_action hf ha, act_of_enter (enter_of_letIn hauth hlet), perform_of_commit hplan hc]

/-! ## Runs -/

/-- Whether all requests that are known to be from somebody are from users of one kind. -/
def SentBy (v : Service) (who : Id → Prop) (requests : List (Moment × Http.Request)) : Prop :=
  ∀ q ∈ requests, ∀ user, authenticate v.secret q.1.now q.2 = .ok user → who user

theorem sentBy_anyone (v : Service) (requests : List (Moment × Http.Request)) :
    v.SentBy (fun _ => True) requests := fun _ _ _ _ => trivial

/-- What every write keeps that one of the senders is entitled to, a whole run keeps. -/
theorem after_keeps {who : Id → Prop} {I : Store → Prop} {requests : List (Moment × Http.Request)}
    (hby : v.SentBy who requests)
    (hstep : ∀ {s s' : Store} {user fresh : Id} {w : Write}, I s → who user →
      s.Entitles v.limits fresh user w → s.Admits w → s.Follows w s' → I s')
    (h : I s) : I (v.after s requests) := by
  induction requests generalizing s with
  | nil => exact h
  | cons q requests ih =>
    have hby' : v.SentBy who requests := fun q' hq' => hby q' (List.mem_cons_of_mem q hq')
    refine ih hby' (s := (v.respond q.1 q.2 s).2) ?_
    obtain hsame | ⟨user, w, receipt, hauth, hw, hc⟩ := v.respond_cases q.1 q.2 s
    · exact hsame.symm ▸ h
    · obtain ⟨hadmits, hfollows⟩ := Store.commit_ok hc
      exact hstep h (hby q List.mem_cons_self user hauth) hw hadmits hfollows

end Service

end Guildhall
