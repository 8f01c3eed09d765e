-- SUMMARY: Failure changes nothing: writes that are made in place undo nothing and yet come to all or nothing, and so do requests.
import Guildhall.Proofs.Escalation

/-!
# All or nothing

`Store.commit` hands out a store only where the write succeeds. A store that is changed in place
has no earlier state to return to: what was changed before an error stays changed. `Edit.write`
makes the writes in this way, as the look-ups, the changes of single records and the cascades that
they consist of, in their order. `Edit.outcome_write` says that this comes to the same: where a
write fails, nothing has been changed yet.
-/

namespace Guildhall

/-- Steps that change a store in place; the changes before an error stay. -/
abbrev Edit := ExceptT Refusal (StateM Store)

namespace Edit

/-- The result of the steps and the store behind them, whether they fail or not. -/
def outcome {α : Type} (e : Edit α) (s : Store) : Except Refusal α × Store := e.run.run s

/-! ## Steps -/

def role (server id : Id) : Edit Role := do
  match (← get).findRole server id with
  | some r => return r
  | none => throw .roleNotFound

def member (server user : Id) : Edit Member := do
  match (← get).findMember server user with
  | some m => return m
  | none => throw .memberNotFound

def channel (id : Id) : Edit Channel := do
  match (← get).findChannel id with
  | some c => return c
  | none => throw .channelNotFound

/-- Changes a role by a value, if there is one. -/
def amendRole {α : Type} (server id : Id) (value : Option α) (f : α → Role → Role) : Edit Unit := do
  if let some a := value then
    let r ← role server id
    modify (·.insertRole (f a r))

/-- Makes a change to the store. A member is taken out first, and only then it shows whether there
was one. -/
def write : Write → Edit Receipt
  | .createRole r => do
    if ((← get).roles.get? r.id).isSome then
      throw (.conflict ("Role " ++ r.id.text ++ " already exists"))
    if r.isDefault && (← get).roles.toList.any (fun q => q.server == r.server && q.isDefault) then
      throw (.conflict "Server already has an @everyone role")
    modify (·.insertRole r)
    return .role r
  | .updateRole server id patch => do
    let _ ← role server id
    amendRole server id patch.name fun name r => { r with name }
    amendRole server id patch.color fun color r => { r with color := some color }
    amendRole server id patch.permissions fun permissions r => { r with permissions }
    return .role (← role server id)
  | .moveRole server id expected position => do
    let r ← role server id
    if r.position ≠ expected then
      throw (.conflict ("Role position changed (expected " ++ toString expected.toInt
        ++ ", found " ++ toString r.position.toInt ++ ")"))
    modify (·.insertRole { r with position })
    return .role (← role server id)
  | .deleteRole server id => do
    let r ← role server id
    if r.isDefault then throw .everyoneUndeletable
    modify fun s => { s with roles := s.roles.erase id }
    modify (·.unassignAll server id)
    modify (·.pruneOverrides server (.role id))
    return .nothing
  | .assignRole server user id => do
    let r ← role server id
    if r.isDefault then throw .everyoneHeldImplicitly
    let m ← member server user
    if !m.holds id then
      modify (·.insertMember { m with roles := m.roles ++ [id] })
    return .member (← member server user)
  | .unassignRole server user id => do
    let m ← member server user
    modify (·.insertMember (m.unassign id))
    return .member (← member server user)
  | .removeMember server user => do
    let removed := (← get).findMember server user
    modify fun s => { s with members := s.members.erase (server, user) }
    if removed.isNone then throw .memberNotFound
    modify (·.pruneOverrides server (.member user))
    return .nothing
  | .replaceOverrides id overrides => do
    let c ← channel id
    modify (·.insertChannel { c with overrides })
    return .channel (← channel id)

/-! ## Outcomes of steps -/

section

variable {α β : Type} {s : Store}

@[simp] theorem outcome_pure (a : α) : outcome (pure a) s = (.ok a, s) := rfl

@[simp] theorem outcome_throw (why : Refusal) : outcome (throw why : Edit α) s = (.error why, s) := rfl

@[simp] theorem outcome_get : outcome get s = (.ok s, s) := rfl

@[simp] theorem outcome_modify (f : Store → Store) : outcome (modify f) s = (.ok (), f s) := rfl

theorem outcome_bind (e : Edit α) (f : α → Edit β) : outcome (e >>= f) s =
    match outcome e s with
    | (.ok a, s') => outcome (f a) s'
    | (.error why, s') => (.error why, s') := by
  simp only [outcome, ExceptT.run_bind, StateT.run_bind]
  rcases e.run.run s with ⟨_ | _, _⟩ <;> rfl

@[simp] theorem outcome_map (e : Edit α) (f : α → β) :
    outcome (f <$> e) s =
      match outcome e s with
      | (.ok a, s') => (.ok (f a), s')
      | (.error why, s') => (.error why, s') := by
  simp only [map_eq_pure_bind, outcome_bind]
  rcases outcome e s with ⟨_ | _, _⟩ <;> rfl

end

section

variable {s : Store} {server user id : Id}

@[simp] theorem outcome_role : outcome (role server id) s =
    ((s.findRole server id).elim (.error .roleNotFound) .ok, s) := by
  simp only [role, outcome_bind, outcome_get]
  cases s.findRole server id <;> rfl

@[simp] theorem outcome_member : outcome (member server user) s =
    ((s.findMember server user).elim (.error .memberNotFound) .ok, s) := by
  simp only [member, outcome_bind, outcome_get]
  cases s.findMember server user <;> rfl

@[simp] theorem outcome_channel : outcome (channel id) s =
    ((s.findChannel id).elim (.error .channelNotFound) .ok, s) := by
  simp only [channel, outcome_bind, outcome_get]
  cases s.findChannel id <;> rfl

/-- Without a value, the role is put back as it is. -/
theorem outcome_amendRole {α : Type} {value : Option α} {f : α → Role → Role} {r : Role}
    (h : s.findRole server id = some r) : outcome (amendRole server id value f) s =
      (.ok (), s.insertRole (value.elim r fun a => f a r)) := by
  cases value with
  | none => simp [amendRole, Store.insertRole_self h]
  | some a => simp [amendRole, outcome_bind, h]

/-- Of two changes to a role the store shows the second. -/
theorem outcome_amendRole_insertRole {α : Type} {value : Option α} {f : α → Role → Role} {r q : Role}
    (h : s.findRole server id = some r) (hq : q.id = r.id ∧ q.server = r.server)
    (hf : ∀ a, (f a q).id = q.id) : outcome (amendRole server id value f) (s.insertRole q) =
      (.ok (), s.insertRole (value.elim q fun a => f a q)) := by
  have hid : (value.elim q fun a => f a q).id = r.id := by
    cases value with
    | none => exact hq.1
    | some a => exact (hf a).trans hq.1
  rw [outcome_amendRole (Store.findRole_insertRole h hq.1 hq.2), Store.insertRole, Store.insertRole,
    Store.insertRole, Table.insert_insert (Store.findRole_eq_some.1 h).1 hq.1 hid]

end

/-! ## Outcomes of writes -/

/-- What a write comes to that is made as a whole or not at all. -/
def settle (s : Store) : Except Refusal (Receipt × Store) → Except Refusal Receipt × Store
  | .ok (receipt, s') => (.ok receipt, s')
  | .error why => (.error why, s)

section

variable {s s' : Store} {server user id : Id} {result : Except Refusal (Receipt × Store)}

theorem settle_eq_ok {receipt : Receipt} :
    settle s result = (.ok receipt, s') ↔ result = .ok (receipt, s') := by
  cases result with
  | ok done => simp [settle, Prod.ext_iff]
  | error why => simp [settle]

theorem settle_eq_error {why : Refusal} :
    settle s result = (.error why, s') ↔ result = .error why ∧ s' = s := by
  cases result with
  | ok done => simp [settle]
  | error e => simp [settle, eq_comm]

private theorem outcome_createRole (r : Role) :
    outcome (write (.createRole r)) s = settle s (s.createRole r) := by
  simp only [write, Store.createRole, outcome_bind, outcome_get]
  split
  · rfl
  · simp only [outcome_bind, outcome_get]
    split
    · rfl
    · rfl

private theorem outcome_updateRole (patch : RolePatch) :
    outcome (write (.updateRole server id patch)) s = settle s (s.updateRole server id patch) := by
  cases h : s.findRole server id with
  | none => simp [write, Store.updateRole, outcome_bind, h, settle]
  | some r =>
    obtain ⟨name, color, permissions⟩ := patch
    -- each of the three changes may be left out
    generalize hnamed : (name.elim r fun name => { r with name }) = named
    have hk₁ : named.id = r.id ∧ named.server = r.server := by
      cases name <;> (subst hnamed; exact ⟨rfl, rfl⟩)
    generalize hcolored : (color.elim named fun color => { named with color := some color }) = colored
    have hk₂ : colored.id = r.id ∧ colored.server = r.server := by
      cases color <;> (subst hcolored; exact hk₁)
    have hpatch : r.patch ⟨name, color, permissions⟩ =
        permissions.elim colored fun permissions => { colored with permissions } := by
      subst hcolored hnamed
      cases name <;> cases color <;> cases permissions <;> rfl
    have hfound : (s.insertRole (r.patch ⟨name, color, permissions⟩)).findRole server id =
        some (r.patch ⟨name, color, permissions⟩) := Store.findRole_insertRole h rfl rfl
    have h₁ : outcome (amendRole server id name fun name r => { r with name }) s =
        (.ok (), s.insertRole named) := by
      rw [outcome_amendRole h, hnamed]
    have h₂ : outcome (amendRole server id color fun color r => { r with color := some color })
        (s.insertRole named) = (.ok (), s.insertRole colored) := by
      rw [outcome_amendRole_insertRole h hk₁ fun _ => rfl, hcolored]
    have h₃ : outcome (amendRole server id permissions fun permissions r => { r with permissions })
        (s.insertRole colored) =
          (.ok (), s.insertRole (r.patch ⟨name, color, permissions⟩)) := by
      rw [outcome_amendRole_insertRole h hk₂ fun _ => rfl, hpatch]
    simp only [write, outcome_bind, outcome_role, h, Option.elim_some, h₁, h₂, h₃, hfound,
      outcome_pure, Store.updateRole, settle]

private theorem outcome_moveRole {expected position : Int32} :
    outcome (write (.moveRole server id expected position)) s =
      settle s (s.moveRole server id expected position) := by
  cases h : s.findRole server id with
  | none => simp [write, Store.moveRole, outcome_bind, h, settle]
  | some r =>
    have hfound : (s.insertRole { r with position }).findRole server id =
        some { r with position } := Store.findRole_insertRole h rfl rfl
    simp only [write, Store.moveRole, outcome_bind, outcome_role, h, Option.elim_some]
    split
    · rfl
    · simp only [outcome_bind, outcome_modify, outcome_role, hfound, Option.elim_some, outcome_pure,
        settle]

private theorem outcome_deleteRole :
    outcome (write (.deleteRole server id)) s = settle s (s.deleteRole server id) := by
  cases h : s.findRole server id with
  | none => simp [write, Store.deleteRole, outcome_bind, h, settle]
  | some r =>
    simp only [write, Store.deleteRole, outcome_bind, outcome_role, h, Option.elim_some]
    split <;> rfl

private theorem outcome_assignRole :
    outcome (write (.assignRole server user id)) s = settle s (s.assignRole server user id) := by
  cases h : s.findRole server id with
  | none => simp [write, Store.assignRole, outcome_bind, h, settle]
  | some r =>
    simp only [write, Store.assignRole, outcome_bind, outcome_role, h, Option.elim_some]
    split
    · rfl
    cases hm : s.findMember server user with
    | none => simp [outcome_bind, hm, settle]
    | some m =>
      cases hh : m.holds id with
      | true => simp [outcome_bind, hm, hh, settle, Member.assign, Store.insertMember_self hm]
      | false =>
        have hfound := Store.findMember_insertMember hm (m.user_assign id) (m.server_assign id)
        have hassign : m.assign id = { m with roles := m.roles ++ [id] } := by
          simp [Member.assign, hh]
        rw [hassign] at hfound
        simp [outcome_bind, hm, hh, settle, hassign, hfound]

private theorem outcome_unassignRole :
    outcome (write (.unassignRole server user id)) s = settle s (s.unassignRole server user id) := by
  cases h : s.findMember server user with
  | none => simp [write, Store.unassignRole, outcome_bind, h, settle]
  | some m =>
    have hfound : (s.insertMember (m.unassign id)).findMember server user =
        some (m.unassign id) := Store.findMember_insertMember h rfl rfl
    simp [write, Store.unassignRole, outcome_bind, h, settle, hfound]

private theorem outcome_removeMember :
    outcome (write (.removeMember server user)) s = settle s (s.removeMember server user) := by
  cases h : s.findMember server user with
  | none =>
    have hsame : s.members.erase (server, user) = s.members := Table.erase_of_get? h
    simp [write, Store.removeMember, outcome_bind, h, settle, hsame]
  | some m => simp [write, Store.removeMember, outcome_bind, h, settle]

private theorem outcome_replaceOverrides {overrides : List Override} :
    outcome (write (.replaceOverrides id overrides)) s =
      settle s (s.replaceOverrides id overrides) := by
  cases h : s.findChannel id with
  | none => simp [write, Store.replaceOverrides, outcome_bind, h, settle]
  | some c =>
    have hfound : (s.insertChannel { c with overrides }).findChannel id =
        some { c with overrides } := Store.findChannel_insertChannel h rfl
    simp [write, Store.replaceOverrides, outcome_bind, h, settle, hfound]

/-- A write made in place comes to what it comes to as a whole: where it fails, the store is as it
was. -/
theorem outcome_write (s : Store) (w : Write) : outcome (write w) s = settle s (s.commit w) := by
  cases w with
  | createRole r => exact outcome_createRole r
  | updateRole server id patch => exact outcome_updateRole patch
  | moveRole server id expected position => exact outcome_moveRole
  | deleteRole server id => exact outcome_deleteRole
  | assignRole server user id => exact outcome_assignRole
  | unassignRole server user id => exact outcome_unassignRole
  | removeMember server user => exact outcome_removeMember
  | replaceOverrides id overrides => exact outcome_replaceOverrides

end

end Edit

/-! ## Statuses -/

/-- Whether the status is one of success. -/
def Http.Response.Succeeds (r : Http.Response) : Prop := 200 ≤ r.status ∧ r.status < 300

/-- What is answered after a write is a success. -/
theorem Action.succeeds_reply (action : Action) (receipt : Receipt) :
    (Service.response (.ok (action.reply receipt))).Succeeds := by
  simp only [Http.Response.Succeeds, Service.response, Http.Response.ofBody]
  cases receipt with
  | role r =>
    simp only [Action.reply]
    split <;> simp
  | member m | channel c | nothing => simp [Action.reply]

theorem Refusal.le_status (why : Refusal) : 400 ≤ why.status := by
  cases why <;> simp [status]

/-- A rejected request is not answered with a success. -/
theorem Rejection.not_succeeds (why : Rejection) :
    ¬ (Service.response (.error why)).Succeeds := by
  have hstatus : 400 ≤ why.status := by
    cases why with
    | refused why => exact why.le_status
    | unreadableBody fault => cases fault <;> decide
    | unreadablePath | notJson | bodyTooLarge => decide
  intro h
  exact absurd (Nat.lt_of_lt_of_le h.2 (by decide : 300 ≤ 400)) (Nat.not_lt.2 hstatus)

/-! ## Requests that only ask -/

/-- The actions that answer without a write. -/
def Action.asking : List Action := [.showPermissions, .listOverrides, .listRoles]

theorem Action.mem_asking_of_plan {action : Action} {limits : Limits} {a : Access}
    {ps : Http.Parameters} {r : Http.Request} {fresh : Id} {s : Store} {body : Json}
    (h : action.plan limits a ps r fresh s = .ok (.answer body)) : action ∈ asking := by
  have hcommitting : ∀ x : Except Refusal Write, committing x ≠ .ok (.answer body) := by
    intro x
    cases x <;> simp [committing, refusing, Except.mapError, Except.map]
  cases action with
  | showPermissions | listOverrides | listRoles => decide
  | replaceOverrides | createRole | updateRole | moveRole | deleteRole | assignRole | unassignRole
  | removeMember => simp [plan, bind_eq_ok, hcommitting] at h

/-- `GET` and `HEAD` select no action that makes a write. -/
theorem Action.Makes.handledAs_ne {endpoint : Endpoint} {method : String} {action : Action} {w : Write}
    (h : action.Makes w) (ha : endpoint.action? method = some action) :
    Endpoint.handledAs method ≠ "GET" := by
  intro hget
  simp only [Endpoint.action?, hget] at ha
  cases endpoint <;> cases ha <;> cases h

/-! ## An example -/

namespace Example

/-- The manager asks for a colour and a name for the guards; the name is blank. -/
def blanking : Http.Request :=
  submission "PATCH" ["servers", (1 : Id).text, "roles", (30 : Id).text]
    "\x7b\"color\": 5, \"name\": \" \"\x7d"

theorem status_respond_blanking : (service.respond moment blanking store).1.status = 400 := by
  have hpath : Endpoint.find? blanking.path = some (.role,
      [("server_id", (1 : Id).text), ("role_id", (30 : Id).text)]) := by decide +kernel
  have hlet : (Endpoint.role.gate .updateRole).letIn
      [("server_id", (1 : Id).text), ("role_id", (30 : Id).text)] (some 7) store =
        .ok (⟨7, .server (store.recordsOf manager)⟩,
          [("server_id", (1 : Id).text), ("role_id", (30 : Id).text)]) := by decide +kernel
  have henter : service.enter moment.now blanking .role
      [("server_id", (1 : Id).text), ("role_id", (30 : Id).text)] .updateRole store =
        .ok ⟨.updateRole, ⟨7, .server (store.recordsOf manager)⟩,
          [("server_id", (1 : Id).text), ("role_id", (30 : Id).text)]⟩ :=
    Service.enter_of_letIn (authenticate_submission _ _ _) hlet
  rw [Service.respond_of_action hpath rfl, Service.status_sent, Service.act_of_enter henter]
  decide +kernel

end Example

/-! ## Requests -/

namespace Service

variable {v : Service} {t : Moment} {r : Http.Request} {s : Store}

/-- What is not rejected is answered with a success. -/
theorem succeeds_of_act {endpoint : Endpoint} {ps : Http.Parameters} {action : Action} {reply : Reply}
    (h : (v.act t r endpoint ps action s).1 = .ok reply) : (response (.ok reply)).Succeeds := by
  obtain ⟨why, hact⟩ | ⟨entry, -, ⟨body, -, hact⟩ | ⟨w, receipt, s', -, -, hact⟩⟩ :=
    v.act_outcomes t r endpoint ps action s
  · rw [hact] at h
    cases h
  · rw [hact] at h
    cases h
    exact ⟨Nat.le_refl 200, (by decide : 200 < 300)⟩
  · rw [hact] at h
    cases h
    exact entry.action.succeeds_reply receipt

/-- A response leaves the store as it was, or it is a success. -/
theorem succeeds_or_unchanged (v : Service) (t : Moment) (r : Http.Request) (s : Store) :
    (v.respond t r s).2 = s ∨ (v.respond t r s).1.Succeeds := by
  obtain ⟨answer, hinert⟩ | ⟨endpoint, spelled, action, hf, ha⟩ := v.respond_inert_or_acts t r
  · exact .inl (by rw [hinert])
  rw [respond_of_action hf ha]
  obtain hsame | ⟨entry, w, receipt, s', he, hp, hc, hact⟩ :=
    v.act_cases t r endpoint spelled action s
  · exact .inl hsame
  · refine .inr ?_
    rw [hact, Http.Response.Succeeds, status_sent]
    exact entry.action.succeeds_reply receipt

/-- A request that asks for a write and has success makes the write that it has planned. -/
theorem plans_of_succeeds {action : Action} (hw : action ∉ Action.asking) (h : r.Selects action)
    (hok : (v.respond t r s).1.Succeeds) :
    ∃ user endpoint entry w receipt, v.Plans t r s user endpoint entry w ∧ entry.action = action ∧
      s.commit w = .ok (receipt, (v.respond t r s).2) := by
  obtain ⟨endpoint, spelled, hf, ha⟩ := h
  rw [respond_of_action hf ha] at hok ⊢
  rw [Http.Response.Succeeds, status_sent] at hok
  obtain ⟨why, hact⟩ | ⟨entry, he, ⟨body, hp, -⟩ | ⟨w, receipt, s', hp, hc, hact⟩⟩ :=
    v.act_outcomes t r endpoint spelled action s
  · rw [hact] at hok
    exact absurd hok (Rejection.not_succeeds why)
  · obtain ⟨user, -, rfl, -⟩ := enter_eq_ok he
    exact absurd (Action.mem_asking_of_plan hp) hw
  · obtain ⟨haction, user, hplans⟩ := plans_of_enter hf ha he hp
    rw [hact]
    exact ⟨user, endpoint, entry, w, receipt, hplans, haction, hc⟩

theorem unchanged_of_asking (h : r.method = "GET" ∨ r.method = "HEAD") :
    (v.respond t r s).2 = s := by
  obtain hsame | ⟨user, endpoint, entry, w, receipt, hplans, -⟩ := v.respond_plans t r s
  · exact hsame
  · refine absurd ?_ (hplans.decides.makes.handledAs_ne hplans.method)
    obtain hm | hm := h
    all_goals rw [hm]; rfl

/-- Errors leave the store exactly as it was. A request that is not answered with a success changes
nothing, nor does one that only asks, and any other changes the store by one whole write, if at all.
A write that is made in place and fails has changed nothing, and one that succeeds has changed all
records that it is to change. -/
theorem unchanged_unless_success (v : Service) (t : Moment) (r : Http.Request) (s : Store) :
    (¬ (v.respond t r s).1.Succeeds → (v.respond t r s).2 = s) ∧
    (r.method = "GET" ∨ r.method = "HEAD" → (v.respond t r s).2 = s) ∧
    ((v.respond t r s).2 = s ∨ ∃ w receipt,
      Edit.outcome (Edit.write w) s = (.ok receipt, (v.respond t r s).2)) ∧
    ∀ w, (∀ why s', Edit.outcome (Edit.write w) s = (.error why, s') → s' = s) ∧
      ∀ receipt s', Edit.outcome (Edit.write w) s = (.ok receipt, s') → s.Follows w s' := by
  refine ⟨?_, unchanged_of_asking, ?_, fun w => ⟨?_, ?_⟩⟩
  · exact (v.succeeds_or_unchanged t r s).resolve_right
  · obtain hsame | ⟨user, endpoint, entry, w, receipt, -, hc⟩ := v.respond_plans t r s
    · exact .inl hsame
    · exact .inr ⟨w, receipt, by rw [Edit.outcome_write, Edit.settle_eq_ok, hc]⟩
  · intro why s' h
    rw [Edit.outcome_write, Edit.settle_eq_error] at h
    exact h.2
  · intro receipt s' h
    rw [Edit.outcome_write, Edit.settle_eq_ok] at h
    exact (Store.commit_ok h).2

theorem unchanged_unless_success_blanking :
    ¬ (Example.service.respond Example.moment Example.blanking Example.store).1.Succeeds ∧
      (Example.service.respond Example.moment Example.blanking Example.store).2 = Example.store := by
  have hstatus : ¬ (Example.service.respond Example.moment Example.blanking
      Example.store).1.Succeeds := by
    rw [Http.Response.Succeeds, Example.status_respond_blanking]
    decide
  exact ⟨hstatus, (unchanged_unless_success _ _ _ _).1 hstatus⟩

end Service

end Guildhall
