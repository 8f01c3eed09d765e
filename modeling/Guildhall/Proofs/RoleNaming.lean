-- SUMMARY: The names that requests leave on roles, which of those submitted are accepted, and that stored names can be submitted again.
import Guildhall.Proofs.Interleaving
import Guildhall.Proofs.RolePlacement
import Mathlib.Data.List.DropRight

/-!
# Names of roles

A name is checked as it is submitted and stored without the white space at its ends. What is stored
keeps more rules than are checked: the length was that of the longer text, and the text was not blank,
so something is left of it. The names that come to be stored (`IsRoleName`) are submittable
themselves, and as nothing is cut off them, a role that is given a stored name has just this name
(`Service.role_names`).
-/

namespace Guildhall

/-! ## Trimming -/

/-- Whether no white space stands at either end of a text. -/
def EndsBare (cs : List Char) : Prop :=
  (∀ c, cs.head? = some c → isWhiteSpace c = false) ∧
    ∀ c, cs.getLast? = some c → isWhiteSpace c = false

/-- Whether a text is another one without the white space at its ends. -/
def IsCore (core cs : List Char) : Prop :=
  EndsBare core ∧ ∃ before after, cs = before ++ core ++ after ∧
    (∀ c ∈ before, isWhiteSpace c = true) ∧ ∀ c ∈ after, isWhiteSpace c = true

theorem trimChars_eq_rdropWhile (cs : List Char) :
    trimChars cs = (cs.dropWhile isWhiteSpace).rdropWhile isWhiteSpace := rfl

/-- White space in front of a text that does not begin with any is all that is dropped. -/
theorem dropWhile_append_of_head {space cs : List Char}
    (hspace : ∀ c ∈ space, isWhiteSpace c = true)
    (hhead : ∀ c, cs.head? = some c → isWhiteSpace c = false) :
    (space ++ cs).dropWhile isWhiteSpace = cs := by
  rw [List.dropWhile_append_of_pos hspace]
  cases cs with
  | nil => rfl
  | cons c cs => exact List.dropWhile_cons_of_neg (by simp [hhead c rfl])

/-- White space behind a text that does not end with any is all that is dropped. -/
theorem rdropWhile_append_of_last {cs space : List Char}
    (hspace : ∀ c ∈ space, isWhiteSpace c = true)
    (hlast : ∀ c, cs.getLast? = some c → isWhiteSpace c = false) :
    (cs ++ space).rdropWhile isWhiteSpace = cs := by
  have hdrop : (space.reverse ++ cs.reverse).dropWhile isWhiteSpace = cs.reverse := by
    refine dropWhile_append_of_head ?_ ?_
    · simpa only [List.mem_reverse] using hspace
    · simpa only [List.head?_reverse] using hlast
  rw [List.rdropWhile, List.reverse_append, hdrop, List.reverse_reverse]

/-- What stands between the white space at the ends is what is left of a text. -/
theorem IsCore.trimChars_eq {core cs : List Char} (h : IsCore core cs) : trimChars cs = core := by
  obtain ⟨⟨hhead, hlast⟩, before, after, rfl, hbefore, hafter⟩ := h
  rw [trimChars_eq_rdropWhile, List.append_assoc]
  cases core with
  | nil =>
    have hblank : ∀ c ∈ before ++ ([] ++ after), isWhiteSpace c = true := by
      simpa [or_imp, forall_and] using ⟨hbefore, hafter⟩
    rw [List.dropWhile_eq_nil_iff.2 hblank, List.rdropWhile_nil]
  | cons c core =>
    rw [dropWhile_append_of_head hbefore, rdropWhile_append_of_last hafter hlast]
    simpa only [List.cons_append, List.head?_cons] using hhead

theorem isCore_trimChars (cs : List Char) : IsCore (trimChars cs) cs := by
  have hsplit : cs = cs.takeWhile isWhiteSpace ++ trimChars cs ++
      (cs.dropWhile isWhiteSpace).rtakeWhile isWhiteSpace := by
    rw [trimChars_eq_rdropWhile, List.append_assoc, List.rdropWhile_append_rtakeWhile,
      List.takeWhile_append_dropWhile]
  refine ⟨⟨?_, ?_⟩, _, _, hsplit, fun c hc => List.mem_takeWhile_imp hc,
    fun c hc => List.mem_rtakeWhile_imp hc⟩
  · intro c hc
    obtain ⟨rest, hrest⟩ := List.rdropWhile_prefix isWhiteSpace (cs.dropWhile isWhiteSpace)
    have hhead : (cs.dropWhile isWhiteSpace).head? = some c := by
      rw [← hrest, List.head?_append, ← trimChars_eq_rdropWhile, hc, Option.some_or]
    have hstop := List.head?_dropWhile_not isWhiteSpace cs
    rwa [hhead] at hstop
  · intro c hc
    have hne : trimChars cs ≠ [] := by
      intro hnil
      rw [hnil] at hc
      cases hc
    rw [List.getLast?_eq_some_getLast hne, Option.some.injEq] at hc
    rw [← hc, ← Bool.not_eq_true]
    exact List.rdropWhile_last_not isWhiteSpace _ hne

theorem trimChars_eq_iff {core cs : List Char} : trimChars cs = core ↔ IsCore core cs := by
  constructor
  · intro h
    exact h ▸ isCore_trimChars cs
  · exact IsCore.trimChars_eq

/-- Nothing is left of a text just if all of it is white space. -/
theorem trimChars_eq_nil_iff {cs : List Char} :
    trimChars cs = [] ↔ ∀ c ∈ cs, isWhiteSpace c = true := by
  constructor
  · intro hnil
    obtain ⟨-, before, after, rfl, hbefore, hafter⟩ := trimChars_eq_iff.1 hnil
    simpa [or_imp, forall_and] using ⟨hbefore, hafter⟩
  · intro hblank
    refine trimChars_eq_iff.2 ⟨⟨?_, ?_⟩, cs, [], by simp, hblank, ?_⟩
    all_goals
      intro c hc
      cases hc

theorem trimChars_sublist (cs : List Char) : (trimChars cs).Sublist cs := by
  rw [trimChars_eq_rdropWhile]
  exact (List.rdropWhile_prefix _ _).sublist.trans (List.dropWhile_sublist _)

/-! ## Names -/

/-- The names that are accepted: of one to a hundred characters, not all of them white space, and no
control character among them. -/
structure Submittable (name : String) : Prop where
  nonempty : 1 ≤ name.length
  bounded : name.length ≤ 100
  inked : ∃ c ∈ name.toList, isWhiteSpace c = false
  plain : ∀ c ∈ name.toList, isControl c = false

/-- The names that are stored: of one to a hundred characters, without white space at the ends and
without control characters. -/
structure IsRoleName (name : String) : Prop where
  nonempty : 1 ≤ name.length
  bounded : name.length ≤ 100
  bare : EndsBare name.toList
  plain : ∀ c ∈ name.toList, isControl c = false

variable {name : String}

theorem checkRoleName_eq_ok :
    checkRoleName name = .ok () ↔
      (∃ c ∈ name.toList, isWhiteSpace c = false) ∧ ∀ c ∈ name.toList, isControl c = false := by
  have hblank : (trimChars name.toList).isEmpty = true ↔
      ¬ ∃ c ∈ name.toList, isWhiteSpace c = false := by
    simp [List.isEmpty_iff, trimChars_eq_nil_iff]
  have hcontrol : name.toList.any isControl = true ↔ ¬ ∀ c ∈ name.toList, isControl c = false := by
    simp
  unfold checkRoleName
  split
  · rename_i h
    simp [hblank.1 h]
  · rename_i h
    rw [hblank, not_not] at h
    split
    · rename_i hc
      simp [hcontrol.1 hc]
    · rename_i hc
      rw [hcontrol, not_not] at hc
      exact iff_of_true rfl ⟨h, hc⟩

/-- The checks of a name, made at two places, accept just the submittable ones. -/
theorem submittable_iff :
    Submittable name ↔ roleNameFits name = true ∧ checkRoleName name = .ok () := by
  simp only [roleNameFits, checkRoleName_eq_ok, Bool.and_eq_true, decide_eq_true_eq]
  constructor
  · exact fun h => ⟨⟨h.nonempty, h.bounded⟩, h.inked, h.plain⟩
  · rintro ⟨⟨hnonempty, hbounded⟩, hinked, hplain⟩
    exact ⟨hnonempty, hbounded, hinked, hplain⟩

theorem toList_trim (name : String) : (trim name).toList = trimChars name.toList := by
  rw [trim, String.toList_ofList]

theorem isCore_trim (name : String) : IsCore (trim name).toList name.toList := by
  rw [toList_trim]
  exact isCore_trimChars name.toList

/-- What is stored of a submittable name keeps the rules of stored names. -/
theorem Submittable.isRoleName (h : Submittable name) : IsRoleName (trim name) := by
  have hsub : (trim name).toList.Sublist name.toList := by
    rw [toList_trim]
    exact trimChars_sublist name.toList
  refine ⟨?_, ?_, (isCore_trim name).1, fun c hc => h.plain c (hsub.subset hc)⟩
  · obtain ⟨c, hc, hinked⟩ := h.inked
    rw [← String.length_toList, toList_trim]
    refine List.length_pos_iff.2 fun hnil => ?_
    rw [trimChars_eq_nil_iff.1 hnil c hc] at hinked
    cases hinked
  · have hle := hsub.length_le
    rw [String.length_toList, String.length_toList] at hle
    exact Nat.le_trans hle h.bounded

/-- Nothing is cut off a stored name. -/
theorem IsRoleName.trim_eq (h : IsRoleName name) : trim name = name := by
  have hcore : IsCore name.toList name.toList := by
    refine ⟨h.bare, [], [], by simp, ?_, ?_⟩
    all_goals
      intro c hc
      cases hc
  rw [trim, hcore.trimChars_eq, String.ofList_toList]

theorem IsRoleName.submittable (h : IsRoleName name) : Submittable name := by
  refine ⟨h.nonempty, h.bounded, ?_, h.plain⟩
  have hpos : 0 < name.toList.length := by
    rw [String.length_toList]
    exact h.nonempty
  obtain ⟨c, cs, hname⟩ := List.exists_cons_of_length_pos hpos
  rw [hname]
  exact ⟨c, List.mem_cons_self, h.bare.1 c (by rw [hname, List.head?_cons])⟩

/-! ## Edits -/

/-- The changes that an edit asks for. -/
def RoleEdit.patch (e : RoleEdit) : RolePatch where
  name := e.name.map trim
  color := e.color
  permissions := e.permissions.map PermissionSet.ofList

/-- Default roles keep their names, and others get accepted ones. -/
theorem checkRename_eq_ok {target : Role} :
    checkRename target (some name) = .ok () ↔
      target.isDefault = false ∧ checkRoleName name = .ok () := by
  cases hd : target.isDefault with
  | true => simp [checkRename, hd]
  | false => simp [checkRename, hd]

/-- The names with which a role can be edited are the submittable ones, if it is no default role. -/
theorem RoleEdit.accepted_iff {e : RoleEdit} {target : Role} (hname : e.name = some name) :
    e.checkFields = .ok () ∧ checkRename target e.name = .ok () ↔
      target.isDefault = false ∧ Submittable name := by
  rw [checkFields_eq_ok, hname, checkRename_eq_ok, submittable_iff]
  simp only [Option.some.injEq, forall_eq']
  exact and_left_comm

/-- An edit that leaves the permissions alone is planned as it passes the other checks. -/
theorem planUpdate_of_permissions_eq_none {records : ServerRecords} {user id : Id} {e : RoleEdit}
    {target : Role} (fields : e.checkFields = .ok ()) (found : records.findRole id = some target)
    (below : records.Outranks target.position) (name : checkRename target e.name = .ok ())
    (hnone : e.permissions = none) :
    planUpdate ⟨user, .server records⟩ id e = .ok (.updateRole records.server id e.patch) := by
  have hregrant : checkRegrant ⟨user, .server records⟩ records target
      (e.permissions.map PermissionSet.ofList) = .ok () := by
    rw [hnone]
    rfl
  simp only [planUpdate, bind_eq_ok, pure_eq_ok]
  exact ⟨(), fields, records, rfl, target, ServerRecords.targetRole_eq_ok.2 found, (),
    Member.checkOutranksRole_eq_ok.2 below, (), name, (), hregrant, rfl⟩

namespace Service

variable {v : Service} {t : Moment} {r : Http.Request} {s : Store} {user server id : Id}
  {endpoint : Endpoint} {entry : Entry} {patch : RolePatch} {e : RoleEdit} {target role : Role}

/-- Whether a request has a role edited: as its body says, which is all that changes in the store, and
what the request is answered with. -/
structure Edits (v : Service) (t : Moment) (r : Http.Request) (s : Store) (e : RoleEdit)
    (target role : Role) : Prop where
  body : readBody RoleEdit.codec r = .ok e
  fields : e.checkFields = .ok ()
  found : s.findRole target.server target.id = some target
  name : checkRename target e.name = .ok ()
  edited : role = target.patch e.patch
  made : v.respond t r s =
    (sent r (response (.ok ⟨200, .json (Role.codec.write role)⟩)), s.insertRole role)

/-- What plans an edit has the role edited that its path names. -/
theorem Plans.exists_edits (h : v.Plans t r s user endpoint entry (.updateRole server id patch)) :
    readPathId entry.parameters "role_id" = .ok id ∧
      ∃ e target role, v.Edits t r s e target role ∧ target.server = server ∧ target.id = id := by
  have haction := h.decides.makes.eq_updateRole
  cases hk : endpoint.scopeKind with
  | channel =>
    obtain hact | hact | hact := Endpoint.action_of_channel hk h.method
    all_goals cases haction.symm.trans hact
  | server =>
    obtain ⟨m, -, -, haccess⟩ := Gate.load_server hk h.standing
    have hplanned := h.planned
    simp only [haction, Action.plan, bind_eq_ok, committing_eq_ok] at hplanned
    obtain ⟨_, hid, e, hread, hplan⟩ := hplanned
    obtain ⟨hfields, hw, target, found, -, hname, -⟩ :=
      ServerRecords.planUpdate_ok (congrArg Access.scope haccess) hplan
    cases hw
    rw [Store.findRole_recordsOf, ← Store.server_recordsOf s m] at found
    have hmade := h.respond_eq (Store.commit_updateRole found)
    rw [haction] at hmade
    obtain ⟨-, hserver, rfl⟩ := Store.findRole_eq_some.1 found
    exact ⟨hid, e, target, target.patch e.patch,
      ⟨hread, hfields, hserver.symm ▸ found, hname, rfl, hmade⟩, hserver, rfl⟩

theorem Edits.succeeds (h : v.Edits t r s e target role) : (v.respond t r s).1.Succeeds := by
  rw [h.made, Http.Response.Succeeds, status_sent]
  exact Action.succeeds_reply .updateRole (.role role)

theorem Edits.findRole_eq (h : v.Edits t r s e target role) :
    (v.respond t r s).2.findRole target.server target.id = some role := by
  rw [h.made]
  exact Store.findRole_insertRole h.found (h.edited ▸ rfl) (h.edited ▸ rfl)

/-- A request to change a role that has success has this role edited. -/
theorem exists_edits_of_succeeds (hasks : r.Asks .updateRole server id)
    (hok : (v.respond t r s).1.Succeeds) :
    ∃ e target role, v.Edits t r s e target role ∧ target.server = server ∧ target.id = id := by
  obtain ⟨endpoint, spelled, ps, hf, ha, hd, hid⟩ := hasks.selects
  obtain ⟨user, endpoint', entry, w, receipt, hplans, haction, -⟩ :=
    plans_of_succeeds (by decide) ⟨endpoint, spelled, hf, ha⟩ hok
  obtain ⟨server', id', patch, rfl⟩ := (haction ▸ hplans.decides.makes).exists_updateRole
  obtain ⟨hid', e, target, role, hedits, hserver, htid⟩ := hplans.exists_edits
  obtain ⟨spelled', hf', hd'⟩ := hplans.path
  cases hf.symm.trans hf'
  cases hd.symm.trans hd'
  cases hid.symm.trans hid'
  have habout : server' = server := congrArg Prod.snd (hplans.decides.about_eq hasks.addresses)
  exact ⟨e, target, role, hedits, hserver.trans habout, htid⟩

/-- Whether a request asks for nothing but a new name, and maybe a colour, for a role, and its sender
may manage the role: as a member of its server who is granted the permission and stands above it. -/
structure MayRename (v : Service) (t : Moment) (r : Http.Request) (s : Store) (e : RoleEdit)
    (target : Role) (name : String) : Prop where
  asks : r.Asks .updateRole target.server target.id
  body : readBody RoleEdit.codec r = .ok e
  name : e.name = some name
  nothingElse : e.permissions = none
  found : target ∈ s.roles
  sender : ∃ user m, authenticate v.secret t.now r = .ok user ∧
    s.findMember target.server user = some m ∧ s.Grants m .manageRoles none ∧
    (s.recordsOf m).Outranks target.position

variable {name : String}

/-- Whoever has a standing in the server that a path names, and the permission, makes the write that
their action plans. -/
theorem plans_of_member {m : Member} {spelled ps : Http.Parameters} {action : Action} {w : Write}
    (hauth : authenticate v.secret t.now r = .ok user)
    (hf : Endpoint.find? r.path = some (endpoint, spelled))
    (ha : endpoint.action? r.method = some action)
    (hdecoded : Http.decodeParameters? spelled = some ps)
    (hr : r.Addresses (.server, server)) (hm : s.findMember server user = some m)
    (hgrants : ∀ p, action.permission = some p → s.Grants m p none)
    (hplan : action.plan v.limits ⟨user, .server (s.recordsOf m)⟩ ps r t.fresh s = .ok (.commit w)) :
    v.Plans t r s user endpoint ⟨action, ⟨user, .server (s.recordsOf m)⟩, ps⟩ w := by
  obtain ⟨hk, hnamed⟩ := hr.named hf hdecoded
  refine ⟨hauth, ⟨spelled, hf, hdecoded⟩, ha, ?_, ?_, hplan⟩
  · simp only [Gate.load, Endpoint.gate, hk, bind_eq_ok, neededPathId_eq_ok,
      Store.loadServerAccess_eq_ok]
    exact ⟨server, hnamed, m, hm, rfl⟩
  · cases hp : action.permission with
    | none => rfl
    | some p =>
      exact Access.require_eq_ok.2 (Member.authorize_eq_allowed.2
        ((Store.grants_resolve_iff (Member.within_none m)).2 (hgrants p hp)))

/-- Whoever may rename a role can give it any name that is accepted, if it is no default role. -/
theorem MayRename.edits (h : v.MayRename t r s e target name) (hd : target.isDefault = false)
    (hname : Submittable name) : v.Edits t r s e target (target.patch e.patch) := by
  obtain ⟨user, m, hauth, hm, hgrants, habove⟩ := h.sender
  obtain ⟨-, hserver, -⟩ := Store.findMember_eq_some.1 hm
  obtain ⟨endpoint, spelled, ps, hf, ha, hdecoded, hid⟩ := h.asks.selects
  obtain ⟨hfields, hrename⟩ := (RoleEdit.accepted_iff h.name).2 ⟨hd, hname⟩
  have found : (s.recordsOf m).findRole target.id = some target := by
    rw [Store.findRole_recordsOf, hserver]
    exact Store.findRole_eq_some.2 ⟨h.found, rfl, rfl⟩
  have hupdate : planUpdate ⟨user, .server (s.recordsOf m)⟩ target.id e =
      .ok (.updateRole (s.recordsOf m).server target.id e.patch) :=
    planUpdate_of_permissions_eq_none hfields found habove hrename h.nothingElse
  have hplan : Action.updateRole.plan v.limits ⟨user, .server (s.recordsOf m)⟩ ps r t.fresh s =
      .ok (.commit (.updateRole (s.recordsOf m).server target.id e.patch)) := by
    simp only [Action.plan, bind_eq_ok, committing_eq_ok]
    exact ⟨target.id, hid, e, h.body, hupdate⟩
  have hplans := plans_of_member hauth hf ha hdecoded h.asks.addresses hm
    (fun p hp => Option.some.inj hp ▸ hgrants) hplan
  obtain ⟨-, e', target', role, hedits, -, htid⟩ := hplans.exists_edits
  cases h.body.symm.trans hedits.body
  have hfound := Store.findRole_eq_some.1 hedits.found
  obtain rfl : target' = target := Store.eq_of_id_eq hfound.1 h.found htid
  exact hedits.edited ▸ hedits

/-- The names that requests have had stored: those of new roles, and those given to roles. -/
inductive StoredName : String → Prop
  | created {v : Service} {t : Moment} {r : Http.Request} {s : Store} {d : RoleDraft} {role : Role}
      (creates : v.Creates t r s d role) : StoredName role.name
  | given {v : Service} {t : Moment} {r : Http.Request} {s : Store} {e : RoleEdit}
      {target role : Role} {submitted : String} (edits : v.Edits t r s e target role)
      (name : e.name = some submitted) : StoredName role.name

theorem Creates.findRole_eq {d : RoleDraft} (h : v.Creates t r s d role) :
    (v.respond t r s).2.findRole role.server role.id = some role := by
  rw [h.made]
  exact Store.findRole_eq_some.2 ⟨Table.mem_insert.2 (.inl rfl), rfl, rfl⟩

/-- A new role has what is left of the name that was submitted for it. -/
theorem Creates.isRoleName {d : RoleDraft} (h : v.Creates t r s d role) :
    IsCore role.name.toList d.name.toList ∧ IsRoleName role.name := by
  have hsubmittable : Submittable d.name :=
    submittable_iff.2 ⟨(RoleDraft.checkFields_eq_ok.1 h.fields).2, h.name⟩
  have hname : role.name = trim d.name := congrArg Role.name h.described
  rw [hname]
  exact ⟨isCore_trim d.name, hsubmittable.isRoleName⟩

/-- A role that is given a name has what is left of the one that was submitted. -/
theorem Edits.isRoleName (h : v.Edits t r s e target role) (hn : e.name = some name) :
    IsCore role.name.toList name.toList ∧ IsRoleName role.name := by
  obtain ⟨-, hsubmittable⟩ := (RoleEdit.accepted_iff hn).1 ⟨h.fields, h.name⟩
  have hname : role.name = trim name := by
    rw [h.edited, Role.patch, RoleEdit.patch, hn]
    rfl
  rw [hname]
  exact ⟨isCore_trim name, hsubmittable.isRoleName⟩

theorem StoredName.isRoleName (h : StoredName name) : IsRoleName name := by
  cases h with
  | created creates => exact creates.isRoleName.2
  | given edits hname => exact (edits.isRoleName hname).2

/-- Whoever may rename a role has success just with a name that is accepted, for a role that is no
default role. -/
theorem MayRename.succeeds_iff (h : v.MayRename t r s e target name) :
    (v.respond t r s).1.Succeeds ↔ target.isDefault = false ∧ Submittable name := by
  constructor
  · intro hok
    obtain ⟨e', target', role, hedits, hserver, hid⟩ := exists_edits_of_succeeds h.asks hok
    cases h.body.symm.trans hedits.body
    have hfound := Store.findRole_eq_some.1 hedits.found
    obtain rfl : target' = target := Store.eq_of_id_eq hfound.1 h.found hid
    exact (RoleEdit.accepted_iff h.name).1 ⟨hedits.fields, hedits.name⟩
  · rintro ⟨hd, hname⟩
    exact (h.edits hd hname).succeeds

/-- Submitting a stored name again gives a role just this name. -/
theorem MayRename.name_eq (h : v.MayRename t r s e target name) (hname : IsRoleName name) :
    (target.patch e.patch).name = name := by
  rw [Role.patch, RoleEdit.patch, h.name]
  exact hname.trim_eq

end Service

/-! ## An example -/

namespace Example

def guard : Role := ⟨30, 1, "guard", none, 3, .ofList [.banMembers], false⟩

/-- The manager calls the guards by a name. -/
def naming (name : String) : Http.Request :=
  submission "PATCH" ["servers", (1 : Id).text, "roles", (30 : Id).text]
    ("\x7b\"name\": \"" ++ name ++ "\"\x7d")

/-- The manager may do so, with any name that can stand in the body as it is. -/
theorem mayRename_naming {name : String}
    (hbody : readBody RoleEdit.codec (naming name) = .ok ⟨some name, none, none⟩) :
    service.MayRename moment (naming name) store ⟨some name, none, none⟩ guard name := by
  have hsame : (naming name).path = restoring.path := by
    simp only [Http.Request.path, naming, restoring, submission, request]
  have hpath : Endpoint.find? (naming name).path = some (.role, guardPath) := by
    rw [hsame]
    exact letIn_guardPath.2.2
  have hgrants : store.Grants manager .manageRoles none :=
    (Store.grants_resolve_iff (Member.within_none manager)).1 (by decide)
  refine ⟨⟨⟨_, _, hpath, rfl, ?_⟩, _, _, guardPath, hpath, rfl, ?_⟩, hbody, rfl, rfl, by decide,
    7, manager, authenticate_submission _ _ _, by decide, hgrants, .inr (by decide)⟩
  all_goals decide +kernel

end Example

namespace Service

/-- The names that requests leave on roles are what is left of those submitted without the white space
at their ends; they have one to a hundred characters, none of them a control character, and no white
space at the ends. All names are accepted that have one to a hundred characters, are not blank and
have no control character. A name that a request has had stored is accepted for any role that is no
default role, from anyone who may rename it, and the role then has just this name. -/
theorem role_names (v : Service) (t : Moment) (r : Http.Request) (s : Store) :
    (∀ server, v.Achieves t r s .createRole server →
      ∃ d role, v.Creates t r s d role ∧ (v.respond t r s).2.findRole server role.id = some role ∧
        IsCore role.name.toList d.name.toList ∧ IsRoleName role.name) ∧
    (∀ server id, r.Asks .updateRole server id → (v.respond t r s).1.Succeeds →
      ∃ e target role, v.Edits t r s e target role ∧
        (v.respond t r s).2.findRole server id = some role ∧
        ∀ name, e.name = some name →
          IsCore role.name.toList name.toList ∧ IsRoleName role.name) ∧
    (∀ d : RoleDraft, d.checkFields = .ok () ∧ checkRoleName d.name = .ok () ↔
      (∀ p, d.position = some p → 1 ≤ p) ∧ Submittable d.name) ∧
    (∀ e : RoleEdit, ∀ target name, e.name = some name →
      (e.checkFields = .ok () ∧ checkRename target e.name = .ok () ↔
        target.isDefault = false ∧ Submittable name)) ∧
    (∀ e target name, v.MayRename t r s e target name →
      ((v.respond t r s).1.Succeeds ↔ target.isDefault = false ∧ Submittable name) ∧
      (target.isDefault = false → StoredName name → (v.respond t r s).1.Succeeds ∧
        ∃ role, v.Edits t r s e target role ∧
          (v.respond t r s).2.findRole target.server target.id = some role ∧ role.name = name)) := by
  refine ⟨?_, ?_, ?_, fun e target name => RoleEdit.accepted_iff, ?_⟩
  · intro server h
    obtain ⟨d, role, hcreates, rfl⟩ := h.exists_creates
    exact ⟨d, role, hcreates, hcreates.findRole_eq, hcreates.isRoleName⟩
  · intro server id hasks hok
    obtain ⟨e, target, role, hedits, rfl, rfl⟩ := exists_edits_of_succeeds hasks hok
    exact ⟨e, target, role, hedits, hedits.findRole_eq, fun name => hedits.isRoleName⟩
  · intro d
    simp only [RoleDraft.checkFields_eq_ok, submittable_iff, positionFits, decide_eq_true_eq]
    exact and_assoc
  · intro e target name h
    refine ⟨h.succeeds_iff, fun hd hstored => ?_⟩
    have hname := hstored.isRoleName
    have hedits := h.edits hd hname.submittable
    exact ⟨hedits.succeeds, _, hedits, hedits.findRole_eq, h.name_eq hname⟩

/-- The owner's warden is created; the manager has the guards called the night watch, and again with
this name as it is stored. -/
theorem role_names_guard :
    Example.service.Achieves Example.moment Example.creation Example.freehold .createRole 1 ∧
      (∃ d role, Example.service.Creates Example.moment Example.creation Example.freehold d role ∧
        (Example.service.respond Example.moment Example.creation Example.freehold).2.findRole 1
          role.id = some role ∧
        IsCore role.name.toList d.name.toList ∧ IsRoleName role.name) ∧
      (Example.naming " night watch\u2003").Asks .updateRole 1 30 ∧
      (Example.service.respond Example.moment (Example.naming " night watch\u2003")
        Example.store).1.Succeeds ∧
      (∃ e target role, Example.service.Edits Example.moment
          (Example.naming " night watch\u2003") Example.store e target role ∧
        (Example.service.respond Example.moment (Example.naming " night watch\u2003")
          Example.store).2.findRole 1 30 = some role ∧
        ∀ name, e.name = some name → IsCore role.name.toList name.toList ∧ IsRoleName role.name) ∧
      Example.service.MayRename Example.moment (Example.naming "night watch") Example.store
        ⟨some "night watch", none, none⟩ Example.guard "night watch" ∧
      Example.guard.isDefault = false ∧ StoredName "night watch" ∧
      (Example.service.respond Example.moment (Example.naming "night watch")
        Example.store).1.Succeeds ∧
      ∃ role, Example.service.Edits Example.moment (Example.naming "night watch") Example.store
          ⟨some "night watch", none, none⟩ Example.guard role ∧
        (Example.service.respond Example.moment (Example.naming "night watch")
          Example.store).2.findRole 1 30 = some role ∧ role.name = "night watch" := by
  have hcommit : Example.freehold.commit (.createRole Example.warden) =
      .ok (.role Example.warden, Example.freehold.afterWrite (.createRole Example.warden)) := by
    decide
  have hachieves := Example.achieves_creation Example.letIn_creation rfl hcommit
  have hread : ∀ name ∈ [" night watch\u2003", "night watch"],
      readBody RoleEdit.codec (Example.naming name) = .ok ⟨some name, none, none⟩ := by
    decide +kernel
  have hfirst := Example.mayRename_naming (hread " night watch\u2003" (by decide))
  have hagain := Example.mayRename_naming (hread "night watch" (by decide))
  have hedits := hfirst.edits rfl (submittable_iff.2 (by decide))
  have hstored : StoredName "night watch" := StoredName.given hedits rfl
  obtain ⟨hcreated, -⟩ := role_names Example.service Example.moment Example.creation Example.freehold
  obtain ⟨-, hedited, -⟩ := role_names Example.service Example.moment
    (Example.naming " night watch\u2003") Example.store
  obtain ⟨-, -, -, -, hrenamed⟩ := role_names Example.service Example.moment
    (Example.naming "night watch") Example.store
  exact ⟨hachieves, hcreated 1 hachieves, hfirst.asks, hedits.succeeds,
    hedited 1 30 hfirst.asks hedits.succeeds, hagain, rfl, hstored,
    (hrenamed _ _ _ hagain).2 rfl hstored⟩

end Service

end Guildhall
