-- SUMMARY: Who holds more, and holds roles that grant more, may do no less in a server as a whole.
import Guildhall.Proofs.Escalation

/-!
# Monotonicity

In a server as a whole nothing is denied: every role that counts for a member adds what it grants. So a
member who holds more roles, or roles that grant more, loses nothing (`Member.resolve_none_subset`), in
spite of the administrator permission, which stands for all others. For stores the same is said by
`Store.Extends`, and a successful write is monotone in one direction or the other as soon as it is for
each single record.
-/

namespace Guildhall

/-! ## Resolution -/

/-- Whether the second role is the first one with no fewer permissions; name and rank do not matter. -/
structure Role.Extends (r r' : Role) : Prop where
  id : r'.id = r.id
  server : r'.server = r.server
  isDefault : r'.isDefault = r.isDefault
  permissions : r.permissions ⊆ r'.permissions

theorem Role.Extends.refl (r : Role) : r.Extends r := ⟨rfl, rfl, rfl, fun _ h => h⟩

/-- Whether a member among some roles has a counterpart among others: in the same place, with no fewer
roles, and with each role that counts for the first extended by one that counts for the second. -/
structure Member.Extends (m : Member) (roles : List Role) (e : Role) (m' : Member)
    (roles' : List Role) (e' : Role) : Prop where
  user : m'.user = m.user
  server : m'.server = m.server
  holds : m'.isOwner = true ∨ ∀ id, m.holds id = true → m'.holds id = true
  everyone : e'.id = e.id ∧ e.permissions ⊆ e'.permissions
  roles : ∀ r ∈ roles, r.isDefault = false → r.server = m.server → m.holds r.id = true →
    ∃ r' ∈ roles', r.Extends r'

namespace Member

variable {m m' : Member} {roles roles' : List Role} {e e' : Role} {p : Permission}

theorem Draws.of_extends (h : m.Extends roles e m' roles' e') (ho : m'.isOwner = false)
    (hp : m.Draws roles e p) : m'.Draws roles' e' p := by
  obtain howner | hholds := h.holds
  · rw [ho] at howner
    cases howner
  obtain hp | ⟨r, hr, hheld, hp⟩ := hp
  · exact .inl (h.everyone.2 hp)
  · obtain ⟨hserver, hne, hdefault, hheld⟩ := heldBeside_iff.1 hheld
    obtain ⟨r', hr', hext⟩ := h.roles r hr hdefault hserver hheld
    have hheld' : m'.heldBeside e' r' = true := by
      rw [heldBeside_iff, hext.server, hext.id, hext.isDefault, h.server, h.everyone.1]
      exact ⟨hserver, hne, hdefault, hholds _ hheld⟩
    exact .inr ⟨r', hr', hheld', hext.permissions hp⟩

/-- Whoever has a counterpart may do no more in the server than that one. Neither the positions of roles
nor their order in the lists matter. -/
theorem resolve_none_subset (ho : m.isOwner = false) (he : m.usableEveryone (some e) = some e)
    (he' : m'.usableEveryone (some e') = some e') (hids : IdsIdentify roles)
    (hids' : IdsIdentify roles') (h : m.Extends roles e m' roles' e') :
    m.resolve roles (some e) none ⊆ m'.resolve roles' (some e') none := by
  intro p hp
  cases ho' : m'.isOwner with
  | true => simp [resolve_none_of_isOwner ho']
  | false =>
    rw [mem_resolve_none ho he hids] at hp
    rw [mem_resolve_none ho' he' hids']
    exact hp.imp (.of_extends h ho') (.of_extends h ho')

end Member

/-! ## Stores -/

namespace Store

variable {s s' : Store} {w : Write} {receipt : Receipt} {server user role : Id}

/-- Whether all that counts for a user in a server counts in the second store too, and grants no less. -/
structure Extends (s s' : Store) (server user : Id) : Prop where
  member : ∀ m, s.findMember server user = some m → ∃ m', s'.findMember server user = some m' ∧
    m'.isOwner = m.isOwner ∧ ∀ id, m.holds id = true → m'.holds id = true
  everyone : ∀ e, s.OnlyDefault server e → ∃ e', s'.OnlyDefault server e' ∧ e.Extends e'
  roles : ∀ r ∈ s.roles, ∃ r' ∈ s'.roles, r.Extends r'

theorem Extends.effective_subset (h : s.Extends s' server user) :
    s.effective server user ⊆ s'.effective server user := by
  intro p hp
  obtain ⟨m, hm, hp⟩ := findMember_of_mem_effective hp
  obtain ⟨m', hm', howner, hholds⟩ := h.member m hm
  obtain ⟨-, hserver, huser⟩ := findMember_eq_some.1 hm
  obtain ⟨-, hserver', huser'⟩ := findMember_eq_some.1 hm'
  rw [effective_of_findMember hm']
  cases ho : m.isOwner with
  | true => simp [permissionsOf_of_isOwner (howner.trans ho)]
  | false =>
    -- whoever has a permission without owning the server has a default role loaded, and so has the
    -- counterpart
    obtain ⟨e, he⟩ := ((mem_permissionsOf ho).1 hp).1
    obtain ⟨e', he', hext⟩ := h.everyone e (hserver ▸ he)
    have hload := everyone_recordsOf_eq_some.2 he
    have hload' := everyone_recordsOf_eq_some.2 (hserver'.symm ▸ he')
    have hextends : m.Extends (s.serverRoles m.server) e m' (s'.serverRoles m'.server) e' := {
      user := huser'.trans huser.symm
      server := hserver'.trans hserver.symm
      holds := .inr hholds
      everyone := ⟨hext.id, hext.permissions⟩
      roles := by
        intro r hr _ hrs _
        obtain ⟨r', hr', hext'⟩ := h.roles r (mem_serverRoles.1 hr).1
        refine ⟨r', mem_serverRoles.2 ⟨hr', ?_⟩, hext'⟩
        rw [hext'.server, hrs, hserver, hserver'] }
    have hsub := Member.resolve_none_subset ho (hload ▸ s.usableEveryone_recordsOf m)
      (hload' ▸ s'.usableEveryone_recordsOf m') (s.idsIdentify_serverRoles _)
      (s'.idsIdentify_serverRoles _) hextends
    simp only [permissionsOf, ServerRecords.resolve, member_recordsOf, roles_recordsOf, hload,
      hload'] at hp ⊢
    exact hsub hp

/-- A write that takes nothing away from any record extends the store. -/
theorem Follows.extends (hf : s.Follows w s') (ha : s.Admits w)
    (hnew : ∀ r ∈ w.newRoles, r.isDefault = false)
    (hroles : ∀ r ∈ s.roles, ∃ r', w.onRole r = some r' ∧ r.permissions ⊆ r'.permissions)
    (hmember : ∀ m, s.findMember server user = some m →
      ∃ m', w.onMember m = some m' ∧ ∀ id, m.holds id = true → m'.holds id = true) :
    s.Extends s' server user := by
  have extends_of {r r' : Role} (hon : w.onRole r = some r') (hsub : r.permissions ⊆ r'.permissions) :
      r.Extends r' := by
    obtain ⟨hid, hserver, hdefault⟩ := Write.onRole_eq_some hon
    exact ⟨hid, hserver, hdefault, hsub⟩
  refine ⟨fun m hm => ?_, fun e he => ?_, fun r hr => ?_⟩
  · obtain ⟨m', hon, hholds⟩ := hmember m hm
    exact ⟨m', hf.findMember_of_onMember hm hon, (Write.onMember_eq_some hon).2.2, hholds⟩
  · obtain ⟨e', hon, hsub⟩ := hroles e ((he e).2 rfl).1
    exact ⟨e', (hf.onlyDefault_iff ha hnew).2 ⟨e, he, hon⟩, extends_of hon hsub⟩
  · obtain ⟨r', hon, hsub⟩ := hroles r hr
    exact ⟨r', hf.mem_roles.2 (.inl ⟨r, hr, hon⟩), extends_of hon hsub⟩

/-- Only creations and updates of roles and assignments add to anything, so after any other write the
store extends to the one before. -/
theorem Follows.extends_back (hf : s.Follows w s') (ha : s.Admits w) (hnew : w.newRoles = [])
    (hupdate : ∀ sv role patch, w ≠ .updateRole sv role patch)
    (hassign : ∀ sv x role, w ≠ .assignRole sv x role) : s'.Extends s server user := by
  have extends_of {r r' : Role} (hon : w.onRole r = some r') : r'.Extends r := by
    obtain ⟨hid, hserver, hdefault⟩ := Write.onRole_eq_some hon
    refine ⟨hid.symm, hserver.symm, hdefault.symm, fun p hp => ?_⟩
    obtain hp | ⟨patch, -, hw, -⟩ := Write.mem_permissions_of_onRole hon hp
    · exact hp
    · exact absurd hw (hupdate _ _ patch)
  refine ⟨fun m' hm' => ?_, fun e' he' => ?_, fun r' hr' => ?_⟩
  · obtain ⟨m, hm, hon⟩ := hf.findMember_of_findMember hm'
    refine ⟨m, hm, (Write.onMember_eq_some hon).2.2.symm, fun id hid => ?_⟩
    obtain hid | hw := Write.holds_of_onMember hon hid
    · exact hid
    · exact absurd hw (hassign _ _ id)
  · obtain ⟨e, he, hon⟩ := (hf.onlyDefault_iff ha (by simp [hnew])).1 he'
    exact ⟨e, he, extends_of hon⟩
  · obtain ⟨r, hr, hon⟩ | hadded := hf.mem_roles.1 hr'
    · exact ⟨r, hr, extends_of hon⟩
    · rw [hnew] at hadded
      cases hadded

/-! ## Writes -/

/-- Whether in the second store nobody may do less in any server as a whole. -/
def Allows (s s' : Store) : Prop := ∀ server user, s.effective server user ⊆ s'.effective server user

/-- Whether in the second store everybody but one member may do the same in each server as a whole. -/
def AgreesBeside (s s' : Store) (server user : Id) : Prop :=
  ∀ sv x, (sv, x) ≠ (server, user) → s'.effective sv x = s.effective sv x

theorem effective_congr (hroles : s'.roles = s.roles)
    (hm : s'.findMember server user = s.findMember server user) :
    s'.effective server user = s.effective server user := by
  simp only [effective, hm, permissionsOf, recordsOf, serverRoles, hroles]

theorem agreesBeside_of_follows (hf : s.Follows w s') (hroles : w.onRole = some)
    (hnew : w.newRoles = [])
    (hmember : ∀ m : Member, (m.server, m.user) ≠ (server, user) → w.onMember m = some m) :
    s.AgreesBeside s' server user := by
  intro sv x hne
  refine effective_congr (Table.ext ?_) ?_
  · rw [hf.roles, hroles, hnew, List.filterMap_some, List.append_nil]
  · rw [hf.findMember_eq]
    cases hm : s.findMember sv x with
    | none => rfl
    | some m =>
      obtain ⟨-, rfl, rfl⟩ := findMember_eq_some.1 hm
      exact hmember m hne

theorem allows_assignRole (hc : s.commit (.assignRole server user role) = .ok (receipt, s')) :
    s.Allows s' ∧ s.AgreesBeside s' server user := by
  obtain ⟨ha, hf⟩ := commit_ok hc
  constructor
  · intro sv x
    refine (hf.extends ha (by simp [Write.newRoles]) (fun r _ => ⟨r, rfl, fun _ h => h⟩) ?_).effective_subset
    intro m _
    refine ⟨_, rfl, fun id hid => ?_⟩
    split
    · exact Member.holds_assign.2 (.inl hid)
    · exact hid
  · refine agreesBeside_of_follows hf rfl rfl fun m hne => ?_
    exact congrArg some (if_neg fun h => hne (Prod.ext h.1 h.2))

theorem allows_unassignRole (hc : s.commit (.unassignRole server user role) = .ok (receipt, s')) :
    s'.Allows s ∧ s.AgreesBeside s' server user := by
  obtain ⟨ha, hf⟩ := commit_ok hc
  constructor
  · intro sv x
    exact (hf.extends_back ha rfl (by simp) (by simp)).effective_subset
  · refine agreesBeside_of_follows hf rfl rfl fun m hne => ?_
    exact congrArg some (if_neg fun h => hne (Prod.ext h.1 h.2))

theorem allows_deleteRole (hc : s.commit (.deleteRole server role) = .ok (receipt, s')) :
    s'.Allows s := by
  obtain ⟨ha, hf⟩ := commit_ok hc
  intro sv x
  exact (hf.extends_back ha rfl (by simp) (by simp)).effective_subset

theorem allows_updateRole {patch : RolePatch}
    (hc : s.commit (.updateRole server role patch) = .ok (receipt, s'))
    (hsub : ∀ r ps, s.findRole server role = some r → patch.permissions = some ps →
      r.permissions ⊆ ps) : s.Allows s' := by
  obtain ⟨ha, hf⟩ := commit_ok hc
  intro sv x
  refine (hf.extends ha (by simp [Write.newRoles]) ?_ fun m _ => ⟨m, rfl, fun _ h => h⟩).effective_subset
  intro r hr
  refine ⟨_, rfl, fun p hp => ?_⟩
  split
  · rename_i hkey
    have hfind : s.findRole server role = some r := findRole_eq_some.2 ⟨hr, hkey.1, hkey.2⟩
    cases hps : patch.permissions with
    | none => simpa [Role.patch, hps] using hp
    | some ps => simpa [Role.patch, hps] using hsub r ps hfind hps hp
  · exact hp

/-- In a server as a whole, permissions grow with the roles that a member holds and with what these
grant. So an assignment takes no permission from anybody, a withdrawal or a deletion of a role gives none
to anybody, an update that keeps the permissions of the role takes none, and an assignment or a
withdrawal makes no difference to anybody else. -/
theorem effective_mono :
    (∀ (m m' : Member) (roles roles' : List Role) (e e' : Role), m.isOwner = false →
      m.usableEveryone (some e) = some e → m'.usableEveryone (some e') = some e' →
      IdsIdentify roles → IdsIdentify roles' → m.Extends roles e m' roles' e' →
      m.resolve roles (some e) none ⊆ m'.resolve roles' (some e') none) ∧
    ∀ (s s' : Store) (receipt : Receipt) (server user role : Id) (patch : RolePatch),
      (s.commit (.assignRole server user role) = .ok (receipt, s') →
        s.Allows s' ∧ s.AgreesBeside s' server user) ∧
      (s.commit (.unassignRole server user role) = .ok (receipt, s') →
        s'.Allows s ∧ s.AgreesBeside s' server user) ∧
      (s.commit (.deleteRole server role) = .ok (receipt, s') → s'.Allows s) ∧
      (s.commit (.updateRole server role patch) = .ok (receipt, s') →
        (∀ r ps, s.findRole server role = some r → patch.permissions = some ps →
          r.permissions ⊆ ps) →
        s.Allows s') := by
  constructor
  · intro m m' roles roles' e e' ho he he' hids hids' h
    exact Member.resolve_none_subset ho he he' hids hids' h
  · intro s s' receipt server user role patch
    exact ⟨allows_assignRole, allows_unassignRole, allows_deleteRole, allows_updateRole⟩

end Store

namespace Example

/-- The default role of server 1, which grants nothing. -/
def baseRole : Role := ⟨10, 1, "@everyone", none, 0, ∅, true⟩

/-- The newcomer is a guard now. -/
def enlisted : Store := store.afterWrite (.assignRole 1 8 30)

/-- Guards may do everything now. -/
def armed : Store := enlisted.afterWrite (.updateRole 1 30 ⟨none, none, some .full⟩)

end Example

theorem Store.effective_mono_guard :
    Example.manager.resolve (Example.store.serverRoles 1) (some Example.baseRole) none ⊆
        (Example.manager.assign 30).resolve (Example.store.serverRoles 1).reverse
          (some Example.baseRole) none ∧
      (Example.store.Allows Example.enlisted ∧ Example.store.AgreesBeside Example.enlisted 1 8) ∧
      ((Example.enlisted.afterWrite (.unassignRole 1 8 30)).Allows Example.enlisted ∧
        Example.enlisted.AgreesBeside (Example.enlisted.afterWrite (.unassignRole 1 8 30)) 1 8) ∧
      (Example.armed.afterWrite (.deleteRole 1 30)).Allows Example.armed ∧
      Example.enlisted.Allows Example.armed ∧
      .banMembers ∉ Example.store.effective 1 8 ∧ .banMembers ∈ Example.enlisted.effective 1 8 ∧
      .kickMembers ∈ Example.armed.effective 1 8 := by
  obtain ⟨hresolve, hwrites⟩ := Store.effective_mono
  have hids : IdsIdentify (Example.store.serverRoles 1) := Store.idsIdentify_serverRoles _ _
  have hextends : Example.manager.Extends (Example.store.serverRoles 1) Example.baseRole
      (Example.manager.assign 30) (Example.store.serverRoles 1).reverse Example.baseRole := {
    user := rfl
    server := rfl
    holds := .inr fun _ h => Member.holds_assign.2 (.inl h)
    everyone := ⟨rfl, fun _ h => h⟩
    roles := fun r hr _ _ _ => ⟨r, List.mem_reverse.2 hr, .refl r⟩ }
  refine ⟨?_, ?_, ?_, ?_, ?_, by decide⟩
  · exact hresolve _ _ _ _ _ _ rfl (by decide) (by decide) hids
      (hids.of_subset fun _ => List.mem_reverse.1) hextends
  · exact (hwrites Example.store Example.enlisted (.member ⟨8, 1, [30], false⟩) 1 8 30
      ⟨none, none, none⟩).1 (by decide)
  · exact (hwrites Example.enlisted _ (.member ⟨8, 1, [], false⟩) 1 8 30 ⟨none, none, none⟩).2.1
      (by decide)
  · exact (hwrites Example.armed _ .nothing 1 8 30 ⟨none, none, none⟩).2.2.1 (by decide)
  · refine (hwrites Example.enlisted Example.armed (.role ⟨30, 1, "guard", none, 3, .full, false⟩)
      1 8 30 ⟨none, none, some .full⟩).2.2.2 (by decide) ?_
    rintro r ps - ⟨⟩ p -
    exact PermissionSet.mem_full p

end Guildhall
