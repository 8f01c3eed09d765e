-- SUMMARY: What the users of a store may do in a server as a whole, read off the store's records.
import Guildhall.Access
import Guildhall.Proofs.Resolution
import Mathlib.Data.List.Nodup

/-!
# Standing

`Store.effective` is what a user may do in a server as a whole: what the records that are
loaded for the user resolve to, and nothing for those who are no members.
`Store.mem_permissionsOf` reads it off the roles in the store: of a server with exactly one
default role, members have what the default role and the roles they hold grant.
-/

namespace Guildhall

/-! ## Records of a server -/

namespace ServerRecords

@[simp] theorem member_ofRoles (m : Member) (roles : List Role) : (ofRoles m roles).member = m := by
  unfold ofRoles
  split <;> rfl

@[simp] theorem roles_ofRoles (m : Member) (roles : List Role) : (ofRoles m roles).roles = roles := by
  unfold ofRoles
  split <;> rfl

@[simp] theorem server_ofRoles (m : Member) (roles : List Role) :
    (ofRoles m roles).server = m.server := by
  simp [server]

theorem everyone_ofRoles_eq_some {m : Member} {roles : List Role} {e : Role} :
    (ofRoles m roles).everyone = some e ↔ roles.filter Role.isDefault = [e] := by
  unfold ofRoles
  split
  · rename_i d hd
    simp [hd]
  · rename_i hd
    simp [hd]
  · rename_i hne hnil
    simp only [reduceCtorEq, false_iff]
    exact fun h => hne e h

end ServerRecords


/-! ## Roles of a server -/

namespace Store

variable {s : Store} {server user : Id} {m : Member} {p : Permission}

theorem mem_serverRoles {r : Role} : r ∈ s.serverRoles server ↔ r ∈ s.roles ∧ r.server = server := by
  rw [serverRoles, mem_sortBy, List.mem_filter, Table.mem_iff, beq_iff_eq]

theorem nodup_serverRoles (s : Store) (server : Id) : (s.serverRoles server).Nodup := by
  have h : s.roles.toList.Nodup := List.Nodup.of_map _ s.roles.nodup
  exact (sortBy_perm _ _).nodup_iff.2 (h.filter _)

/-- A role is found in the store by its id. -/
theorem eq_of_id_eq {r q : Role} (hr : r ∈ s.roles) (hq : q ∈ s.roles) (h : r.id = q.id) : r = q :=
  Table.eq_of_key_eq hr hq h

theorem idsIdentify_serverRoles (s : Store) (server : Id) : IdsIdentify (s.serverRoles server) :=
  fun _ hr _ hq h => eq_of_id_eq (mem_serverRoles.1 hr).1 (mem_serverRoles.1 hq).1 h

theorem findMember_eq_some :
    s.findMember server user = some m ↔ m ∈ s.members ∧ m.server = server ∧ m.user = user := by
  simp [findMember, Table.get?_eq_some_iff, key]

theorem findRole_eq_some {id : Id} {r : Role} :
    s.findRole server id = some r ↔ r ∈ s.roles ∧ r.server = server ∧ r.id = id := by
  simp only [findRole, Option.filter_eq_some_iff, Table.get?_eq_some_iff, key, beq_iff_eq]
  constructor
  · rintro ⟨⟨hr, hid⟩, hs⟩
    exact ⟨hr, hs, hid⟩
  · rintro ⟨hr, hs, hid⟩
    exact ⟨⟨hr, hid⟩, hs⟩

/-- Whether the role is the one default role of the server. -/
def OnlyDefault (s : Store) (server : Id) (e : Role) : Prop :=
  ∀ r, (r ∈ s.roles ∧ r.server = server ∧ r.isDefault = true) ↔ r = e

/-- Whether the server has exactly one default role. -/
def Configured (s : Store) (server : Id) : Prop := ∃ e, s.OnlyDefault server e

/-- Whether the server has exactly one default role, with that id. -/
def DefaultId (s : Store) (server id : Id) : Prop := ∃ e, s.OnlyDefault server e ∧ e.id = id

theorem configured_iff_exists_defaultId : s.Configured server ↔ ∃ id, s.DefaultId server id := by
  constructor
  · rintro ⟨e, he⟩
    exact ⟨e.id, e, he, rfl⟩
  · rintro ⟨id, e, he, -⟩
    exact ⟨e, he⟩

theorem mem_filter_isDefault {r : Role} :
    r ∈ (s.serverRoles server).filter Role.isDefault ↔
      r ∈ s.roles ∧ r.server = server ∧ r.isDefault = true := by
  rw [List.mem_filter, mem_serverRoles, and_assoc]

theorem onlyDefault_iff {e : Role} :
    s.OnlyDefault server e ↔ (s.serverRoles server).filter Role.isDefault = [e] := by
  have hn : ((s.serverRoles server).filter Role.isDefault).Nodup :=
    (nodup_serverRoles s server).filter _
  constructor
  · intro h
    have hp := (List.perm_ext_iff_of_nodup hn (List.nodup_singleton e)).2 fun r => by
      rw [mem_filter_isDefault, h r, List.mem_singleton]
    exact List.perm_singleton.1 hp
  · intro h r
    rw [← mem_filter_isDefault, h, List.mem_singleton]

theorem defaultId_iff_filter {id : Id} : s.DefaultId server id ↔
    ((s.serverRoles server).filter Role.isDefault).map Role.id = [id] := by
  simp only [DefaultId, onlyDefault_iff, List.map_eq_singleton_iff]

instance (s : Store) (server id : Id) : Decidable (s.DefaultId server id) :=
  decidable_of_iff _ defaultId_iff_filter.symm


/-! ## Permissions of members -/

/-- The records that are loaded for a member. -/
def recordsOf (s : Store) (m : Member) : ServerRecords := .ofRoles m (s.serverRoles m.server)

/-- What a member may do in the server as a whole. -/
def permissionsOf (s : Store) (m : Member) : PermissionSet := (s.recordsOf m).resolve none

/-- What a user may do in a server as a whole; nothing unless they are a member. -/
def effective (s : Store) (server user : Id) : PermissionSet :=
  match s.findMember server user with
  | some m => s.permissionsOf m
  | none => ∅

/-- Whether a user owns a server. -/
def owns (s : Store) (server user : Id) : Bool := (s.findMember server user).any Member.isOwner

@[simp] theorem member_recordsOf (s : Store) (m : Member) : (s.recordsOf m).member = m :=
  ServerRecords.member_ofRoles _ _

@[simp] theorem roles_recordsOf (s : Store) (m : Member) :
    (s.recordsOf m).roles = s.serverRoles m.server :=
  ServerRecords.roles_ofRoles _ _

@[simp] theorem server_recordsOf (s : Store) (m : Member) : (s.recordsOf m).server = m.server :=
  ServerRecords.server_ofRoles _ _

theorem everyone_recordsOf_eq_some {e : Role} :
    (s.recordsOf m).everyone = some e ↔ s.OnlyDefault m.server e := by
  rw [recordsOf, ServerRecords.everyone_ofRoles_eq_some, onlyDefault_iff]

theorem everyone_recordsOf_eq_none :
    (s.recordsOf m).everyone = none ↔ ¬ s.Configured m.server := by
  constructor
  · rintro hnone ⟨e, he⟩
    rw [everyone_recordsOf_eq_some.2 he] at hnone
    cases hnone
  · intro hc
    cases he : (s.recordsOf m).everyone with
    | none => rfl
    | some e => exact absurd ⟨e, everyone_recordsOf_eq_some.1 he⟩ hc

/-- The default role that is loaded is usable. -/
theorem usableEveryone_recordsOf (s : Store) (m : Member) :
    m.usableEveryone (s.recordsOf m).everyone = (s.recordsOf m).everyone := by
  cases he : (s.recordsOf m).everyone with
  | none => rfl
  | some e =>
    obtain ⟨-, hs, hd⟩ := (everyone_recordsOf_eq_some.1 he e).2 rfl
    exact Member.usableEveryone_eq_some.2 ⟨rfl, hd, hs⟩

theorem findRole_recordsOf_eq_some {id : Id} {r : Role} :
    (s.recordsOf m).findRole id = some r ↔ r ∈ s.roles ∧ r.server = m.server ∧ r.id = id := by
  rw [ServerRecords.findRole, roles_recordsOf]
  constructor
  · intro h
    obtain ⟨hr, hs⟩ := mem_serverRoles.1 (List.mem_of_find?_eq_some h)
    exact ⟨hr, hs, by simpa using List.find?_some h⟩
  · rintro ⟨hr, hs, hid⟩
    cases hf : (s.serverRoles m.server).find? (·.id == id) with
    | none => exact absurd hid (by simpa using List.find?_eq_none.1 hf r (mem_serverRoles.2 ⟨hr, hs⟩))
    | some q =>
      have hq := (mem_serverRoles.1 (List.mem_of_find?_eq_some hf)).1
      have hqid : q.id = id := by simpa using List.find?_some hf
      rw [eq_of_id_eq hq hr (hqid.trans hid.symm)]

/-- A member's records have the roles of their server. -/
theorem findRole_recordsOf (s : Store) (m : Member) (id : Id) :
    (s.recordsOf m).findRole id = s.findRole m.server id := by
  apply Option.ext
  intro r
  rw [findRole_recordsOf_eq_some, findRole_eq_some]

/-- The role that is found among a member's records is the one of the store. -/
theorem eq_of_findRole_recordsOf {id : Id} {r target : Role}
    (found : (s.recordsOf m).findRole id = some target) (hr : r ∈ s.roles) (hid : r.id = id) :
    r = target := by
  obtain ⟨htarget, -, htid⟩ := findRole_recordsOf_eq_some.1 found
  exact eq_of_id_eq hr htarget (hid.trans htid.symm)

/-- The records of a user are loaded just if they are a member. -/
theorem loadRecords_eq_ok {r : ServerRecords} :
    s.loadRecords server user = .ok r ↔
      ∃ m, s.findMember server user = some m ∧ r = s.recordsOf m := by
  unfold loadRecords
  cases hm : s.findMember server user with
  | none => simp
  | some m =>
    obtain ⟨-, rfl, -⟩ := findMember_eq_some.1 hm
    simp [recordsOf, eq_comm]

/-- Whether a role that counts for the member grants the permission. -/
def Draws (s : Store) (m : Member) (p : Permission) : Prop :=
  ∃ r ∈ s.roles, r.server = m.server ∧ (r.isDefault = true ∨ m.holds r.id = true) ∧
    p ∈ r.permissions

theorem permissionsOf_of_isOwner (h : m.isOwner = true) : s.permissionsOf m = .full := by
  simp [permissionsOf, ServerRecords.resolve, Member.resolve_none_of_isOwner h]

private theorem draws_iff {e : Role} (he : s.OnlyDefault m.server e) :
    m.Draws (s.serverRoles m.server) e p ↔ s.Draws m p := by
  obtain ⟨hes, hesv, hed⟩ := (he e).2 rfl
  constructor
  · rintro (hp | ⟨r, hr, hb, hp⟩)
    · exact ⟨e, hes, hesv, .inl hed, hp⟩
    · obtain ⟨hr, hrs⟩ := mem_serverRoles.1 hr
      exact ⟨r, hr, hrs, .inr (Member.heldBeside_iff.1 hb).2.2.2, hp⟩
  · rintro ⟨r, hr, hrs, hc, hp⟩
    cases hd : r.isDefault with
    | true => exact .inl ((he r).1 ⟨hr, hrs, hd⟩ ▸ hp)
    | false =>
      have hne : r.id ≠ e.id := by
        intro h
        rw [eq_of_id_eq hr hes h, hed] at hd
        cases hd
      have hheld : m.holds r.id = true := hc.elim (fun h => by rw [hd] at h; cases h) id
      exact .inr ⟨r, mem_serverRoles.2 ⟨hr, hrs⟩, Member.heldBeside_iff.2 ⟨hrs, hne, hd, hheld⟩, hp⟩

/-- What a member who is not the owner may do. -/
theorem mem_permissionsOf (h : m.isOwner = false) :
    p ∈ s.permissionsOf m ↔ s.Configured m.server ∧ (s.Draws m .administrator ∨ s.Draws m p) := by
  have hu := s.usableEveryone_recordsOf m
  cases he : (s.recordsOf m).everyone with
  | none =>
    rw [he] at hu
    simp [permissionsOf, ServerRecords.resolve, he, Member.resolve_none_of_unusable h hu,
      everyone_recordsOf_eq_none.1 he]
  | some e =>
    rw [he] at hu
    have hd := everyone_recordsOf_eq_some.1 he
    have hc : s.Configured m.server := ⟨e, hd⟩
    simp only [permissionsOf, ServerRecords.resolve, member_recordsOf, roles_recordsOf, he,
      Member.mem_resolve_none h hu (idsIdentify_serverRoles s m.server), draws_iff hd, hc, true_and]

/-- The administrator permission is never had without all others. -/
theorem mem_permissionsOf_of_admin (h : .administrator ∈ s.permissionsOf m) (p : Permission) :
    p ∈ s.permissionsOf m := by
  simp only [permissionsOf, ServerRecords.resolve, member_recordsOf, roles_recordsOf] at h ⊢
  exact Member.mem_resolve_none_of_admin h p

theorem effective_of_findMember (h : s.findMember server user = some m) :
    s.effective server user = s.permissionsOf m := by
  simp [effective, h]

theorem owns_eq_true :
    s.owns server user = true ↔ ∃ m, s.findMember server user = some m ∧ m.isOwner = true := by
  unfold owns
  cases s.findMember server user with
  | none => simp
  | some m => simp

theorem effective_of_owns (h : s.owns server user = true) : s.effective server user = .full := by
  obtain ⟨m, hm, ho⟩ := owns_eq_true.1 h
  rw [effective_of_findMember hm, permissionsOf_of_isOwner ho]

theorem findMember_of_mem_effective (h : p ∈ s.effective server user) :
    ∃ m, s.findMember server user = some m ∧ p ∈ s.permissionsOf m := by
  unfold effective at h
  split at h
  · exact ⟨_, by assumption, h⟩
  · exact absurd h (PermissionSet.not_mem_empty p)

theorem mem_effective_of_admin (h : .administrator ∈ s.effective server user) (p : Permission) :
    p ∈ s.effective server user := by
  obtain ⟨m, hm, ha⟩ := findMember_of_mem_effective h
  rw [effective_of_findMember hm]
  exact mem_permissionsOf_of_admin ha p

/-- Nobody but the owner has a permission in a server without exactly one default role. -/
theorem configured_of_mem_effective (h : p ∈ s.effective server user) :
    s.owns server user = true ∨ s.Configured server := by
  obtain ⟨m, hm, hp⟩ := findMember_of_mem_effective h
  obtain ⟨-, rfl, -⟩ := findMember_eq_some.1 hm
  cases ho : m.isOwner with
  | true => exact .inl (by simp [owns, hm, ho])
  | false => exact .inr ((mem_permissionsOf ho).1 hp).1

/-! ## Permissions of roles -/

/-- All that the roles of a server grant, taken together. -/
def pool (s : Store) (server : Id) : PermissionSet :=
  ((s.serverRoles server).foldl (fun (ps : PermissionSet) r => ps ∪ r.permissions) ∅).widened

theorem mem_pool : p ∈ s.pool server ↔ ∃ r ∈ s.roles, r.server = server ∧
    (.administrator ∈ r.permissions ∨ p ∈ r.permissions) := by
  simp only [pool, PermissionSet.mem_widened, mem_foldl_permissions, PermissionSet.not_mem_empty,
    false_or, mem_serverRoles]
  constructor
  · rintro (⟨r, ⟨hr, hs⟩, h⟩ | ⟨r, ⟨hr, hs⟩, h⟩)
    · exact ⟨r, hr, hs, .inl h⟩
    · exact ⟨r, hr, hs, .inr h⟩
  · rintro ⟨r, hr, hs, h | h⟩
    · exact .inl ⟨r, ⟨hr, hs⟩, h⟩
    · exact .inr ⟨r, ⟨hr, hs⟩, h⟩

theorem mem_pool_of_admin (h : .administrator ∈ s.pool server) (p : Permission) :
    p ∈ s.pool server := by
  obtain ⟨r, hr, hs, ha | ha⟩ := mem_pool.1 h
  · exact mem_pool.2 ⟨r, hr, hs, .inl ha⟩
  · exact mem_pool.2 ⟨r, hr, hs, .inl ha⟩

/-- What members have who do not own the server, its roles grant. -/
theorem effective_subset_pool (h : s.owns server user = false) :
    s.effective server user ⊆ s.pool server := by
  intro p hp
  obtain ⟨m, hm, hpm⟩ := findMember_of_mem_effective hp
  obtain ⟨-, rfl, -⟩ := findMember_eq_some.1 hm
  have ho : m.isOwner = false := by simpa [owns, hm] using h
  obtain ⟨-, ⟨r, hr, hs, -, hadmin⟩ | ⟨r, hr, hs, -, hpr⟩⟩ := (mem_permissionsOf ho).1 hpm
  · exact mem_pool.2 ⟨r, hr, hs, .inl hadmin⟩
  · exact mem_pool.2 ⟨r, hr, hs, .inr hpr⟩

end Store

end Guildhall
