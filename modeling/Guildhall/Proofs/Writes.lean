-- SUMMARY: What a write makes of every single record, and under which conditions the store makes it.
import Guildhall.Proofs.Standing

/-!
# Writes, record by record

A write is described by what it makes of each role, member and channel by itself, and by the
roles it adds. `Store.commit_ok` says that a write that succeeds does exactly that to all
records of the store, in place, and that it succeeds only where `Store.Admits` holds.
-/

namespace Guildhall

namespace Write

/-- What the write makes of a role; `none` if it deletes the role. -/
def onRole : Write → Role → Option Role
  | .updateRole server role patch => fun r =>
    some (if r.server = server ∧ r.id = role then r.patch patch else r)
  | .moveRole server role _ position => fun r =>
    some (if r.server = server ∧ r.id = role then { r with position } else r)
  | .deleteRole server role => fun r => if r.server = server ∧ r.id = role then none else some r
  | _ => some

/-- The roles that the write adds. -/
def newRoles : Write → List Role
  | .createRole r => [r]
  | _ => []

/-- What the write makes of a member; `none` if it removes the member. -/
def onMember : Write → Member → Option Member
  | .deleteRole server role => fun m => some (if m.server = server then m.unassign role else m)
  | .assignRole server user role => fun m =>
    some (if m.server = server ∧ m.user = user then m.assign role else m)
  | .unassignRole server user role => fun m =>
    some (if m.server = server ∧ m.user = user then m.unassign role else m)
  | .removeMember server user => fun m =>
    if m.server = server ∧ m.user = user then none else some m
  | _ => some

/-- What the write makes of a channel. -/
def onChannel : Write → Channel → Channel
  | .deleteRole server role => fun c =>
    if c.server = some server then c.prune (.role role) else c
  | .removeMember server user => fun c =>
    if c.server = some server then c.prune (.member user) else c
  | .replaceOverrides channel overrides => fun c =>
    if c.id = channel then { c with overrides } else c
  | _ => id

end Write

/-- Whether the second store is what the write makes of the first, record by record. -/
structure Store.Follows (s : Store) (w : Write) (s' : Store) : Prop where
  roles : s'.roles.toList = s.roles.toList.filterMap w.onRole ++ w.newRoles
  members : s'.members.toList = s.members.toList.filterMap w.onMember
  channels : s'.channels.toList = s.channels.toList.map w.onChannel

/-- Whether the store has the records that the write is about, in the state it needs. -/
def Store.Admits (s : Store) : Write → Prop
  | .createRole r =>
    (∀ q ∈ s.roles, q.id ≠ r.id) ∧
      (r.isDefault = true → ∀ q ∈ s.roles, q.server = r.server → q.isDefault = false)
  | .updateRole server role _ => ∃ r, s.findRole server role = some r
  | .moveRole server role expected _ =>
    ∃ r, s.findRole server role = some r ∧ r.position = expected
  | .deleteRole server role => ∃ r, s.findRole server role = some r ∧ r.isDefault = false
  | .assignRole server user role =>
    (∃ r, s.findRole server role = some r ∧ r.isDefault = false) ∧
      ∃ m, s.findMember server user = some m
  | .unassignRole server user _ => ∃ m, s.findMember server user = some m
  | .removeMember server user => ∃ m, s.findMember server user = some m
  | .replaceOverrides channel _ => ∃ c, s.findChannel channel = some c

/-! ## What writes keep -/

namespace Write

variable {w : Write}

/-- No write moves a role to another id or server, or makes it the default role. -/
theorem onRole_eq_some {r r' : Role} (h : w.onRole r = some r') :
    r'.id = r.id ∧ r'.server = r.server ∧ r'.isDefault = r.isDefault := by
  cases w with
  | updateRole server role patch =>
    simp only [onRole, Option.some.injEq] at h
    subst h
    split <;> exact ⟨rfl, rfl, rfl⟩
  | moveRole server role expected position =>
    simp only [onRole, Option.some.injEq] at h
    subst h
    split <;> exact ⟨rfl, rfl, rfl⟩
  | deleteRole server role =>
    simp only [onRole] at h
    split at h
    · cases h
    · cases h
      exact ⟨rfl, rfl, rfl⟩
  | createRole | assignRole | unassignRole | removeMember | replaceOverrides =>
    cases h
    exact ⟨rfl, rfl, rfl⟩

/-- A role comes to have a permission only by an update of its permissions. -/
theorem mem_permissions_of_onRole {r r' : Role} {p : Permission} (h : w.onRole r = some r')
    (hp : p ∈ r'.permissions) : p ∈ r.permissions ∨
      ∃ patch ps, w = .updateRole r.server r.id patch ∧ patch.permissions = some ps ∧ p ∈ ps := by
  cases w with
  | updateRole server role patch =>
    simp only [onRole, Option.some.injEq] at h
    subst h
    split at hp
    · rename_i hkey
      cases hps : patch.permissions with
      | none => exact .inl (by simpa [Role.patch, hps] using hp)
      | some ps =>
        refine .inr ⟨patch, ps, ?_, hps, by simpa [Role.patch, hps] using hp⟩
        rw [hkey.1, hkey.2]
    · exact .inl hp
  | moveRole server role expected position =>
    simp only [onRole, Option.some.injEq] at h
    subst h
    split at hp <;> exact .inl hp
  | deleteRole server role =>
    simp only [onRole] at h
    split at h
    · cases h
    · cases h
      exact .inl hp
  | createRole | assignRole | unassignRole | removeMember | replaceOverrides =>
    cases h
    exact .inl hp

theorem eq_createRole_of_mem_newRoles {r : Role} (h : r ∈ w.newRoles) : w = .createRole r := by
  cases w with
  | createRole q =>
    rw [newRoles, List.mem_singleton] at h
    rw [h]
  | updateRole | moveRole | deleteRole | assignRole | unassignRole | removeMember
  | replaceOverrides => cases h

/-- A write that keeps a member assigns a role to them, takes one away from them or leaves them as they
are. -/
theorem onMember_cases {m m' : Member} (h : w.onMember m = some m') :
    (∃ role, w = .assignRole m.server m.user role ∧ m' = m.assign role) ∨
    (∃ role, (w = .unassignRole m.server m.user role ∨ w = .deleteRole m.server role) ∧
      m' = m.unassign role) ∨
    m' = m ∧ ∀ role, w ≠ .assignRole m.server m.user role ∧ w ≠ .unassignRole m.server m.user role ∧
      w ≠ .deleteRole m.server role := by
  cases w with
  | assignRole server user role =>
    simp only [onMember, Option.some.injEq] at h
    split at h
    · rename_i hkey
      exact .inl ⟨role, by rw [hkey.1, hkey.2], h.symm⟩
    · rename_i hkey
      refine .inr (.inr ⟨h.symm, fun id => ⟨?_, by simp, by simp⟩⟩)
      rintro ⟨⟩
      exact hkey ⟨rfl, rfl⟩
  | unassignRole server user role =>
    simp only [onMember, Option.some.injEq] at h
    split at h
    · rename_i hkey
      exact .inr (.inl ⟨role, .inl (by rw [hkey.1, hkey.2]), h.symm⟩)
    · rename_i hkey
      refine .inr (.inr ⟨h.symm, fun id => ⟨by simp, ?_, by simp⟩⟩)
      rintro ⟨⟩
      exact hkey ⟨rfl, rfl⟩
  | deleteRole server role =>
    simp only [onMember, Option.some.injEq] at h
    split at h
    · rename_i hserver
      exact .inr (.inl ⟨role, .inr (by rw [hserver]), h.symm⟩)
    · rename_i hserver
      refine .inr (.inr ⟨h.symm, fun id => ⟨by simp, by simp, ?_⟩⟩)
      rintro ⟨⟩
      exact hserver rfl
  | removeMember server user =>
    simp only [onMember] at h
    split at h
    · cases h
    · cases h
      exact .inr (.inr ⟨rfl, by simp⟩)
  | createRole | updateRole | moveRole | replaceOverrides =>
    cases h
    exact .inr (.inr ⟨rfl, by simp⟩)

/-- No write makes a member another user, moves them to another server or makes them its owner. -/
theorem onMember_eq_some {m m' : Member} (h : w.onMember m = some m') :
    m'.user = m.user ∧ m'.server = m.server ∧ m'.isOwner = m.isOwner := by
  obtain ⟨role, -, rfl⟩ | ⟨role, -, rfl⟩ | ⟨rfl, -⟩ := onMember_cases h
  · exact ⟨m.user_assign role, m.server_assign role, m.isOwner_assign role⟩
  · exact ⟨rfl, rfl, rfl⟩
  · exact ⟨rfl, rfl, rfl⟩

/-- A member comes to hold a role only by its assignment to them. -/
theorem holds_of_onMember {m m' : Member} {id : Id} (h : w.onMember m = some m')
    (hid : m'.holds id = true) : m.holds id = true ∨ w = .assignRole m.server m.user id := by
  obtain ⟨role, hassign, rfl⟩ | ⟨role, -, rfl⟩ | ⟨rfl, -⟩ := onMember_cases h
  · obtain hid | rfl := Member.holds_assign.1 hid
    · exact .inl hid
    · exact .inr hassign
  · exact .inl (Member.holds_unassign.1 hid).1
  · exact .inl hid

/-- Only its deletion takes a role away. -/
theorem eq_deleteRole_of_onRole {r : Role} (h : w.onRole r = none) :
    w = .deleteRole r.server r.id := by
  cases w with
  | deleteRole server role =>
    simp only [onRole] at h
    split at h
    · rename_i hkey
      rw [hkey.1, hkey.2]
    · cases h
  | createRole | updateRole | moveRole | assignRole | unassignRole | removeMember
  | replaceOverrides => cases h

theorem eq_removeMember_of_onMember {m : Member} (h : w.onMember m = none) :
    w = .removeMember m.server m.user := by
  cases w with
  | removeMember server user =>
    simp only [onMember] at h
    split at h
    · rename_i hkey
      rw [hkey.1, hkey.2]
    · cases h
  | createRole | updateRole | moveRole | deleteRole | assignRole | unassignRole
  | replaceOverrides => cases h

/-- Writes change nothing of a channel but its overrides. -/
theorem onChannel_eq (w : Write) (c : Channel) :
    w.onChannel c = { c with overrides := (w.onChannel c).overrides } := by
  cases w with
  | deleteRole | removeMember | replaceOverrides =>
    simp only [onChannel]
    split <;> rfl
  | createRole | updateRole | moveRole | assignRole | unassignRole => rfl

@[simp] theorem id_onChannel (w : Write) (c : Channel) : (w.onChannel c).id = c.id := by
  rw [onChannel_eq]

@[simp] theorem server_onChannel (w : Write) (c : Channel) :
    (w.onChannel c).server = c.server := by
  rw [onChannel_eq]

/-- Overrides only drop out, unless all of them are replaced. -/
theorem overrides_onChannel_cases (w : Write) (c : Channel) :
    (w.onChannel c).overrides.Sublist c.overrides ∨
      ∃ overrides, w = .replaceOverrides c.id overrides ∧ (w.onChannel c).overrides = overrides := by
  cases w with
  | deleteRole | removeMember =>
    simp only [onChannel]
    split
    · exact .inl List.filter_sublist
    · exact .inl (.refl _)
  | replaceOverrides channel overrides =>
    simp only [onChannel]
    split
    · rename_i hid
      exact .inr ⟨overrides, by rw [hid], rfl⟩
    · exact .inl (.refl _)
  | createRole | updateRole | moveRole | assignRole | unassignRole => exact .inl (.refl _)

/-- A channel of no server keeps its overrides, unless all of them are replaced. -/
theorem onChannel_of_server_eq_none {c : Channel} (hs : c.server = none)
    (hw : ∀ overrides, w ≠ .replaceOverrides c.id overrides) : w.onChannel c = c := by
  cases w with
  | deleteRole | removeMember => simp [onChannel, hs]
  | replaceOverrides channel overrides =>
    have hid : c.id ≠ channel := fun hid => hw overrides (by rw [hid])
    simp [onChannel, hid]
  | createRole | updateRole | moveRole | assignRole | unassignRole => rfl

end Write

namespace Store.Follows

variable {s s' : Store} {w : Write}

theorem mem_roles (h : s.Follows w s') {r' : Role} :
    r' ∈ s'.roles ↔ (∃ r ∈ s.roles, w.onRole r = some r') ∨ r' ∈ w.newRoles := by
  rw [Table.mem_iff, h.roles, List.mem_append, List.mem_filterMap]
  rfl

/-- A role is still there after a write, unless the write deletes it. -/
theorem deleted_or_kept (h : s.Follows w s') {r : Role} (hr : r ∈ s.roles) :
    w = .deleteRole r.server r.id ∨
      ∃ r' ∈ s'.roles, r'.id = r.id ∧ r'.server = r.server ∧ r'.isDefault = r.isDefault := by
  cases hon : w.onRole r with
  | none => exact .inl (Write.eq_deleteRole_of_onRole hon)
  | some r' => exact .inr ⟨r', h.mem_roles.2 (.inl ⟨r, hr, hon⟩), Write.onRole_eq_some hon⟩

/-- What a write makes of a role is found where the role was. -/
theorem findRole_of_onRole (h : s.Follows w s') {server role : Id} {r r' : Role}
    (hr : s.findRole server role = some r) (hon : w.onRole r = some r') :
    s'.findRole server role = some r' := by
  obtain ⟨hrs, rfl, rfl⟩ := findRole_eq_some.1 hr
  obtain ⟨hid, hs, -⟩ := Write.onRole_eq_some hon
  exact findRole_eq_some.2 ⟨h.mem_roles.2 (.inl ⟨r, hrs, hon⟩), hs, hid⟩

theorem mem_members (h : s.Follows w s') {m' : Member} :
    m' ∈ s'.members ↔ ∃ m ∈ s.members, w.onMember m = some m' := by
  rw [Table.mem_iff, h.members, List.mem_filterMap]
  rfl

theorem mem_channels (h : s.Follows w s') {c' : Channel} :
    c' ∈ s'.channels ↔ ∃ c ∈ s.channels, w.onChannel c = c' := by
  rw [Table.mem_iff, h.channels, List.mem_map]
  rfl

/-- Whoever is a member afterwards was one before. -/
theorem findMember_of_findMember (h : s.Follows w s') {server user : Id} {m' : Member}
    (hm : s'.findMember server user = some m') :
    ∃ m, s.findMember server user = some m ∧ w.onMember m = some m' := by
  obtain ⟨hms, rfl, rfl⟩ := findMember_eq_some.1 hm
  obtain ⟨m, hm, hon⟩ := h.mem_members.1 hms
  obtain ⟨hu, hs, -⟩ := Write.onMember_eq_some hon
  exact ⟨m, findMember_eq_some.2 ⟨hm, hs.symm, hu.symm⟩, hon⟩

/-- Whoever a write does not remove is still a member. -/
theorem findMember_of_onMember (h : s.Follows w s') {server user : Id} {m m' : Member}
    (hm : s.findMember server user = some m) (hon : w.onMember m = some m') :
    s'.findMember server user = some m' := by
  obtain ⟨hms, rfl, rfl⟩ := findMember_eq_some.1 hm
  obtain ⟨hu, hs, -⟩ := Write.onMember_eq_some hon
  exact findMember_eq_some.2 ⟨h.mem_members.2 ⟨m, hms, hon⟩, hs, hu⟩

/-- Channels stay where they are. -/
theorem findChannel_of_findChannel (h : s.Follows w s') {id : Id} {c : Channel}
    (hc : s.findChannel id = some c) : s'.findChannel id = some (w.onChannel c) := by
  obtain ⟨hcs, hid⟩ := Table.get?_eq_some_iff.1 hc
  have hkey : key (w.onChannel c) = id := (w.id_onChannel c).trans hid
  exact Table.get?_eq_some_iff.2 ⟨h.mem_channels.2 ⟨c, hcs, rfl⟩, hkey⟩

theorem findMember_eq (h : s.Follows w s') (server user : Id) :
    s'.findMember server user = (s.findMember server user).bind w.onMember := by
  apply Option.ext
  intro m'
  rw [Option.bind_eq_some_iff]
  constructor
  · exact h.findMember_of_findMember
  · rintro ⟨m, hm, hon⟩
    exact h.findMember_of_onMember hm hon

/-- No write adds or removes a channel. -/
theorem findChannel_eq (h : s.Follows w s') (id : Id) :
    s'.findChannel id = (s.findChannel id).map w.onChannel := by
  cases hc : s.findChannel id with
  | some c => exact h.findChannel_of_findChannel hc
  | none =>
    refine Table.get?_eq_none_iff.2 fun c' hc' => ?_
    obtain ⟨c, hcs, rfl⟩ := h.mem_channels.1 hc'
    exact (w.id_onChannel c).trans_ne (Table.get?_eq_none_iff.1 hc c hcs)

end Store.Follows

/-! ## Default roles -/

namespace Store

variable {s s' : Store} {w : Write} {server : Id}

/-- Default roles are not deleted. -/
theorem Admits.exists_onRole (ha : s.Admits w) {r : Role} (hr : r ∈ s.roles)
    (hd : r.isDefault = true) : ∃ r', w.onRole r = some r' := by
  cases w with
  | deleteRole sv role =>
    obtain ⟨q, hq, hqd⟩ := ha
    obtain ⟨hqs, hqsv, hqid⟩ := findRole_eq_some.1 hq
    refine ⟨r, if_neg ?_⟩
    rintro ⟨-, hid⟩
    rw [eq_of_id_eq hqs hr (hqid.trans hid.symm), hd] at hqd
    cases hqd
  | createRole | updateRole | moveRole | assignRole | unassignRole | removeMember
  | replaceOverrides => exact ⟨_, rfl⟩

/-- What a write that adds no default role makes of the one default role of a server stays the one
default role. -/
theorem Follows.onlyDefault_iff (hf : s.Follows w s') (ha : s.Admits w)
    (hnew : ∀ r ∈ w.newRoles, r.isDefault = false) {e' : Role} :
    s'.OnlyDefault server e' ↔ ∃ e, s.OnlyDefault server e ∧ w.onRole e = some e' := by
  have back : ∀ r' ∈ s'.roles, r'.isDefault = true → ∃ r ∈ s.roles, w.onRole r = some r' := by
    intro r' hr' hd'
    obtain hold | hadded := hf.mem_roles.1 hr'
    · exact hold
    · rw [hnew r' hadded] at hd'
      cases hd'
  constructor
  · intro he'
    obtain ⟨hes', hesv', hed'⟩ := (he' e').2 rfl
    obtain ⟨e, hes, hon⟩ := back e' hes' hed'
    obtain ⟨heid, hesv, hed⟩ := Write.onRole_eq_some hon
    refine ⟨e, fun q => ⟨?_, ?_⟩, hon⟩
    · rintro ⟨hq, hqsv, hqd⟩
      obtain ⟨q', hq'⟩ := ha.exists_onRole hq hqd
      obtain ⟨hid, hsv, hd⟩ := Write.onRole_eq_some hq'
      have hqe : q' = e' :=
        (he' q').1 ⟨hf.mem_roles.2 (.inl ⟨q, hq, hq'⟩), hsv.trans hqsv, hd.trans hqd⟩
      exact eq_of_id_eq hq hes (by rw [← hid, hqe, heid])
    · rintro rfl
      exact ⟨hes, hesv ▸ hesv', hed ▸ hed'⟩
  · rintro ⟨e, he, hon⟩
    obtain ⟨hes, hesv, hed⟩ := (he e).2 rfl
    obtain ⟨heid, hesv', hed'⟩ := Write.onRole_eq_some hon
    intro q'
    constructor
    · rintro ⟨hq', hqsv', hqd'⟩
      obtain ⟨q, hq, honq⟩ := back q' hq' hqd'
      obtain ⟨-, hsv, hd⟩ := Write.onRole_eq_some honq
      have hqe : q = e := (he q).1 ⟨hq, hsv ▸ hqsv', hd ▸ hqd'⟩
      rw [hqe, hon] at honq
      cases honq
      rfl
    · rintro rfl
      exact ⟨hf.mem_roles.2 (.inl ⟨e, hes, hon⟩), hesv'.trans hesv, hed'.trans hed⟩

end Store

/-! ## Tables as lists -/

namespace Table

variable {α κ : Type} [Keyed α κ] [DecidableEq κ]

/-- A record whose key is taken takes the place of the record with that key. -/
theorem toList_insert_of_get? {t : Table α} {a b : α} (h : t.get? (key b) = some a) :
    (t.insert b).toList = t.toList.map fun c => if key c = key b then b else c := by
  simp [insert, h]

theorem toList_insert_of_new {t : Table α} {b : α} (h : t.get? (key b) = none) :
    (t.insert b).toList = t.toList ++ [b] := by
  simp [insert, h]

theorem toList_erase (t : Table α) (k : κ) : (t.erase k).toList = t.toList.filter (key · != k) := rfl

/-- A record in its place is put into its place. -/
theorem insert_of_mem {t : Table α} {a : α} (h : a ∈ t) : t.insert a = t := by
  have hsame : ∀ b ∈ t.toList, (if key b = key a then a else b) = id b := by
    intro b hb
    split
    · rename_i hkey
      exact (eq_of_key_eq hb h hkey).symm
    · rfl
  apply ext
  rw [toList_insert_of_get? (get?_eq_some_iff.2 ⟨h, rfl⟩), List.map_congr_left hsame, List.map_id]

/-- Of two records that take one place after another, the second stays. -/
theorem insert_insert {t : Table α} {a b c : α} (hc : c ∈ t) (ha : key a = key c)
    (hb : key b = key c) : (t.insert a).insert b = t.insert b := by
  have hget : ∀ {d : α}, key d = key c → t.get? (key d) = some c := fun hd =>
    get?_eq_some_iff.2 ⟨hc, hd.symm⟩
  have hget' : (t.insert a).get? (key b) = some a :=
    get?_eq_some_iff.2 ⟨mem_insert.2 (.inl rfl), ha.trans hb.symm⟩
  apply ext
  rw [toList_insert_of_get? hget', toList_insert_of_get? (hget ha), toList_insert_of_get? (hget hb),
    List.map_map]
  apply List.map_congr_left
  intro d _
  by_cases hd : key d = key c
  · simp [ha, hb, hd]
  · simp [ha, hb, hd]

theorem erase_of_get? {t : Table α} {k : κ} (h : t.get? k = none) : t.erase k = t := by
  apply ext
  rw [toList_erase, List.filter_eq_self]
  intro a ha
  simpa using get?_eq_none_iff.1 h a ha

omit [DecidableEq κ] in
theorem toList_map (t : Table α) (f : α → α) (hf : ∀ a, key (f a) = key a) :
    (t.map f hf).toList = t.toList.map f := rfl

end Table

private theorem filterMap_some_eq {α : Type} {as : List α} {f : α → α} :
    as.filterMap (fun a => some (f a)) = as.map f := by
  induction as with
  | nil => rfl
  | cons a as ih => simp

private theorem filterMap_eq_filter {α : Type} {as : List α} {f : α → Option α} {p : α → Bool}
    (h : ∀ a ∈ as, f a = if p a then some a else none) : as.filterMap f = as.filter p := by
  induction as with
  | nil => rfl
  | cons a as ih =>
    have ih' := ih fun b hb => h b (List.mem_cons_of_mem a hb)
    cases hp : p a with
    | true => simp [h a List.mem_cons_self, hp, ih']
    | false => simp [h a List.mem_cons_self, hp, ih']

/-! ## Writes that replace one record -/

namespace Store

variable {s s' : Store} {w : Write} {receipt : Receipt}

/-- Replacing a role by a changed form of itself changes no other role. -/
theorem toList_insertRole {server id : Id} {r : Role} {f : Role → Role}
    (h : s.findRole server id = some r) (hf : (f r).id = r.id) :
    (s.insertRole (f r)).roles.toList =
      s.roles.toList.map fun q => if q.server = server ∧ q.id = id then f q else q := by
  obtain ⟨hr, hs, hid⟩ := findRole_eq_some.1 h
  have hget : s.roles.get? (key (f r)) = some r :=
    Table.get?_eq_some_iff.2 ⟨hr, hf.symm⟩
  rw [insertRole, Table.toList_insert_of_get? hget]
  apply List.map_congr_left
  intro q hq
  by_cases hqid : q.id = r.id
  · have hqr : q = r := eq_of_id_eq hq hr hqid
    subst hqr
    simp [key, hf, hs, hid]
  · have hne : ¬ (q.server = server ∧ q.id = id) := fun h' => hqid (h'.2.trans hid.symm)
    simp [key, hf, hqid, hne]

/-- Replacing a member by a changed form of themself changes no other member. -/
theorem toList_insertMember {server user : Id} {m : Member} {f : Member → Member}
    (h : s.findMember server user = some m) (hs : (f m).server = m.server)
    (hu : (f m).user = m.user) :
    (s.insertMember (f m)).members.toList =
      s.members.toList.map fun n => if n.server = server ∧ n.user = user then f n else n := by
  obtain ⟨hm, hms, hmu⟩ := findMember_eq_some.1 h
  have hk : key (f m) = key m := Prod.ext hs hu
  have hget : s.members.get? (key (f m)) = some m := Table.get?_eq_some_iff.2 ⟨hm, hk.symm⟩
  rw [insertMember, Table.toList_insert_of_get? hget]
  apply List.map_congr_left
  intro n hn
  by_cases hkey : n.server = server ∧ n.user = user
  · have hnk : key n = key m := Prod.ext (hkey.1.trans hms.symm) (hkey.2.trans hmu.symm)
    have hnm : n = m := Table.eq_of_key_eq hn hm hnk
    subst hnm
    simp [hk, hkey]
  · have hnk : key n ≠ key (f m) := by
      intro h'
      rw [hk] at h'
      exact hkey ⟨(congrArg Prod.fst h').trans hms, (congrArg Prod.snd h').trans hmu⟩
    simp [hnk, hkey]

/-- Replacing a channel by a changed form of itself changes no other channel. -/
theorem toList_insertChannel {id : Id} {c : Channel} {f : Channel → Channel}
    (h : s.findChannel id = some c) (hf : (f c).id = c.id) :
    (s.insertChannel (f c)).channels.toList =
      s.channels.toList.map fun d => if d.id = id then f d else d := by
  obtain ⟨hc, hid⟩ := Table.get?_eq_some_iff.1 h
  have hget : s.channels.get? (key (f c)) = some c :=
    Table.get?_eq_some_iff.2 ⟨hc, hf.symm⟩
  rw [insertChannel, Table.toList_insert_of_get? hget]
  apply List.map_congr_left
  intro d hd
  by_cases hdid : d.id = id
  · have hdc : d = c := Table.eq_of_key_eq hd hc (hdid.trans hid.symm)
    subst hdc
    simp [key, hf, hdid]
  · have hne : d.id ≠ c.id := fun h' => hdid (h'.trans hid)
    simp [key, hf, hdid, hne]

/-! ## Records put back -/

theorem insertRole_self {server id : Id} {r : Role} (h : s.findRole server id = some r) :
    s.insertRole r = s := by
  rw [insertRole, Table.insert_of_mem (findRole_eq_some.1 h).1]

theorem insertMember_self {server user : Id} {m : Member}
    (h : s.findMember server user = some m) : s.insertMember m = s := by
  rw [insertMember, Table.insert_of_mem (findMember_eq_some.1 h).1]

theorem insertChannel_self {id : Id} {c : Channel} (h : s.findChannel id = some c) :
    s.insertChannel c = s := by
  rw [insertChannel, Table.insert_of_mem (Table.get?_eq_some_iff.1 h).1]

/-- A role with other values is found where the role was. -/
theorem findRole_insertRole {server id : Id} {r r' : Role} (h : s.findRole server id = some r)
    (hid : r'.id = r.id) (hserver : r'.server = r.server) :
    (s.insertRole r').findRole server id = some r' := by
  obtain ⟨-, hs, hi⟩ := findRole_eq_some.1 h
  exact findRole_eq_some.2 ⟨Table.mem_insert.2 (.inl rfl), hserver.trans hs, hid.trans hi⟩

theorem eq_of_commit_createRole {r : Role} (h : s.commit (.createRole r) = .ok (receipt, s')) :
    receipt = .role r ∧ s' = s.insertRole r := by
  simp only [commit, createRole] at h
  split at h
  · cases h
  · split at h
    · cases h
    · cases h
      exact ⟨rfl, rfl⟩

theorem commit_updateRole {server id : Id} {r : Role} {patch : RolePatch}
    (h : s.findRole server id = some r) :
    s.commit (.updateRole server id patch) =
      .ok (.role (r.patch patch), s.insertRole (r.patch patch)) := by
  simp only [commit, updateRole, h]

theorem commit_unassignRole {server user role : Id} {m : Member}
    (hm : s.findMember server user = some m) :
    s.commit (.unassignRole server user role) =
      .ok (.member (m.unassign role), s.insertMember (m.unassign role)) := by
  simp only [commit, unassignRole, hm]

theorem findRole_afterWrite_updateRole {server id : Id} {r : Role} {patch : RolePatch}
    (h : s.findRole server id = some r) :
    (s.afterWrite (.updateRole server id patch)).findRole server id = some (r.patch patch) := by
  simp only [afterWrite, commit_updateRole h]
  exact findRole_insertRole h rfl rfl

theorem findMember_insertMember {server user : Id} {m m' : Member}
    (h : s.findMember server user = some m) (huser : m'.user = m.user)
    (hserver : m'.server = m.server) : (s.insertMember m').findMember server user = some m' := by
  obtain ⟨-, hs, hu⟩ := findMember_eq_some.1 h
  exact findMember_eq_some.2 ⟨Table.mem_insert.2 (.inl rfl), hserver.trans hs, huser.trans hu⟩

theorem findChannel_insertChannel {id : Id} {c c' : Channel} (h : s.findChannel id = some c)
    (hid : c'.id = c.id) : (s.insertChannel c').findChannel id = some c' := by
  obtain ⟨-, hi⟩ := Table.get?_eq_some_iff.1 h
  exact Table.get?_eq_some_iff.2 ⟨Table.mem_insert.2 (.inl rfl), hid.trans hi⟩

/-! ## The writes one by one -/

private theorem createRole_ok {r : Role} (h : s.createRole r = .ok (receipt, s')) :
    s.Admits (.createRole r) ∧ s.Follows (.createRole r) s' := by
  unfold createRole at h
  split at h
  · cases h
  · rename_i hnew
    split at h
    · cases h
    · rename_i hdef
      cases h
      have hget : s.roles.get? (key r) = none := Option.not_isSome_iff_eq_none.1 hnew
      refine ⟨⟨fun q hq => Table.get?_eq_none_iff.1 hget q hq, ?_⟩, ?_⟩
      · intro hd q hq hqs
        simp only [Bool.and_eq_true, List.any_eq_true, beq_iff_eq, not_and, not_exists] at hdef
        exact Bool.eq_false_iff.2 fun hqd => hdef hd q hq hqs hqd
      · constructor
        · simp [insertRole, Table.toList_insert_of_new hget, Write.onRole, Write.newRoles]
        · simp [insertRole, Write.onMember]
        · simp [insertRole, Write.onChannel]

private theorem updateRole_ok {server id : Id} {patch : RolePatch}
    (h : s.updateRole server id patch = .ok (receipt, s')) :
    s.Admits (.updateRole server id patch) ∧ s.Follows (.updateRole server id patch) s' := by
  unfold updateRole at h
  split at h
  · cases h
  · rename_i r hr
    cases h
    refine ⟨⟨r, hr⟩, ?_, ?_, ?_⟩
    · rw [toList_insertRole (f := fun q => q.patch patch) hr rfl]
      simp [Write.onRole, Write.newRoles, filterMap_some_eq]
    · simp [insertRole, Write.onMember]
    · simp [insertRole, Write.onChannel]

private theorem moveRole_ok {server id : Id} {expected position : Int32}
    (h : s.moveRole server id expected position = .ok (receipt, s')) :
    s.Admits (.moveRole server id expected position) ∧
      s.Follows (.moveRole server id expected position) s' := by
  unfold moveRole at h
  split at h
  · cases h
  · rename_i r hr
    split at h
    · cases h
    · rename_i hpos
      cases h
      refine ⟨⟨r, hr, not_not.1 hpos⟩, ?_, ?_, ?_⟩
      · rw [toList_insertRole (f := fun q => { q with position }) hr rfl]
        simp [Write.onRole, Write.newRoles, filterMap_some_eq]
      · simp [insertRole, Write.onMember]
      · simp [insertRole, Write.onChannel]

private theorem deleteRole_ok {server id : Id} (h : s.deleteRole server id = .ok (receipt, s')) :
    s.Admits (.deleteRole server id) ∧ s.Follows (.deleteRole server id) s' := by
  unfold deleteRole at h
  split at h
  · cases h
  · rename_i r hr
    split at h
    · cases h
    · rename_i hdef
      cases h
      obtain ⟨hrs, hsv, hid⟩ := findRole_eq_some.1 hr
      refine ⟨⟨r, hr, by simpa using hdef⟩, ?_, ?_, ?_⟩
      · have herase : ∀ q ∈ s.roles.toList,
            (Write.deleteRole server id).onRole q = if (key q != id) then some q else none := by
          intro q hq
          by_cases hqid : q.id = id
          · have hqr : q = r := eq_of_id_eq hq hrs (hqid.trans hid.symm)
            subst hqr
            simp [Write.onRole, key, hsv, hid]
          · simp [Write.onRole, key, hqid]
        simp [pruneOverrides, unassignAll, Table.toList_erase, Write.newRoles,
          filterMap_eq_filter herase]
      · simp [pruneOverrides, unassignAll, Table.toList_map, Write.onMember, filterMap_some_eq]
      · simp [pruneOverrides, unassignAll, Table.toList_map, Write.onChannel]

private theorem assignRole_ok {server user id : Id}
    (h : s.assignRole server user id = .ok (receipt, s')) :
    s.Admits (.assignRole server user id) ∧ s.Follows (.assignRole server user id) s' := by
  unfold assignRole at h
  split at h
  · cases h
  · rename_i r hr
    split at h
    · cases h
    · rename_i hdef
      split at h
      · cases h
      · rename_i m hm
        cases h
        refine ⟨⟨⟨r, hr, by simpa using hdef⟩, m, hm⟩, ?_, ?_, ?_⟩
        · simp [insertMember, Write.onRole, Write.newRoles]
        · rw [toList_insertMember (f := fun n => n.assign id) hm (m.server_assign id)
            (m.user_assign id)]
          simp [Write.onMember, filterMap_some_eq]
        · simp [insertMember, Write.onChannel]

private theorem unassignRole_ok {server user id : Id}
    (h : s.unassignRole server user id = .ok (receipt, s')) :
    s.Admits (.unassignRole server user id) ∧ s.Follows (.unassignRole server user id) s' := by
  unfold unassignRole at h
  split at h
  · cases h
  · rename_i m hm
    cases h
    refine ⟨⟨m, hm⟩, ?_, ?_, ?_⟩
    · simp [insertMember, Write.onRole, Write.newRoles]
    · rw [toList_insertMember (f := fun n => n.unassign id) hm rfl rfl]
      simp [Write.onMember, filterMap_some_eq]
    · simp [insertMember, Write.onChannel]

private theorem removeMember_ok {server user : Id}
    (h : s.removeMember server user = .ok (receipt, s')) :
    s.Admits (.removeMember server user) ∧ s.Follows (.removeMember server user) s' := by
  unfold removeMember at h
  split at h
  · cases h
  · rename_i m hm
    cases h
    refine ⟨⟨m, hm⟩, ?_, ?_, ?_⟩
    · simp [pruneOverrides, Write.onRole, Write.newRoles]
    · change (s.members.erase (server, user)).toList = _
      rw [Table.toList_erase]
      refine (filterMap_eq_filter fun n _ => ?_).symm
      by_cases hk : n.server = server ∧ n.user = user
      · simp [Write.onMember, key, hk]
      · simp [Write.onMember, key, hk]
    · simp [pruneOverrides, Table.toList_map, Write.onChannel]

private theorem replaceOverrides_ok {id : Id} {overrides : List Override}
    (h : s.replaceOverrides id overrides = .ok (receipt, s')) :
    s.Admits (.replaceOverrides id overrides) ∧ s.Follows (.replaceOverrides id overrides) s' := by
  unfold replaceOverrides at h
  split at h
  · cases h
  · rename_i c hc
    cases h
    refine ⟨⟨c, hc⟩, ?_, ?_, ?_⟩
    · simp [insertChannel, Write.onRole, Write.newRoles]
    · simp [insertChannel, Write.onMember]
    · rw [toList_insertChannel (f := fun d => { d with overrides }) hc rfl]
      simp [Write.onChannel]

/-- A write that succeeds was admissible and changes the records one by one. -/
theorem commit_ok (h : s.commit w = .ok (receipt, s')) : s.Admits w ∧ s.Follows w s' := by
  cases w with
  | createRole r => exact createRole_ok h
  | updateRole server id patch => exact updateRole_ok h
  | moveRole server id expected position => exact moveRole_ok h
  | deleteRole server id => exact deleteRole_ok h
  | assignRole server user id => exact assignRole_ok h
  | unassignRole server user id => exact unassignRole_ok h
  | removeMember server user => exact removeMember_ok h
  | replaceOverrides id overrides => exact replaceOverrides_ok h

/-- A write is made just where it is admissible. -/
theorem exists_commit_iff_admits : (∃ done, s.commit w = .ok done) ↔ s.Admits w := by
  constructor
  · rintro ⟨⟨receipt, s'⟩, hc⟩
    exact (commit_ok hc).1
  · intro ha
    cases w with
    | createRole r =>
      obtain ⟨hid, hdefault⟩ := ha
      have hget : s.roles.get? r.id = none := Table.get?_eq_none_iff.2 hid
      have hany : (r.isDefault && s.roles.toList.any fun q => q.server == r.server && q.isDefault) =
          false := by
        rw [Bool.eq_false_iff]
        intro h
        simp only [Bool.and_eq_true, List.any_eq_true, beq_iff_eq] at h
        obtain ⟨hd, q, hq, hqs, hqd⟩ := h
        rw [hdefault hd q hq hqs] at hqd
        cases hqd
      simp [commit, createRole, hget, hany]
    | updateRole server role patch =>
      obtain ⟨r, hr⟩ := ha
      exact ⟨_, commit_updateRole hr⟩
    | moveRole server role expected position =>
      obtain ⟨r, hr, hexpected⟩ := ha
      simp [commit, moveRole, hr, hexpected]
    | deleteRole server role =>
      obtain ⟨r, hr, hd⟩ := ha
      simp [commit, deleteRole, hr, hd]
    | assignRole server user role =>
      obtain ⟨⟨r, hr, hd⟩, m, hm⟩ := ha
      simp [commit, assignRole, hr, hd, hm]
    | unassignRole server user role =>
      obtain ⟨m, hm⟩ := ha
      exact ⟨_, commit_unassignRole hm⟩
    | removeMember server user =>
      obtain ⟨m, hm⟩ := ha
      simp [commit, removeMember, hm]
    | replaceOverrides channel overrides =>
      obtain ⟨c, hc⟩ := ha
      simp [commit, replaceOverrides, hc]

end Store

end Guildhall
