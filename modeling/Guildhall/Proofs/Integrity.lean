-- SUMMARY: What ties the records of a store together, and that no history of writes breaks it.
import Guildhall.Proofs.Escalation
import Mathlib.Tactic.MkIffOfInductiveProp

/-!
# Integrity

The records of a store refer to each other: members hold roles by id, and a server has one default
role and one owner. `Store.Consistent` says that these references are sound. A single write
keeps all of it (`Store.Consistent.of_follows`), whoever makes it and whatever its arguments are, so
every history of writes does, and every run of requests.

The parts support each other: that a deleted role is held by nobody takes that members hold only
roles of their own server, as a deletion takes the role away from the members of one server.
-/

namespace Guildhall

namespace Store

/-- Whether no server has two default roles. -/
def OneDefault (s : Store) : Prop :=
  ∀ r ∈ s.roles, ∀ q ∈ s.roles, r.isDefault = true → q.isDefault = true → r.server = q.server →
    r = q

/-- Whether no server has two owners. -/
def OneOwner (s : Store) : Prop :=
  ∀ m ∈ s.members, ∀ n ∈ s.members, m.isOwner = true → n.isOwner = true → m.server = n.server →
    m = n

/-- Whether a server does not have two owners. -/
def OneOwnerOf (s : Store) (server : Id) : Prop :=
  ∀ m ∈ s.members, ∀ n ∈ s.members, m.server = server → n.server = server →
    m.isOwner = true → n.isOwner = true → m = n

/-- Whether all roles that members hold are there, in their server, and assigned ones. -/
def HeldExist (s : Store) : Prop :=
  ∀ m ∈ s.members, ∀ id ∈ m.roles,
    ∃ r ∈ s.roles, r.id = id ∧ r.server = m.server ∧ r.isDefault = false

/-- Whether every record is found under its own key. The type of the tables carries this: it holds of
every store (`foundByKey`), and no write has to preserve it. -/
def FoundByKey (s : Store) : Prop :=
  (∀ r ∈ s.roles, s.roles.get? r.id = some r) ∧
    (∀ m ∈ s.members, s.findMember m.server m.user = some m) ∧
    ∀ c ∈ s.channels, s.findChannel c.id = some c

/-- What holds between the records of a store at all times. -/
@[mk_iff]
structure Consistent (s : Store) : Prop where
  oneDefault : s.OneDefault
  held : s.HeldExist
  distinct : ∀ m ∈ s.members, m.roles.Nodup
  oneOwner : s.OneOwner
  keyed : s.FoundByKey

instance (s : Store) : Decidable s.OneDefault :=
  inferInstanceAs (Decidable (∀ r ∈ s.roles, ∀ q ∈ s.roles, _))

instance (s : Store) : Decidable s.OneOwner :=
  inferInstanceAs (Decidable (∀ m ∈ s.members, ∀ n ∈ s.members, _))

instance (s : Store) (server : Id) : Decidable (s.OneOwnerOf server) :=
  inferInstanceAs (Decidable (∀ m ∈ s.members, ∀ n ∈ s.members, _))

instance (s : Store) : Decidable s.HeldExist :=
  inferInstanceAs (Decidable (∀ m ∈ s.members, ∀ id ∈ m.roles, ∃ r ∈ s.roles, _))

instance (s : Store) : Decidable s.FoundByKey :=
  inferInstanceAs (Decidable ((∀ r ∈ s.roles, _) ∧ (∀ m ∈ s.members, _) ∧ ∀ c ∈ s.channels, _))

instance (s : Store) : Decidable s.Consistent := decidable_of_iff _ (consistent_iff s).symm

theorem OneOwner.oneOwnerOf {s : Store} (h : s.OneOwner) (server : Id) : s.OneOwnerOf server :=
  fun m hm n hn hms hns ho hno => h m hm n hn ho hno (hms.trans hns.symm)

theorem mem_of_findOwner {s : Store} {server : Id} {m : Member} (h : s.findOwner server = some m) :
    m ∈ s.members ∧ m.server = server ∧ m.isOwner = true := by
  have howner := List.find?_some h
  simp only [Bool.and_eq_true, beq_iff_eq] at howner
  exact ⟨List.mem_of_find?_eq_some h, howner⟩

/-- With one owner, the first owner that is found is the owner. -/
theorem OneOwnerOf.findOwner_eq_some {s : Store} {server : Id} {m : Member}
    (h : s.OneOwnerOf server) :
    s.findOwner server = some m ↔ m ∈ s.members ∧ m.server = server ∧ m.isOwner = true := by
  refine ⟨mem_of_findOwner, ?_⟩
  rintro ⟨hm, hs, ho⟩
  cases hf : s.findOwner server with
  | none =>
    have hnone := List.find?_eq_none.1 hf m hm
    simp [hs, ho] at hnone
  | some n =>
    obtain ⟨hn, hns, hno⟩ := mem_of_findOwner hf
    rw [h n hn m hm hns hs hno ho]

/-- Tables cannot hold a record under another key. -/
theorem foundByKey (s : Store) : s.FoundByKey :=
  ⟨fun _ hr => Table.get?_eq_some_iff.2 ⟨hr, rfl⟩, fun _ hm => findMember_eq_some.2 ⟨hm, rfl, rfl⟩,
    fun _ hc => Table.get?_eq_some_iff.2 ⟨hc, rfl⟩⟩

end Store

/-! ## Roles of a member -/

namespace Member

variable {m : Member} {role : Id}

theorem nodup_assign (h : m.roles.Nodup) : (m.assign role).roles.Nodup := by
  unfold assign
  split
  · exact h
  · rename_i hnot
    rw [holds_iff] at hnot
    exact List.nodup_append'.2 ⟨h, List.nodup_singleton role, by simpa using hnot⟩

theorem nodup_unassign (h : m.roles.Nodup) : (m.unassign role).roles.Nodup := h.filter _

end Member

/-- No write has a member hold a role twice. -/
theorem Write.nodup_onMember {w : Write} {m m' : Member} (hon : w.onMember m = some m')
    (h : m.roles.Nodup) : m'.roles.Nodup := by
  obtain ⟨role, -, rfl⟩ | ⟨role, -, rfl⟩ | ⟨rfl, -⟩ := Write.onMember_cases hon
  · exact Member.nodup_assign h
  · exact Member.nodup_unassign h
  · exact h

/-! ## Single writes -/

namespace Store

variable {s s' : Store} {w : Write}

theorem OneDefault.of_follows (h : s.OneDefault) (ha : s.Admits w) (hf : s.Follows w s') :
    s'.OneDefault := by
  -- a new default role is refused if the server has one already
  have hnew : ∀ r ∈ s.roles, ∀ q ∈ w.newRoles, r.isDefault = true → q.isDefault = true →
      r.server ≠ q.server := by
    intro r hr q hq hrd hqd hserver
    rw [Write.eq_createRole_of_mem_newRoles hq] at ha
    rw [ha.2 hqd r hr hserver] at hrd
    cases hrd
  intro r' hr' q' hq' hrd' hqd' hserver
  obtain ⟨r, hr, hon⟩ | hrnew := hf.mem_roles.1 hr'
  · obtain ⟨-, hrs, hrd⟩ := Write.onRole_eq_some hon
    obtain ⟨q, hq, honq⟩ | hqnew := hf.mem_roles.1 hq'
    · obtain ⟨-, hqs, hqd⟩ := Write.onRole_eq_some honq
      have hrq : r = q :=
        h r hr q hq (hrd ▸ hrd') (hqd ▸ hqd') (hrs.symm.trans (hserver.trans hqs))
      rw [hrq, honq] at hon
      cases hon
      rfl
    · exact absurd (hrs.symm.trans hserver) (hnew r hr q' hqnew (hrd ▸ hrd') hqd')
  · obtain ⟨q, hq, honq⟩ | hqnew := hf.mem_roles.1 hq'
    · obtain ⟨-, hqs, hqd⟩ := Write.onRole_eq_some honq
      exact absurd (hqs.symm.trans hserver.symm) (hnew q hq r' hrnew (hqd ▸ hqd') hrd')
    · have hrq := (Write.eq_createRole_of_mem_newRoles hrnew).symm.trans
        (Write.eq_createRole_of_mem_newRoles hqnew)
      injection hrq

theorem OneOwner.of_follows (h : s.OneOwner) (hf : s.Follows w s') : s'.OneOwner := by
  intro m' hm' n' hn' hmo' hno' hserver
  obtain ⟨m, hm, hon⟩ := hf.mem_members.1 hm'
  obtain ⟨n, hn, honn⟩ := hf.mem_members.1 hn'
  obtain ⟨-, hms, hmo⟩ := Write.onMember_eq_some hon
  obtain ⟨-, hns, hno⟩ := Write.onMember_eq_some honn
  have hmn : m = n := h m hm n hn (hmo ▸ hmo') (hno ▸ hno') (hms.symm.trans (hserver.trans hns))
  rw [hmn, honn] at hon
  cases hon
  rfl

/-- A role that is held after a write is still there after it. -/
theorem HeldExist.of_follows (h : s.HeldExist) (ha : s.Admits w) (hf : s.Follows w s') :
    s'.HeldExist := by
  intro m' hm' id hid
  obtain ⟨m, hm, hon⟩ := hf.mem_members.1 hm'
  obtain ⟨-, hserver, -⟩ := Write.onMember_eq_some hon
  have hbefore : ∃ r ∈ s.roles, r.id = id ∧ r.server = m.server ∧ r.isDefault = false := by
    obtain hheld | rfl := Write.holds_of_onMember hon (Member.holds_iff.2 hid)
    · exact h m hm id (Member.holds_iff.1 hheld)
    · obtain ⟨⟨r, hr, hd⟩, -⟩ := ha
      obtain ⟨hrs, hrsv, hrid⟩ := findRole_eq_some.1 hr
      exact ⟨r, hrs, hrid, hrsv, hd⟩
  obtain ⟨r, hr, rfl, hrs, hd⟩ := hbefore
  obtain hdelete | ⟨r', hr', hid', hs', hd'⟩ := hf.deleted_or_kept hr
  · -- the deletion takes the role away from the members of its server
    simp only [hdelete, Write.onMember, if_pos hrs.symm, Option.some.injEq] at hon
    subst hon
    exact absurd rfl (Member.holds_unassign.1 (Member.holds_iff.2 hid)).2
  · exact ⟨r', hr', hid', hs'.trans (hrs.trans hserver.symm), hd'.trans hd⟩

/-- A write that the store makes keeps it consistent. -/
theorem Consistent.of_follows (h : s.Consistent) (ha : s.Admits w) (hf : s.Follows w s') :
    s'.Consistent where
  oneDefault := h.oneDefault.of_follows ha hf
  held := h.held.of_follows ha hf
  distinct m' hm' := by
    obtain ⟨m, hm, hon⟩ := hf.mem_members.1 hm'
    exact Write.nodup_onMember hon (h.distinct m hm)
  oneOwner := h.oneOwner.of_follows hf
  keyed := s'.foundByKey

/-! ## Histories -/

theorem Consistent.afterWrite (h : s.Consistent) (w : Write) : (s.afterWrite w).Consistent := by
  unfold Store.afterWrite
  split
  · rename_i hcommit
    obtain ⟨ha, hf⟩ := commit_ok hcommit
    exact h.of_follows ha hf
  · exact h

/-- Every history of writes keeps the store consistent, whether they are made or refused. -/
theorem consistent_afterWrites (h : s.Consistent) (ws : List Write) :
    (s.afterWrites ws).Consistent := by
  induction ws generalizing s with
  | nil => exact h
  | cons w ws ih => exact ih (h.afterWrite w)

/-- The second default role is refused; the guards and the owner go. -/
theorem consistent_afterWrites_example :
    Example.store.Consistent ∧
      (Example.store.afterWrites [.createRole ⟨60, 1, "@all", none, 0, ∅, true⟩, .assignRole 1 8 30,
        .assignRole 1 8 20, .deleteRole 1 30, .removeMember 1 9]).Consistent := by
  have h : Example.store.Consistent := by decide +kernel
  exact ⟨h, consistent_afterWrites h _⟩

end Store

/-- No run of requests breaks what ties the records together. -/
theorem Service.consistent_after {v : Service} {s : Store} {requests : List (Moment × Http.Request)}
    (h : s.Consistent) : (v.after s requests).Consistent :=
  after_keeps (sentBy_anyone v requests) (fun hs _ _ ha hf => hs.of_follows ha hf) h

end Guildhall
