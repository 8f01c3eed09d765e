-- SUMMARY: Members, the standing of a user in a server.
import Guildhall.Id

/-!
# Members

A member is a user's standing in one server: the roles assigned to them there, in the order
of assignment, and whether they own the server. The default role is never assigned.
-/

namespace Guildhall

structure Member where
  user : Id
  server : Id
  roles : List Id
  /-- The owner passes every permission check. -/
  isOwner : Bool
  deriving DecidableEq

/-- Whether the role is assigned to the member. -/
def Member.holds (m : Member) (role : Id) : Bool := m.roles.contains role

/-- The member with the role assigned, behind the roles assigned before. -/
def Member.assign (m : Member) (role : Id) : Member :=
  if m.holds role then m else { m with roles := m.roles ++ [role] }

/-- The member without the role. -/
def Member.unassign (m : Member) (role : Id) : Member :=
  { m with roles := m.roles.filter (· != role) }

theorem Member.holds_iff {m : Member} {role : Id} : m.holds role = true ↔ role ∈ m.roles := by
  simp [Member.holds]

theorem Member.holds_assign {m : Member} {role id : Id} :
    (m.assign role).holds id = true ↔ m.holds id = true ∨ id = role := by
  unfold Member.assign
  split
  · rename_i h
    constructor
    · exact .inl
    · rintro (hid | rfl)
      · exact hid
      · exact h
  · simp [Member.holds_iff]

theorem Member.holds_unassign {m : Member} {role id : Id} :
    (m.unassign role).holds id = true ↔ m.holds id = true ∧ id ≠ role := by
  simp [Member.holds_iff, Member.unassign]

theorem Member.holds_assign_of_ne {m : Member} {role id : Id} (h : id ≠ role) :
    (m.assign role).holds id = m.holds id := by
  rw [Bool.eq_iff_iff, Member.holds_assign, or_iff_left h]

theorem Member.holds_unassign_of_ne {m : Member} {role id : Id} (h : id ≠ role) :
    (m.unassign role).holds id = m.holds id := by
  rw [Bool.eq_iff_iff, Member.holds_unassign, and_iff_left h]

@[simp] theorem Member.user_assign (m : Member) (role : Id) : (m.assign role).user = m.user := by
  unfold Member.assign
  split <;> rfl

@[simp] theorem Member.server_assign (m : Member) (role : Id) :
    (m.assign role).server = m.server := by
  unfold Member.assign
  split <;> rfl

@[simp] theorem Member.isOwner_assign (m : Member) (role : Id) :
    (m.assign role).isOwner = m.isOwner := by
  unfold Member.assign
  split <;> rfl

end Guildhall
