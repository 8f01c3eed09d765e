-- SUMMARY: Roles of a server, their ranking, and the requests that create, edit and move them.
import Guildhall.Id
import Guildhall.PermissionSet

/-!
# Roles

A role bundles permissions within one server. Its position says how much power it carries;
of two roles at one position the greater id ranks higher. Every server has one default role,
which all of its members hold without being assigned it.
-/

namespace Guildhall

structure Role where
  id : Id
  server : Id
  name : String
  /-- The colour as a number, if the role has one. -/
  color : Option Int32
  position : Int32
  permissions : PermissionSet
  /-- Whether this is the role that every member of the server holds. -/
  isDefault : Bool
  deriving DecidableEq

/-- Whether a role ranks no higher than another one: by position, then by id. -/
def Role.rankLe (r s : Role) : Bool :=
  r.position < s.position || (r.position == s.position && r.id ≤ s.id)

theorem Role.rankLe_iff {r q : Role} :
    r.rankLe q = true ↔ r.position < q.position ∨ r.position = q.position ∧ r.id ≤ q.id := by
  simp [Role.rankLe]

theorem Role.rankLe_total (r q : Role) : (r.rankLe q || q.rankLe r) = true := by
  rw [Bool.or_eq_true, Role.rankLe_iff, Role.rankLe_iff]
  simp only [Int32.lt_iff_toInt_lt, ← Int32.toInt_inj, Id.le_iff]
  omega

theorem Role.rankLe_trans (r q p : Role) (h₁ : r.rankLe q = true) (h₂ : q.rankLe p = true) :
    r.rankLe p = true := by
  rw [Role.rankLe_iff] at *
  simp only [Int32.lt_iff_toInt_lt, ← Int32.toInt_inj, Id.le_iff] at *
  omega

/-- Of two roles that rank no higher than each other the ids are the same. -/
theorem Role.id_eq_of_rankLe {r q : Role} (h₁ : r.rankLe q = true) (h₂ : q.rankLe r = true) :
    r.id = q.id := by
  rw [Role.rankLe_iff] at *
  simp only [Int32.lt_iff_toInt_lt, ← Int32.toInt_inj, Id.le_iff] at *
  exact Id.toNat_injective (by omega)

/-! ## Requests -/

/-- A request for a new role. Without a position it goes above all roles of the server. -/
structure RoleDraft where
  name : String
  color : Option Int32
  permissions : List Permission
  position : Option Int32
  deriving DecidableEq

/-- A request to change a role; what is absent stays as it is. -/
structure RoleEdit where
  name : Option String
  color : Option Int32
  permissions : Option (List Permission)
  deriving DecidableEq

/-- A request to move a role that is still at the position its sender saw. -/
structure RoleMove where
  expected : Int32
  position : Int32
  deriving DecidableEq

/-- The changes that a store makes to a role; what is absent stays as it is. -/
structure RolePatch where
  name : Option String
  color : Option Int32
  permissions : Option PermissionSet
  deriving DecidableEq

/-- The role with the changes made. -/
def Role.patch (r : Role) (p : RolePatch) : Role :=
  { r with
    name := p.name.getD r.name
    color := p.color.or r.color
    permissions := p.permissions.getD r.permissions }

end Guildhall
