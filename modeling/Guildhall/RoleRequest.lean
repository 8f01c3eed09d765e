-- SUMMARY: The rules that role requests and role names must keep, and the trimming of names.
import Guildhall.Refusal
import Guildhall.Role

/-!
# Role requests

A request is checked in two steps. Its fields are checked one by one, and all that is wrong
is reported at once. Then the name, if there is one, must hold more than white space and no
control character. What is stored is the name without white space at its ends.
-/

namespace Guildhall

/-! ## Characters -/

/-- The Unicode property `White_Space`. -/
def isWhiteSpace (c : Char) : Bool :=
  let n := c.toNat
  (0x9 ≤ n && n ≤ 0xD) || n == 0x20 || n == 0x85 || n == 0xA0 || n == 0x1680
    || (0x2000 ≤ n && n ≤ 0x200A) || n == 0x2028 || n == 0x2029 || n == 0x202F
    || n == 0x205F || n == 0x3000

/-- The Unicode category `Cc`, the control characters. -/
def isControl (c : Char) : Bool :=
  c.toNat < 0x20 || (0x7F ≤ c.toNat && c.toNat < 0xA0)

/-- The characters without white space at both ends. -/
def trimChars (cs : List Char) : List Char :=
  ((cs.dropWhile isWhiteSpace).reverse.dropWhile isWhiteSpace).reverse

/-- The text without white space at both ends. -/
def trim (s : String) : String := String.ofList (trimChars s.toList)

/-! ## Fields -/

/-- Names have from one to a hundred characters. -/
def roleNameFits (name : String) : Bool := 1 ≤ name.length && name.length ≤ 100

/-- Requested positions start at one. -/
def positionFits (position : Int32) : Bool := 1 ≤ position

/-- Reports all problems at once, in alphabetical order. -/
def refuseProblems (problems : List String) : Except Refusal Unit :=
  if problems.isEmpty then .ok () else .error (.invalid ("; ".intercalate problems))

theorem refuseProblems_eq_ok {problems : List String} :
    refuseProblems problems = .ok () ↔ problems = [] := by
  cases problems <;> simp [refuseProblems]

def positionProblem : String := "Position must be at least 1"

def RoleDraft.checkFields (d : RoleDraft) : Except Refusal Unit :=
  refuseProblems
    ((if d.position.all positionFits then [] else [positionProblem])
      ++ (if roleNameFits d.name then [] else ["Role name must be 1-100 characters"]))

def RoleEdit.checkFields (e : RoleEdit) : Except Refusal Unit :=
  refuseProblems (if e.name.all roleNameFits then [] else ["Invalid value for 'name'"])

def RoleMove.checkFields (m : RoleMove) : Except Refusal Unit :=
  refuseProblems (if positionFits m.position then [] else [positionProblem])

theorem RoleDraft.checkFields_eq_ok {d : RoleDraft} :
    d.checkFields = .ok () ↔
      (∀ p, d.position = some p → positionFits p = true) ∧ roleNameFits d.name = true := by
  simp [RoleDraft.checkFields, refuseProblems_eq_ok, Option.all_eq_true]

theorem RoleEdit.checkFields_eq_ok {e : RoleEdit} :
    e.checkFields = .ok () ↔ ∀ name, e.name = some name → roleNameFits name = true := by
  simp [RoleEdit.checkFields, refuseProblems_eq_ok, Option.all_eq_true]

theorem RoleMove.checkFields_eq_ok {m : RoleMove} :
    m.checkFields = .ok () ↔ positionFits m.position = true := by
  simp [RoleMove.checkFields, refuseProblems_eq_ok]

/-! ## Names -/

/-- A name must hold more than white space, and no control character anywhere. -/
def checkRoleName (name : String) : Except Refusal Unit :=
  if (trimChars name.toList).isEmpty then
    .error (.invalid "Role name cannot be empty or whitespace only")
  else if name.toList.any isControl then
    .error (.invalid "Role name cannot contain control characters")
  else .ok ()

end Guildhall
