-- SUMMARY: Checking the overrides submitted for a channel and bringing them into their canonical order.
import Guildhall.Channel
import Guildhall.Refusal
import Guildhall.Sorting

/-!
# Override lists

A client submits all overrides of a channel at once. `OverrideRules.normalize` refuses a list
that is ambiguous or out of bounds, and otherwise returns its canonical form: no override
without effect, the one about the default role first, the other roles by id, then the
members by id.
-/

namespace Guildhall

/-- What a submission is checked against. -/
structure OverrideRules where
  /-- The owner of the server, whom no override may be about. -/
  owner : Option Id
  /-- The default role of the server, whose override comes first. -/
  everyone : Option Id
  /-- The roles of the server. -/
  roles : List Id
  /-- How many overrides a channel can have. -/
  limit : Nat

namespace OverrideRules

/-- Whether somebody who is allowed to have an override is the target. -/
def checkTarget (rules : OverrideRules) (t : Target) : Except Refusal Unit :=
  match t.kind with
  | .member =>
    if some t.id = rules.owner then .error (.invalid "Overrides cannot target the server owner")
    else .ok ()
  | .role =>
    if rules.roles.contains t.id then .ok ()
    else .error (.invalid ("Role " ++ t.id.text ++ " does not belong to this server"))

/-- The override that a draft stands for; a permission both allowed and denied is refused. -/
def checkDraft (rules : OverrideRules) (d : OverrideDraft) : Except Refusal Override := do
  rules.checkTarget d.target
  let allow := PermissionSet.ofList d.allow
  let deny := PermissionSet.ofList d.deny
  if (allow ∪ deny).isAdmin then
    throw (.invalid "ADMINISTRATOR cannot be set on a channel override")
  let both := allow ∩ deny
  if !both.isEmpty then
    throw (.invalid ("Permissions both allowed and denied for " ++ d.target.describe ++ ": "
      ++ ", ".intercalate both.names))
  return ⟨d.target, allow, deny⟩

/-- Checks the drafts in order; `seen` are the targets of those before. -/
def checkDrafts (rules : OverrideRules) (seen : List Target) :
    List OverrideDraft → Except Refusal (List Override)
  | [] => .ok []
  | d :: ds => do
    if seen.contains d.target then
      throw (.invalid ("Duplicate override for " ++ d.target.describe))
    let o ← rules.checkDraft d
    let os ← rules.checkDrafts (d.target :: seen) ds
    return o :: os

/-- Whether an override changes anything. -/
def hasEffect (o : Override) : Bool := !(o.allow.isEmpty && o.deny.isEmpty)

/-- The group of a target in the canonical order: the default role, other roles, members. -/
def group (rules : OverrideRules) (t : Target) : Nat :=
  match t.kind with
  | .role => if some t.id = rules.everyone then 0 else 1
  | .member => 2

/-- The canonical order: by group, then by id. -/
def targetLe (rules : OverrideRules) (s t : Target) : Bool :=
  rules.group s < rules.group t || (rules.group s == rules.group t && s.id ≤ t.id)

/-- Checks a submission and returns its canonical form. -/
def normalize (rules : OverrideRules) (ds : List OverrideDraft) :
    Except Refusal (List Override) := do
  if ds.length > rules.limit then
    throw (.invalid ("A channel can have at most " ++ toString rules.limit ++ " overrides"))
  let os ← rules.checkDrafts [] ds
  return sortBy (fun o p => rules.targetLe o.target p.target) (os.filter hasEffect)

end OverrideRules

end Guildhall
