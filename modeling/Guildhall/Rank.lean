-- SUMMARY: The rank of a member among the roles of a server, and who may manage what by it.
import Guildhall.Member
import Guildhall.Refusal
import Guildhall.Role

/-!
# Rank

A member ranks as high as the highest role they hold, and at least zero. The owner stands
above all ranks. Everyone else may only touch roles and members strictly below their own
rank, and may only hand out permissions that they have.
-/

namespace Guildhall

/-- Whether a role counts for the member's rank. -/
def Member.ranksBy (m : Member) (r : Role) : Bool :=
  !r.isDefault && r.server == m.server && m.holds r.id

/-- The highest position among the roles assigned to the member, and at least zero. -/
def Member.rank (m : Member) (roles : List Role) : Int32 :=
  ((roles.filter m.ranksBy).map Role.position).foldl max 0

private theorem le_max_iff {a b c : Int32} : a ≤ max b c ↔ a ≤ b ∨ a ≤ c := by
  simp only [max]
  split
  · rename_i h
    exact ⟨.inr, fun h' => h'.elim (fun hab => Int32.le_trans hab h) id⟩
  · rename_i h
    have hcb : c ≤ b := Int32.le_of_lt (Int32.not_le.1 h)
    exact ⟨.inl, fun h' => h'.elim id fun hac => Int32.le_trans hac hcb⟩

theorem le_foldl_max_iff {p a : Int32} {ps : List Int32} :
    p ≤ ps.foldl max a ↔ p ≤ a ∨ ∃ q ∈ ps, p ≤ q := by
  induction ps generalizing a with
  | nil => simp
  | cons q qs ih => simp [ih, le_max_iff, or_assoc]

/-- A rank reaches a position if zero does or a role that counts for it. -/
theorem Member.le_rank_iff {m : Member} {roles : List Role} {p : Int32} :
    p ≤ m.rank roles ↔ p ≤ 0 ∨ ∃ r ∈ roles, m.ranksBy r = true ∧ p ≤ r.position := by
  simp only [Member.rank, le_foldl_max_iff, List.mem_map, List.mem_filter]
  constructor
  · rintro (h | ⟨_, ⟨r, ⟨hr, hm⟩, rfl⟩, h⟩)
    · exact .inl h
    · exact .inr ⟨r, hr, hm, h⟩
  · rintro (h | ⟨r, hr, hm, h⟩)
    · exact .inl h
    · exact .inr ⟨_, ⟨r, ⟨hr, hm⟩, rfl⟩, h⟩

theorem Member.ranksBy_iff {m : Member} {r : Role} :
    m.ranksBy r = true ↔ r.isDefault = false ∧ r.server = m.server ∧ m.holds r.id = true := by
  simp [Member.ranksBy, and_assoc]

/-- Whether the member may manage a role at a position. -/
def Member.checkOutranksRole (actor : Member) (roles : List Role) (position : Int32) :
    Except Refusal Unit :=
  if actor.isOwner then .ok ()
  else if actor.rank roles ≤ position then
    .error (.forbidden
      "You cannot manage a role with an equal or higher position than your own highest role")
  else .ok ()

/-- Whether the member may manage another member. Nobody manages the owner. -/
def Member.checkOutranksMember (actor target : Member) (roles : List Role) :
    Except Refusal Unit :=
  if target.isOwner then .error (.forbidden "The server owner cannot be managed")
  else if actor.isOwner then .ok ()
  else if actor.rank roles ≤ target.rank roles then
    .error (.forbidden
      "You cannot manage a user with an equal or higher role position than your own")
  else .ok ()

theorem Member.checkOutranksRole_eq_ok {actor : Member} {roles : List Role} {position : Int32} :
    actor.checkOutranksRole roles position = .ok () ↔
      actor.isOwner = true ∨ position < actor.rank roles := by
  unfold Member.checkOutranksRole
  split
  · simp_all
  · split <;> simp_all [← Int32.not_le]

theorem Member.checkOutranksMember_eq_ok {actor target : Member} {roles : List Role} :
    actor.checkOutranksMember target roles = .ok () ↔
      target.isOwner = false ∧ (actor.isOwner = true ∨ target.rank roles < actor.rank roles) := by
  unfold Member.checkOutranksMember
  split
  · simp_all
  · split
    · simp_all
    · split <;> simp_all [← Int32.not_le]

/-- Whether somebody with the permissions `held` may hand out those `requested`. -/
def checkEscalation (held : PermissionSet) (isOwner : Bool) (requested : PermissionSet) :
    Except Refusal Unit :=
  if isOwner || held.isAdmin then .ok ()
  else
    let beyond := requested \ held
    if beyond.isEmpty then .ok ()
    else .error (.forbidden
      ("You cannot grant permissions you do not have: " ++ ", ".intercalate beyond.names))

theorem checkEscalation_eq_ok {held requested : PermissionSet} {isOwner : Bool} :
    checkEscalation held isOwner requested = .ok () ↔
      isOwner = true ∨ .administrator ∈ held ∨ requested ⊆ held := by
  unfold checkEscalation
  split
  · rename_i h
    simp only [Bool.or_eq_true, PermissionSet.isAdmin_eq_true] at h
    simp [← or_assoc, h]
  · rename_i h
    simp only [Bool.or_eq_true, PermissionSet.isAdmin_eq_true, not_or] at h
    dsimp only
    split
    · rename_i hs
      simp [PermissionSet.sdiff_isEmpty_iff.1 hs]
    · rename_i hs
      have hs' : ¬ requested ⊆ held := fun hsub => hs (PermissionSet.sdiff_isEmpty_iff.2 hsub)
      simp [h.1, h.2, hs']

end Guildhall
