-- SUMMARY: Deleting a role or removing a member clears the server of them and changes nothing else.
import Guildhall.Proofs.Writes

/-!
# Cascades

Other records speak of a role or a member: members list the roles they hold, and overrides are
about roles and members. So a role that is deleted or a member who is removed must disappear
from these as well, or an old grant comes back to life with the next record of that id. Nothing
else may change: a user's id may be the id of a role, and the same id may be spoken of in other
servers. Both writes are treated as one, which takes a `Target` out of a server;
`Store.cleared_of_commit` is what it does to every record.
-/

namespace Guildhall

/-- The write that takes a role or a member out of a server. -/
def Write.remove (server : Id) : Target → Write
  | ⟨.role, role⟩ => .deleteRole server role
  | ⟨.member, user⟩ => .removeMember server user

/-- Whether the second store is the first one cleared of a target in a server. The first four
conditions say that nothing of the target is left there, the others that nothing else changes. -/
structure Store.Cleared (s : Store) (server : Id) (t : Target) (s' : Store) : Prop where
  no_role : ∀ r ∈ s'.roles, .role r.id ≠ t
  no_member : ∀ m ∈ s'.members, m.server = server → .member m.user ≠ t
  no_holder : ∀ m ∈ s'.members, m.server = server → ∀ role ∈ m.roles, .role role ≠ t
  no_override : ∀ c ∈ s'.channels, c.server = some server → ∀ o ∈ c.overrides, o.target ≠ t
  /-- A role other than the target is in the one store just if it is in the other. -/
  role_iff : ∀ r, .role r.id ≠ t → (r ∈ s'.roles ↔ r ∈ s.roles)
  /-- Members of the server keep their other roles: all of them, if the target is a member. -/
  findMember : ∀ user, .member user ≠ t → s'.findMember server user =
    (s.findMember server user).map fun m => { m with roles := m.roles.filter (.role · ≠ t) }
  /-- Members of other servers stay as they are, whoever they are and whatever they hold. -/
  findMember_of_ne : ∀ other user, other ≠ server →
    s'.findMember other user = s.findMember other user
  /-- Channels of the server keep their other overrides; all other channels stay as they are. -/
  findChannel : ∀ id, s'.findChannel id = (s.findChannel id).map fun c =>
    if c.server = some server then { c with overrides := c.overrides.filter (·.target ≠ t) } else c

/-! ## What the write makes of a record -/

theorem Channel.prune_eq (c : Channel) (t : Target) :
    c.prune t = { c with overrides := c.overrides.filter (·.target ≠ t) } := by
  simp [Channel.prune, bne, beq_eq_decide]

namespace Write

variable {server : Id} {t : Target}

theorem onRole_remove (r : Role) : (remove server t).onRole r =
    if r.server = server ∧ .role r.id = t then none else some r := by
  obtain ⟨kind, id⟩ := t
  cases kind with
  | role => simp [remove, onRole, Target.role]
  | member => simp [remove, onRole, Target.role]

theorem newRoles_remove : (remove server t).newRoles = [] := by
  obtain ⟨kind, id⟩ := t
  cases kind <;> rfl

theorem onMember_remove {m : Member} (hm : m.server = server) : (remove server t).onMember m =
    if .member m.user = t then none
    else some { m with roles := m.roles.filter (.role · ≠ t) } := by
  subst hm
  obtain ⟨kind, id⟩ := t
  cases kind with
  | role => simp [remove, onMember, Target.role, Target.member, Member.unassign, bne, beq_eq_decide]
  | member => simp [remove, onMember, Target.role, Target.member]

theorem onMember_remove_of_ne {m : Member} (hm : m.server ≠ server) :
    (remove server t).onMember m = some m := by
  obtain ⟨kind, id⟩ := t
  cases kind with
  | role => simp [remove, onMember, hm]
  | member => simp [remove, onMember, hm]

theorem onChannel_remove (c : Channel) : (remove server t).onChannel c =
    if c.server = some server then { c with overrides := c.overrides.filter (·.target ≠ t) }
    else c := by
  obtain ⟨kind, id⟩ := t
  cases kind with
  | role => simp [remove, onChannel, Target.role, Channel.prune_eq]
  | member => simp [remove, onChannel, Target.member, Channel.prune_eq]

end Write

/-! ## What is left in the store -/

namespace Store.Follows

variable {s s' : Store} {server : Id} {t : Target}

theorem mem_roles_remove (h : s.Follows (.remove server t) s') {r : Role} :
    r ∈ s'.roles ↔ r ∈ s.roles ∧ ¬ (r.server = server ∧ .role r.id = t) := by
  rw [h.mem_roles, Write.newRoles_remove]
  constructor
  · rintro (⟨q, hq, hon⟩ | hnew)
    · rw [Write.onRole_remove] at hon
      split at hon
      · cases hon
      · rename_i hne
        cases hon
        exact ⟨hq, hne⟩
    · cases hnew
  · rintro ⟨hr, hne⟩
    exact .inl ⟨r, hr, by rw [Write.onRole_remove, if_neg hne]⟩

theorem findMember_remove (h : s.Follows (.remove server t) s') (user : Id) :
    s'.findMember server user = if .member user = t then none
      else (s.findMember server user).map fun m =>
        { m with roles := m.roles.filter (.role · ≠ t) } := by
  rw [h.findMember_eq]
  cases hm : s.findMember server user with
  | none => simp
  | some m =>
    obtain ⟨-, hs, rfl⟩ := findMember_eq_some.1 hm
    rw [Option.bind_some, Write.onMember_remove hs]
    rfl

theorem findMember_remove_of_ne (h : s.Follows (.remove server t) s') {other : Id} (user : Id)
    (hne : other ≠ server) : s'.findMember other user = s.findMember other user := by
  rw [h.findMember_eq]
  cases hm : s.findMember other user with
  | none => rfl
  | some m =>
    obtain ⟨-, rfl, -⟩ := findMember_eq_some.1 hm
    exact Write.onMember_remove_of_ne hne

theorem findChannel_remove (h : s.Follows (.remove server t) s') (id : Id) :
    s'.findChannel id = (s.findChannel id).map fun c =>
      if c.server = some server then { c with overrides := c.overrides.filter (·.target ≠ t) }
      else c := by
  rw [h.findChannel_eq]
  exact congrArg (fun f => (s.findChannel id).map f) (funext Write.onChannel_remove)

end Store.Follows

/-! ## An example -/

namespace Example

/-- A role and a user of one id, in two servers. Channels of both servers and a direct message have
overrides about either. -/
def namesakes : Store :=
  let rules : List Override :=
    [⟨.role 20, ∅, .full⟩, ⟨.member 20, .full, ∅⟩, ⟨.role 30, ∅, ∅⟩, ⟨.member 20, ∅, ∅⟩]
  .ofLists
    [⟨10, 1, "@everyone", none, 0, ∅, true⟩, ⟨20, 1, "guard", none, 2, .full, false⟩,
      ⟨30, 1, "clerk", none, 1, ∅, false⟩, ⟨40, 2, "@everyone", none, 0, ∅, true⟩]
    [⟨20, 1, [20, 30, 20], false⟩, ⟨7, 1, [30, 20, 30], false⟩, ⟨20, 2, [20], false⟩]
    [⟨50, some 1, .text, none, [], rules⟩, ⟨60, some 2, .text, none, [], rules⟩,
      ⟨70, none, .dm, none, [7, 20], rules⟩]

end Example

/-! ## Both writes -/

namespace Store

variable {s s' : Store} {server : Id} {t : Target} {receipt : Receipt}

/-- Only a role of the server is deleted from it. -/
theorem server_of_admits_remove (h : s.Admits (.remove server t)) {r : Role} (hr : r ∈ s.roles)
    (ht : .role r.id = t) : r.server = server := by
  subst ht
  obtain ⟨q, hq, -⟩ : ∃ q, s.findRole server r.id = some q ∧ q.isDefault = false := h
  obtain ⟨hqs, hserver, hid⟩ := findRole_eq_some.1 hq
  rw [eq_of_id_eq hr hqs hid.symm, hserver]

/-- A role that is deleted or a member who is removed disappears from all records of the server: no
member there holds the role and no override there is about them. Nothing else changes: not the other
roles and members, not what members hold beside it and not the overrides about anybody else, each in
their order and number, and no record of another server or of none. -/
theorem cleared_of_commit (h : s.commit (.remove server t) = .ok (receipt, s')) :
    s.Cleared server t s' := by
  obtain ⟨hadmits, hf⟩ := commit_ok h
  exact {
    no_role := by
      intro r hr ht
      obtain ⟨hrs, hne⟩ := hf.mem_roles_remove.1 hr
      exact hne ⟨server_of_admits_remove hadmits hrs ht, ht⟩
    no_member := by
      intro m hm hs ht
      have hfound := findMember_eq_some.2 ⟨hm, hs, rfl⟩
      rw [hf.findMember_remove, if_pos ht] at hfound
      cases hfound
    no_holder := by
      intro m hm hs role hrole
      have hfound := findMember_eq_some.2 ⟨hm, hs, rfl⟩
      rw [hf.findMember_remove] at hfound
      split at hfound
      · cases hfound
      · obtain ⟨_, -, rfl⟩ := Option.map_eq_some_iff.1 hfound
        simpa using (List.mem_filter.1 hrole).2
    no_override := by
      intro c hc hs o ho
      obtain ⟨d, -, rfl⟩ := hf.mem_channels.1 hc
      rw [Write.server_onChannel] at hs
      rw [Write.onChannel_remove, if_pos hs] at ho
      simpa using (List.mem_filter.1 ho).2
    role_iff := by
      intro r hne
      rw [hf.mem_roles_remove]
      exact and_iff_left fun ht => hne ht.2
    findMember := by
      intro user hne
      rw [hf.findMember_remove, if_neg hne]
    findMember_of_ne := fun _ user hne => hf.findMember_remove_of_ne user hne
    findChannel := hf.findChannel_remove }

/-- With the role of the example the user of the same id stays, and with the user the role. -/
theorem cleared_of_commit_namesakes :
    ∃ s₁ s₂, Example.namesakes.commit (.remove 1 (.role 20)) = .ok (.nothing, s₁) ∧
      Example.namesakes.Cleared 1 (.role 20) s₁ ∧
      s₁.findMember 1 7 = some ⟨7, 1, [30, 30], false⟩ ∧
      s₁.findMember 2 20 = some ⟨20, 2, [20], false⟩ ∧
      Example.namesakes.commit (.remove 1 (.member 20)) = .ok (.nothing, s₂) ∧
      Example.namesakes.Cleared 1 (.member 20) s₂ ∧
      s₂.findMember 1 7 = some ⟨7, 1, [30, 20, 30], false⟩ ∧
      (s₂.findRole 1 20).isSome = true := by
  have hrole : Example.namesakes.commit (.remove 1 (.role 20)) =
      .ok (.nothing, Example.namesakes.afterWrite (.remove 1 (.role 20))) := by decide +kernel
  have hmember : Example.namesakes.commit (.remove 1 (.member 20)) =
      .ok (.nothing, Example.namesakes.afterWrite (.remove 1 (.member 20))) := by decide +kernel
  exact ⟨_, _, hrole, cleared_of_commit hrole, by decide +kernel, by decide +kernel,
    hmember, cleared_of_commit hmember, by decide +kernel, by decide +kernel⟩

end Store

end Guildhall
