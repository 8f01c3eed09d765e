-- SUMMARY: The list of the roles of a server: fixed by the roles alone, and what each write makes of it.
import Guildhall.Proofs.RoleDeletion
import Guildhall.Proofs.RoleMoves

/-!
# The order of roles

A store shows the roles of a server in descending order of rank. No two roles of a store have one
id, so the order is strict, and a strictly ordered list is given by what is in it
(`Role.Descending.eq_of_mem_iff`): neither where the store keeps a role nor how it got there matters.
For the same reason there is one place for each role among the others (`Role.PlacedIn.unique`), and
what a write makes of a role is found in its place, between roles that stay as they are
(`Store.relists_of_commit`).
-/

namespace Guildhall

/-! ## Places -/

namespace Role

/-- Whether the roles of a list rank from the highest down, one below another. -/
def Descending (rs : List Role) : Prop := rs.Pairwise fun r q => q.RanksBelow r

/-- Whether a list has a role in its place, behind all of the rest that rank above it and before all
that rank below it. -/
def PlacedIn (r : Role) (rest rs : List Role) : Prop :=
  ∃ above below, rest = above ++ below ∧ rs = above ++ r :: below ∧
    (∀ q ∈ above, r.RanksBelow q) ∧ ∀ q ∈ below, q.RanksBelow r

variable {r q : Role} {rest rs rs' rs'' : List Role}

theorem RanksBelow.ne (h : r.RanksBelow q) : r ≠ q := by
  rintro rfl
  exact not_ranksBelow_self r h

/-- Descending lists that have the same roles are the same. -/
theorem Descending.eq_of_mem_iff (h : Descending rs) (h' : Descending rs')
    (hmem : ∀ r, r ∈ rs ↔ r ∈ rs') : rs = rs' := by
  have : Std.Irrefl fun r q : Role => q.RanksBelow r := ⟨not_ranksBelow_self⟩
  have : Std.Antisymm fun r q : Role => q.RanksBelow r :=
    ⟨fun _ _ hqr hrq => absurd hrq hqr.not_ranksBelow⟩
  exact List.Pairwise.eq_of_mem_iff h h' hmem

/-- Two lists that have a role in its place among the same others are the same. -/
theorem PlacedIn.unique (h : r.PlacedIn rest rs) (h' : r.PlacedIn rest rs') : rs = rs' := by
  obtain ⟨above, below, hrest, rfl, habove, hbelow⟩ := h
  obtain ⟨above', below', hrest', rfl, habove', hbelow'⟩ := h'
  -- What one list has above the role and the other below it can be nothing.
  obtain ⟨between, rfl, rfl⟩ | ⟨between, rfl, rfl⟩ :=
    List.append_eq_append_iff.1 (hrest.symm.trans hrest')
  · obtain rfl : between = [] := List.eq_nil_iff_forall_not_mem.2 fun q hq =>
      (habove' q (List.mem_append_right _ hq)).not_ranksBelow
        (hbelow q (List.mem_append_left _ hq))
    simp
  · obtain rfl : between = [] := List.eq_nil_iff_forall_not_mem.2 fun q hq =>
      (habove q (List.mem_append_right _ hq)).not_ranksBelow
        (hbelow' q (List.mem_append_left _ hq))
    simp

theorem PlacedIn.mem (h : r.PlacedIn rest rs) : r ∈ rs := by
  obtain ⟨above, below, -, rfl, -⟩ := h
  exact List.mem_append_right above List.mem_cons_self

/-- The rest is the list without the role. -/
theorem PlacedIn.erase_eq (h : r.PlacedIn rest rs) : rs.erase r = rest := by
  obtain ⟨above, below, rfl, rfl, habove, -⟩ := h
  have hnot : r ∉ above := fun hr => (habove r hr).ne rfl
  rw [List.erase_append_right _ hnot, List.erase_cons_head]

/-- Whether one list comes from another one by a change of the role with an id, which is moved to where
it then belongs. -/
def Rearranges (id : Id) (f : Role → Role) (rs rs' : List Role) : Prop :=
  ∃ (r : Role) (rest : List Role), r.id = id ∧ r.PlacedIn rest rs ∧ (f r).PlacedIn rest rs'

theorem Rearranges.unique {id : Id} {f : Role → Role} (hids : IdsIdentify rs)
    (h : Rearranges id f rs rs') (h' : Rearranges id f rs rs'') : rs' = rs'' := by
  obtain ⟨r, rest, rfl, hr, hplaced⟩ := h
  obtain ⟨q, rest', hid, hq, hplaced'⟩ := h'
  obtain rfl : q = r := hids q hq.mem r hr.mem hid
  obtain rfl : rest' = rest := hq.erase_eq.symm.trans hr.erase_eq
  exact hplaced.unique hplaced'

end Role

/-! ## The list of a store -/

namespace Store

variable {s s' : Store} {server id : Id} {r q : Role} {w : Write} {receipt : Receipt}

theorem descending_serverRoles (s : Store) (server : Id) :
    Role.Descending (s.serverRoles server) := by
  refine List.Pairwise.imp_of_mem ?_ ((s.pairwise_serverRoles server).and
    (s.nodup_serverRoles server))
  rintro r q hr hq ⟨hle, hne⟩
  refine .of_rankLe hle fun hid => hne ?_
  exact s.idsIdentify_serverRoles server r hr q hq hid.symm

/-- Stores that have the same roles of a server show the same list of them. -/
theorem serverRoles_congr (h : ∀ q, q.server = server → (q ∈ s'.roles ↔ q ∈ s.roles)) :
    s'.serverRoles server = s.serverRoles server := by
  refine (descending_serverRoles s' server).eq_of_mem_iff (descending_serverRoles s server) fun q => ?_
  rw [mem_serverRoles, mem_serverRoles]
  exact and_congr_left (h q)

/-- The list is the same in whatever order the store comes upon its roles. -/
theorem sortBy_of_perm {rs : List Role} (h : rs.Perm s.roles.toList) :
    sortBy (fun r q => q.rankLe r) (rs.filter (·.server == server)) = s.serverRoles server := by
  have hnodup : rs.Nodup := h.nodup_iff.2 (.of_map _ s.roles.nodup)
  refine eq_serverRoles ((sortBy_perm _ _).nodup_iff.2 (hnodup.filter _)) (pairwise_sortBy_rankLe _) ?_
  intro r
  rw [mem_sortBy, List.mem_filter, h.mem_iff, beq_iff_eq, Table.mem_iff]

/-- The roles of a server but for the one with an id. -/
def otherRoles (s : Store) (server id : Id) : List Role := (s.serverRoles server).filter (·.id ≠ id)

theorem mem_otherRoles : q ∈ s.otherRoles server id ↔ q ∈ s.roles ∧ q.server = server ∧ q.id ≠ id := by
  rw [otherRoles, List.mem_filter, mem_serverRoles, decide_eq_true_eq, and_assoc]

theorem descending_otherRoles (s : Store) (server id : Id) :
    Role.Descending (s.otherRoles server id) :=
  List.Pairwise.filter _ (descending_serverRoles s server)

theorem otherRoles_congr
    (h : ∀ q, q.server = server → q.id ≠ id → (q ∈ s'.roles ↔ q ∈ s.roles)) :
    s'.otherRoles server id = s.otherRoles server id := by
  refine (descending_otherRoles s' server id).eq_of_mem_iff (descending_otherRoles s server id)
    fun q => ?_
  rw [mem_otherRoles, mem_otherRoles]
  exact and_congr_left fun hq => h q hq.1 hq.2

/-- A role that the list does not have is not missed. -/
theorem otherRoles_of_free (h : ∀ q ∈ s.roles, q.server = server → q.id ≠ id) :
    s.otherRoles server id = s.serverRoles server := by
  refine List.filter_eq_self.2 fun q hq => decide_eq_true ?_
  obtain ⟨hq, hserver⟩ := mem_serverRoles.1 hq
  exact h q hq hserver

/-- Each role is in its place among the others of its server. -/
theorem placedIn_serverRoles (hr : r ∈ s.roles) :
    r.PlacedIn (s.otherRoles r.server r.id) (s.serverRoles r.server) := by
  obtain ⟨above, below, hsplit⟩ := List.append_of_mem (mem_serverRoles.2 ⟨hr, rfl⟩)
  have hdescending := descending_serverRoles s r.server
  rw [Role.Descending, hsplit, List.pairwise_append, List.pairwise_cons] at hdescending
  obtain ⟨-, ⟨hbelow, -⟩, habove⟩ := hdescending
  have habove' : ∀ q ∈ above, r.RanksBelow q := fun q hq => habove q hq r List.mem_cons_self
  have hother : ∀ q ∈ above ++ below, q.id ≠ r.id := by
    intro q hq hid
    have hmem : q ∈ s.serverRoles r.server := by
      rw [hsplit]
      exact (List.sublist_cons_self r below).append_left above |>.subset hq
    obtain rfl := eq_of_id_eq (mem_serverRoles.1 hmem).1 hr hid
    obtain hq | hq := List.mem_append.1 hq
    · exact (habove' q hq).ne rfl
    · exact (hbelow q hq).ne rfl
  have hrest : s.otherRoles r.server r.id = above ++ below := by
    rw [otherRoles, hsplit, List.filter_append, List.filter_cons_of_neg (by simp),
      ← List.filter_append]
    exact List.filter_eq_self.2 fun q hq => decide_eq_true (hother q hq)
  exact ⟨above, below, hrest, hsplit, habove', hbelow⟩

/-! ## What writes make of the list -/

/-- A role that is put into the store is found in its place among the others of its server. -/
theorem placedIn_insertRole (s : Store) (r : Role) :
    r.PlacedIn (s.otherRoles r.server r.id) ((s.insertRole r).serverRoles r.server) := by
  have hothers : (s.insertRole r).otherRoles r.server r.id = s.otherRoles r.server r.id := by
    refine otherRoles_congr fun q _ hid => ?_
    refine Table.mem_insert.trans ⟨?_, fun hq => .inr ⟨hq, hid⟩⟩
    rintro (rfl | ⟨hq, -⟩)
    · exact absurd rfl hid
    · exact hq
  rw [← hothers]
  exact placedIn_serverRoles (Table.mem_insert.2 (.inl rfl))

/-- A role that is replaced by a changed form of itself is moved to where this belongs. -/
theorem rearranges_insertRole {f : Role → Role} (hr : r ∈ s.roles) (hid : (f r).id = r.id)
    (hserver : (f r).server = r.server) :
    Role.Rearranges r.id f (s.serverRoles r.server) ((s.insertRole (f r)).serverRoles r.server) := by
  have hplaced := placedIn_insertRole s (f r)
  rw [hid, hserver] at hplaced
  exact ⟨r, s.otherRoles r.server r.id, rfl, placedIn_serverRoles hr, hplaced⟩

/-- Another server loses the role that has had the id. -/
theorem serverRoles_insertRole_of_ne (h : r.server ≠ server) :
    (s.insertRole r).serverRoles server = s.otherRoles server r.id := by
  refine (descending_serverRoles _ server).eq_of_mem_iff (descending_otherRoles s server r.id)
    fun q => ?_
  rw [mem_serverRoles, mem_otherRoles]
  constructor
  · rintro ⟨hq, hserver⟩
    obtain rfl | ⟨hq, hid⟩ := Table.mem_insert.1 hq
    · exact absurd hserver h
    · exact ⟨hq, hserver, hid⟩
  · rintro ⟨hq, hserver, hid⟩
    exact ⟨Table.mem_insert.2 (.inr ⟨hq, hid⟩), hserver⟩

/-- What leaves the roles of a server alone and adds none leaves the list alone. -/
theorem Follows.serverRoles_eq (hf : s.Follows w s')
    (hon : ∀ q, q.server = server → w.onRole q = some q)
    (hnew : ∀ q ∈ w.newRoles, q.server ≠ server) : s'.serverRoles server = s.serverRoles server := by
  refine serverRoles_congr fun q hserver => ?_
  rw [hf.mem_roles]
  constructor
  · rintro (⟨q', hq', hq⟩ | hq)
    · obtain ⟨-, hserver', -⟩ := Write.onRole_eq_some hq
      rw [hon q' (hserver'.symm.trans hserver), Option.some.injEq] at hq
      exact hq ▸ hq'
    · exact absurd hserver (hnew q hq)
  · exact fun hq => .inl ⟨q, hq, hon q hserver⟩

end Store

namespace Write

/-- What a write makes of the list of the roles of a server: writes about roles of the server put a role
into its place, move it there after a change, or take it away; the others change nothing. -/
def Relists (w : Write) (server : Id) (rs rs' : List Role) : Prop :=
  if w.about = (.server, server) then
    match w with
    | .createRole r => r.PlacedIn rs rs'
    | .updateRole _ id patch => Role.Rearranges id (·.patch patch) rs rs'
    | .moveRole _ id _ position => Role.Rearranges id ({ · with position }) rs rs'
    | .deleteRole _ id => ∃ q : Role, q.id = id ∧ q.PlacedIn rs' rs
    | .assignRole .. | .unassignRole .. | .removeMember .. | .replaceOverrides .. => rs' = rs
  else rs' = rs

/-- A write makes one list of a list, if the ids tell the roles in it apart. -/
theorem Relists.unique {w : Write} {server : Id} {rs rs₁ rs₂ : List Role} (hids : IdsIdentify rs)
    (h₁ : w.Relists server rs rs₁) (h₂ : w.Relists server rs rs₂) : rs₁ = rs₂ := by
  unfold Relists at h₁ h₂
  split at h₁
  · rename_i habout
    rw [if_pos habout] at h₂
    cases w with
    | createRole r => exact h₁.unique h₂
    | updateRole | moveRole => exact h₁.unique hids h₂
    | deleteRole sv id =>
      obtain ⟨q₁, rfl, hq₁⟩ := h₁
      obtain ⟨q₂, hid, hq₂⟩ := h₂
      obtain rfl : q₂ = q₁ := hids q₂ hq₂.mem q₁ hq₁.mem hid
      exact hq₁.erase_eq.symm.trans hq₂.erase_eq
    | assignRole | unassignRole | removeMember | replaceOverrides => exact h₁.trans h₂.symm
  · rename_i habout
    rw [if_neg habout] at h₂
    exact h₁.trans h₂.symm

end Write

namespace Store

variable {s s' : Store} {server id : Id} {r q : Role} {w : Write} {receipt : Receipt}

theorem relists_of_commit (h : s.commit w = .ok (receipt, s')) (server : Id) :
    w.Relists server (s.serverRoles server) (s'.serverRoles server) := by
  obtain ⟨hadmits, hf⟩ := commit_ok h
  unfold Write.Relists
  split
  · rename_i habout
    cases w with
    | createRole r =>
      obtain rfl : r.server = server := congrArg Prod.snd habout
      obtain ⟨-, rfl⟩ := eq_of_commit_createRole h
      have hplaced := placedIn_insertRole s r
      rwa [otherRoles_of_free fun q hq _ => hadmits.1 q hq] at hplaced
    | updateRole sv id patch =>
      obtain rfl : sv = server := congrArg Prod.snd habout
      obtain ⟨q, hq⟩ := hadmits
      rw [commit_updateRole hq] at h
      cases h
      obtain ⟨hqs, rfl, rfl⟩ := findRole_eq_some.1 hq
      exact rearranges_insertRole hqs rfl rfl
    | moveRole sv id expected position =>
      obtain rfl : sv = server := congrArg Prod.snd habout
      obtain ⟨q, hq, rfl⟩ := hadmits
      have hmoved : s.commit (.moveRole sv id q.position position) =
          .ok (.role { q with position }, s.insertRole { q with position }) :=
        moveRole_of_expected (m := ⟨q.position, position⟩) hq rfl
      rw [hmoved] at h
      cases h
      obtain ⟨hqs, rfl, rfl⟩ := findRole_eq_some.1 hq
      exact rearranges_insertRole (f := ({ · with position })) hqs rfl rfl
    | deleteRole sv id =>
      obtain rfl : sv = server := congrArg Prod.snd habout
      obtain ⟨q, hq, -⟩ := hadmits
      obtain ⟨hqs, rfl, rfl⟩ := findRole_eq_some.1 hq
      rw [serverRoles_deleteRole hf]
      exact ⟨q, rfl, placedIn_serverRoles hqs⟩
    | assignRole | unassignRole | removeMember | replaceOverrides =>
      exact hf.serverRoles_eq (fun _ _ => rfl) (fun _ hq => by cases hq)
  · rename_i habout
    refine hf.serverRoles_eq ?_ ?_
    · rintro q rfl
      exact Write.onRole_of_about_ne habout
    · rintro q hq rfl
      exact habout (Write.about_of_mem_newRoles hq)

/-- The list of the roles of a server is fixed by which roles these are, whatever insertions and
writes have led to the store. It has each of them once, from the highest ranked down, in whatever
order the store comes upon them, and stores that have the same roles of the server show the same
list. A write that is made, or a role that is put in, makes of it the one list that has the changed
role in its place among the others. -/
theorem serverRoles_canonical (s : Store) (server : Id) :
    (∀ r, (s.serverRoles server).count r = if r ∈ s.roles ∧ r.server = server then 1 else 0) ∧
    Role.Descending (s.serverRoles server) ∧
    (∀ rs : List Role, rs.Perm s.roles.toList →
      sortBy (fun r q => q.rankLe r) (rs.filter (·.server == server)) = s.serverRoles server) ∧
    (∀ s' : Store, (∀ r, r.server = server → (r ∈ s'.roles ↔ r ∈ s.roles)) →
      s'.serverRoles server = s.serverRoles server) ∧
    (∀ w receipt s', s.commit w = .ok (receipt, s') →
      ∀ rs, w.Relists server (s.serverRoles server) rs ↔ rs = s'.serverRoles server) ∧
    ∀ r, (r.server = server → ∀ rs, r.PlacedIn (s.otherRoles server r.id) rs ↔
        rs = (s.insertRole r).serverRoles server) ∧
      (r.server ≠ server → (s.insertRole r).serverRoles server = s.otherRoles server r.id) := by
  refine ⟨?_, descending_serverRoles s server, fun rs => sortBy_of_perm, fun s' => serverRoles_congr,
    ?_, fun r => ⟨?_, serverRoles_insertRole_of_ne⟩⟩
  · intro r
    rw [(nodup_serverRoles s server).count]
    exact if_congr mem_serverRoles rfl rfl
  · intro w receipt s' h rs
    have hrelists := relists_of_commit h server
    constructor
    · exact fun hrs => hrs.unique (idsIdentify_serverRoles s server) hrelists
    · rintro rfl
      exact hrelists
  · rintro rfl rs
    have hplaced := placedIn_insertRole s r
    constructor
    · exact fun hrs => hrs.unique hplaced
    · rintro rfl
      exact hplaced

/-- The guards are moved above the manager; the list does not depend on where the store has them. -/
theorem serverRoles_canonical_store :
    Example.store.roles.toList.reverse.Perm Example.store.roles.toList ∧
      sortBy (fun r q => q.rankLe r)
        (Example.store.roles.toList.reverse.filter (·.server == 1)) = Example.store.serverRoles 1 ∧
      (Example.store.serverRoles 1).map Role.id = [20, 30, 10] ∧
      Example.store.commit (.moveRole 1 30 3 9) =
        .ok (.role ⟨30, 1, "guard", none, 9, .ofList [.banMembers], false⟩,
          Example.store.afterWrite (.moveRole 1 30 3 9)) ∧
      (∀ rs, (Write.moveRole 1 30 3 9).Relists 1 (Example.store.serverRoles 1) rs ↔
        rs = (Example.store.afterWrite (.moveRole 1 30 3 9)).serverRoles 1) ∧
      ((Example.store.afterWrite (.moveRole 1 30 3 9)).serverRoles 1).map Role.id = [30, 20, 10] := by
  have hcommit : Example.store.commit (.moveRole 1 30 3 9) =
      .ok (.role ⟨30, 1, "guard", none, 9, .ofList [.banMembers], false⟩,
        Example.store.afterWrite (.moveRole 1 30 3 9)) := by
    decide
  have hperm := List.reverse_perm Example.store.roles.toList
  obtain ⟨-, -, horder, -, hwrites, -⟩ := serverRoles_canonical Example.store 1
  exact ⟨hperm, horder _ hperm, by decide, hcommit, hwrites _ _ _ hcommit, by decide⟩

end Store

end Guildhall
