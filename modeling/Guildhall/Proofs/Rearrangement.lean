-- SUMMARY: The order and the repetitions in the lists of records do not matter for permissions, decisions and ranks.
import Guildhall.Proofs.LastWord
import Guildhall.Rank

/-!
# Records in another order

The records of a member come as lists: the roles of the server, the roles assigned to the member, the
overrides of a channel. Permissions and ranks depend on what is in these lists and not on how it is
listed. Of the roles only those that count for the member matter (`Member.SameRoles`), and they stand in
one order only once they are sorted (`Member.heldRoles_congr`, from `Member.Ladder.unique`). Overrides
about different targets can change places, because each layer of a member picks those about one target
(`Override.Rearranged`).
-/

namespace Guildhall

/-! ## Overrides -/

namespace Override

variable {o : Override} {os os' : List Override}

/-- Whether the lists have the same overrides about each target, in the same order. -/
def Rearranged (os os' : List Override) : Prop :=
  ∀ t, os'.filter (·.target == t) = os.filter (·.target == t)

/-- Of overrides with distinct targets, one is about the target of each. -/
theorem filter_target_of_mem (hdistinct : (os.map Override.target).Nodup) (ho : o ∈ os) :
    os.filter (·.target == o.target) = [o] := by
  induction os with
  | nil => cases ho
  | cons q os ih =>
    obtain ⟨hq, hrest⟩ := List.nodup_cons.1 hdistinct
    obtain rfl | ho := List.mem_cons.1 ho
    · have hnone : os.filter (·.target == o.target) = [] := by
        rw [List.filter_eq_nil_iff]
        intro p hp hpo
        exact hq (List.mem_map.2 ⟨p, hp, beq_iff_eq.1 hpo⟩)
      simp [hnone]
    · have hne : q.target ≠ o.target := fun h => hq (h ▸ List.mem_map_of_mem ho)
      simpa [List.filter_cons, hne] using ih hrest ho

/-- Overrides with distinct targets can be put into any order. -/
theorem rearranged_of_perm (hdistinct : (os.map Override.target).Nodup) (h : os'.Perm os) :
    Rearranged os os' := by
  intro t
  have hdistinct' : (os'.map Override.target).Nodup := (h.map _).nodup_iff.2 hdistinct
  by_cases ht : ∃ o ∈ os, o.target = t
  · obtain ⟨o, ho, rfl⟩ := ht
    rw [filter_target_of_mem hdistinct ho, filter_target_of_mem hdistinct' (h.mem_iff.2 ho)]
  · have hnone : os.filter (·.target == t) = [] :=
      List.filter_eq_nil_iff.2 fun o ho hot => ht ⟨o, ho, beq_iff_eq.1 hot⟩
    rw [hnone, ← List.perm_nil, ← hnone]
    exact h.filter _

theorem Rearranged.applyLayer_eq (h : Rearranged os os') : applyLayer os' = applyLayer os := by
  funext s t
  rw [applyLayer, h t, applyLayer]

end Override

/-- The channel with other overrides. -/
def Channel.withOverrides (c : Channel) (os : List Override) : Channel := { c with overrides := os }

/-- The member with other roles assigned. -/
def Member.withRoles (m : Member) (ids : List Id) : Member := { m with roles := ids }

namespace Member

variable {m : Member} {roles roles' : List Role} {ids : List Id} {everyone : Option Role} {e : Role}
  {os os' : List Override}

/-- In a channel, overrides matter as far as they change what is about each target. -/
theorem resolve_withOverrides_congr (h : applyLayer os' = applyLayer os) (c : Channel) :
    m.resolve roles everyone (some (c.withOverrides os')) =
      m.resolve roles everyone (some (c.withOverrides os)) := by
  simp only [resolve, Channel.withOverrides, resolveInServer, applyOverrides, h]
  rfl

theorem authorize_withOverrides_congr (h : applyLayer os' = applyLayer os) (c : Channel)
    (p : Permission) :
    m.authorize p roles everyone (some (c.withOverrides os')) =
      m.authorize p roles everyone (some (c.withOverrides os)) := by
  simp only [authorize, resolve_withOverrides_congr h]
  rfl

/-! ## Roles -/

/-- Whether two lists have the same roles among those that count for the member. Default roles, roles of
other servers and roles that are not assigned to the member can come and go. -/
structure SameRoles (m : Member) (roles roles' : List Role) : Prop where
  kept : ∀ r ∈ roles, r.isDefault = false → r.server = m.server → r.id ∈ m.roles → r ∈ roles'
  known : ∀ r ∈ roles', r.isDefault = false → r.server = m.server → r.id ∈ m.roles → r ∈ roles

theorem SameRoles.mem_filter_iff (h : m.SameRoles roles roles') {r : Role} :
    r ∈ roles'.filter m.ranksBy ↔ r ∈ roles.filter m.ranksBy := by
  simp only [List.mem_filter, ranksBy_iff, holds_iff]
  constructor
  · rintro ⟨hr, hd, hs, hm⟩
    exact ⟨h.known r hr hd hs hm, hd, hs, hm⟩
  · rintro ⟨hr, hd, hs, hm⟩
    exact ⟨h.kept r hr hd hs hm, hd, hs, hm⟩

/-- A rank is known by the roles that count for it. -/
theorem SameRoles.rank_eq (h : m.SameRoles roles roles') : m.rank roles' = m.rank roles := by
  have hmem (r : Role) : r ∈ roles' ∧ m.ranksBy r = true ↔ r ∈ roles ∧ m.ranksBy r = true := by
    simpa only [List.mem_filter] using h.mem_filter_iff
  have hle (p : Int32) : p ≤ m.rank roles' ↔ p ≤ m.rank roles := by
    simp only [le_rank_iff, ← and_assoc, hmem]
  exact Int32.le_antisymm ((hle _).1 Int32.le_rfl) ((hle _).2 Int32.le_rfl)

/-- Roles that do not count for the rank do not count besides the default role either. -/
theorem heldRoles_filter (m : Member) (roles : List Role) (e : Role) :
    m.heldRoles (roles.filter m.ranksBy) e = m.heldRoles roles e := by
  have hfilter : (roles.filter m.ranksBy).filter (m.heldBeside e) = roles.filter (m.heldBeside e) := by
    rw [List.filter_filter]
    refine List.filter_congr fun r _ => ?_
    rw [Bool.and_eq_left_iff_imp, heldBeside_iff, ranksBy_iff]
    rintro ⟨hs, -, hd, hm⟩
    exact ⟨hd, hs, hm⟩
  rw [heldRoles, hfilter, heldRoles]

/-- Sorted, the roles that count are the same list. -/
theorem SameRoles.heldRoles_eq (h : m.SameRoles roles roles') (hids : IdsIdentify roles) :
    m.heldRoles roles' e = m.heldRoles roles e := by
  -- the whole list may repeat ids, but not among the roles that count
  have hcounting : IdsIdentify (roles.filter m.ranksBy) := hids.of_subset List.filter_sublist.subset
  have hcounting' : IdsIdentify (roles'.filter m.ranksBy) :=
    hcounting.of_subset fun r hr => h.mem_filter_iff.1 hr
  have hladder : m.Ladder (roles.filter m.ranksBy) e (m.heldRoles (roles'.filter m.ranksBy) e) := by
    obtain ⟨ascending, members⟩ := ladder_heldRoles (m := m) (e := e) hcounting'
    exact ⟨ascending, fun r => by rw [members, h.mem_filter_iff]⟩
  rw [← heldRoles_filter m roles', ← heldRoles_filter m roles]
  exact (ladder_heldRoles hcounting).unique hladder

/-! ## Assigned roles -/

theorem holds_withRoles (h : ∀ id, id ∈ ids ↔ id ∈ m.roles) : (m.withRoles ids).holds = m.holds := by
  funext id
  rw [Bool.eq_iff_iff, holds_iff, holds_iff]
  exact h id

theorem rank_withRoles (h : ∀ id, id ∈ ids ↔ id ∈ m.roles) (roles : List Role) :
    (m.withRoles ids).rank roles = m.rank roles := by
  have hranks : (m.withRoles ids).ranksBy = m.ranksBy := by
    funext r
    simp only [ranksBy, holds_withRoles h]
    rfl
  rw [rank, hranks, rank]

theorem heldRoles_withRoles (h : ∀ id, id ∈ ids ↔ id ∈ m.roles) (roles : List Role) (e : Role) :
    (m.withRoles ids).heldRoles roles e = m.heldRoles roles e := by
  have hheld : (m.withRoles ids).heldBeside e = m.heldBeside e := by
    funext r
    simp only [heldBeside, holds_withRoles h]
    rfl
  rw [heldRoles, hheld, heldRoles]

/-! ## Records in another order -/

/-- For permissions, roles matter as far as they are held. -/
theorem resolve_withRoles_congr
    (h : ∀ e, (m.withRoles ids).heldRoles roles' e = m.heldRoles roles e)
    (everyone : Option Role) (channel : Option Channel) :
    (m.withRoles ids).resolve roles' everyone channel = m.resolve roles everyone channel := by
  simp only [resolve, resolveInServer, h]
  rfl

theorem authorize_withRoles_congr
    (h : ∀ e, (m.withRoles ids).heldRoles roles' e = m.heldRoles roles e)
    (everyone : Option Role) (channel : Option Channel) (p : Permission) :
    (m.withRoles ids).authorize p roles' everyone channel =
      m.authorize p roles everyone channel := by
  simp only [authorize, resolve_withRoles_congr h]
  rfl

/-- Ranks, permissions and decisions do not depend on the order and the repetitions of the records. The
roles can be listed in any order and any number of times, with or without roles that do not count for
the member, and so can the ids of the roles that are assigned to the member. In a channel, overrides
about different targets can change places; if the targets are distinct, that is any permutation. -/
theorem resolution_unordered (hids : IdsIdentify roles) (hroles : m.SameRoles roles roles')
    (hassigned : ∀ id, id ∈ ids ↔ id ∈ m.roles) :
    (m.withRoles ids).rank roles' = m.rank roles ∧
    (∀ everyone channel,
      (m.withRoles ids).resolve roles' everyone channel = m.resolve roles everyone channel ∧
      ∀ p, (m.withRoles ids).authorize p roles' everyone channel =
        m.authorize p roles everyone channel) ∧
    ∀ everyone c os, Override.Rearranged c.overrides os ∨
        (c.overrides.map Override.target).Nodup ∧ os.Perm c.overrides →
      (m.withRoles ids).resolve roles' everyone (some (c.withOverrides os)) =
        m.resolve roles everyone (some c) ∧
      ∀ p, (m.withRoles ids).authorize p roles' everyone (some (c.withOverrides os)) =
        m.authorize p roles everyone (some c) := by
  have hheld : ∀ e, (m.withRoles ids).heldRoles roles' e = m.heldRoles roles e := by
    intro e
    rw [heldRoles_withRoles hassigned, hroles.heldRoles_eq hids]
  refine ⟨?_, fun everyone channel => ⟨resolve_withRoles_congr hheld everyone channel,
    authorize_withRoles_congr hheld everyone channel⟩, ?_⟩
  · rw [rank_withRoles hassigned, hroles.rank_eq]
  · intro everyone c os hos
    have hrearranged : Override.Rearranged c.overrides os :=
      hos.elim id fun ⟨hdistinct, hperm⟩ => Override.rearranged_of_perm hdistinct hperm
    refine ⟨?_, fun p => ?_⟩
    · rw [resolve_withRoles_congr hheld]
      exact resolve_withOverrides_congr hrearranged.applyLayer_eq c
    · rw [authorize_withRoles_congr hheld]
      exact authorize_withOverrides_congr hrearranged.applyLayer_eq c p

end Member

/-! ## An example -/

namespace Example

/-- The roles of `ranks` that count for the clerk, in another order and one of them twice, next to
others that go by the same ids: a role of another server and a default role. -/
def reshuffled : List Role :=
  [⟨30, 1, "guest", none, 3, ∅, false⟩, ⟨20, 2, "alien", none, 8, .full, false⟩,
    ⟨30, 1, "guest", none, 3, ∅, false⟩, ⟨20, 1, "scribe", none, 3, ∅, false⟩,
    ⟨30, 1, "newcomers", none, 0, .full, true⟩]

/-- The corridor with its overrides the other way round. -/
def reversed : Channel := corridor.withOverrides corridor.overrides.reverse

end Example

/-- Of the two roles at one position the one with the greater id has the last word, whatever stands
first in the lists. -/
theorem Member.resolution_unordered_clerk :
    Example.clerk.SameRoles Example.ranks Example.reshuffled ∧
      (Example.clerk.withRoles [30, 20, 30]).rank Example.reshuffled =
        Example.clerk.rank Example.ranks ∧
      (Example.clerk.withRoles [30, 20, 30]).resolve Example.reshuffled (some Example.everyone)
          (some Example.reversed) =
        Example.clerk.resolve Example.ranks (some Example.everyone) (some Example.corridor) ∧
      ∀ p, (Example.clerk.withRoles [30, 20, 30]).authorize p Example.reshuffled
          (some Example.everyone) (some Example.reversed) =
        Example.clerk.authorize p Example.ranks (some Example.everyone) (some Example.corridor) := by
  have hids : IdsIdentify Example.ranks := by
    unfold IdsIdentify
    decide +kernel
  have hroles : Example.clerk.SameRoles Example.ranks Example.reshuffled := by
    constructor <;> decide +kernel
  have hassigned : ∀ id, id ∈ ([30, 20, 30] : List Id) ↔ id ∈ Example.clerk.roles := by
    intro id
    simp only [Example.clerk, List.mem_cons, List.not_mem_nil, or_false]
    tauto
  have hdistinct : (Example.corridor.overrides.map Override.target).Nodup := by decide +kernel
  obtain ⟨hrank, -, hchannel⟩ := Member.resolution_unordered hids hroles hassigned
  exact ⟨hroles, hrank, hchannel _ _ _ (.inr ⟨hdistinct, List.reverse_perm _⟩)⟩

end Guildhall
