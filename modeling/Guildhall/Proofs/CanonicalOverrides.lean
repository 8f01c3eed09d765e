-- SUMMARY: Normalization accepts the valid submissions and no others, returns their one canonical form, and keeps what they mean.
import Guildhall.Proofs.Normalization
import Guildhall.Proofs.Rearrangement

/-!
# The canonical form of a submission

Whether overrides can be submitted together is said by `OverrideRules.Valid`, without an order in which
the drafts are looked at. `OverrideRules.normalize_exact` says that normalization accepts just these
submissions and that the result is the one list with the overrides that have an effect in the order of
`OverrideRules.Precedes`. How a submission is spelled does not show in it: neither the order of the
drafts nor the repetition of permissions. And sorting the overrides and dropping those without effect
does not change what a member may do (`OverrideRules.normalize_preserves_meaning`), because no two of
them are about one target.
-/

namespace Guildhall

namespace OverrideDraft

variable {d d' : OverrideDraft}

/-- Drafts stand for the same override if they list the same permissions, in any order and number. -/
theorem override_eq_iff : d'.override = d.override ↔
    d'.target = d.target ∧ (∀ p, p ∈ d'.allow ↔ p ∈ d.allow) ∧ ∀ p, p ∈ d'.deny ↔ p ∈ d.deny := by
  have hset (ps qs : List Permission) :
      PermissionSet.ofList ps = .ofList qs ↔ ∀ p, p ∈ ps ↔ p ∈ qs := by
    constructor
    · intro h p
      rw [← PermissionSet.mem_ofList, h, PermissionSet.mem_ofList]
    · intro h
      exact PermissionSet.ext fun p => by simp [h p]
  simp only [override, Override.mk.injEq, hset]

/-- A draft has an effect unless it lists nothing. -/
theorem hasEffect_override :
    OverrideRules.hasEffect d.override = true ↔ d.allow ≠ [] ∨ d.deny ≠ [] := by
  have hne (ps : List Permission) : (∃ p, p ∈ ps) ↔ ps ≠ [] := by
    simp [List.eq_nil_iff_forall_not_mem]
  simp only [OverrideRules.hasEffect_iff, override, PermissionSet.mem_ofList, exists_or, hne]

end OverrideDraft

namespace OverrideRules

variable {rules : OverrideRules} {ds ds' : List OverrideDraft} {os os' : List Override}

/-! ## Valid submissions -/

/-- Whether the drafts can be submitted together. Drafts that list nothing are no exception. -/
structure Valid (rules : OverrideRules) (ds : List OverrideDraft) : Prop where
  bounded : ds.length ≤ rules.limit
  distinct : (ds.map OverrideDraft.target).Nodup
  each : ∀ d ∈ ds, rules.Accepts d

theorem normalize_eq_ok_iff_valid :
    rules.normalize ds = .ok os ↔
      rules.Valid ds ∧ os = rules.canonical (ds.map OverrideDraft.override) := by
  rw [normalize_eq_ok]
  constructor
  · rintro ⟨bounded, distinct, each, hos⟩
    exact ⟨⟨bounded, distinct, each⟩, hos⟩
  · rintro ⟨⟨bounded, distinct, each⟩, hos⟩
    exact ⟨bounded, distinct, each, hos⟩

/-- How a draft lists its permissions does not matter for whether it is in order. -/
theorem Accepts.of_override_eq {d d' : OverrideDraft} (h : rules.Accepts d)
    (heq : d'.override = d.override) : rules.Accepts d' := by
  obtain ⟨htarget, hallow, hdeny⟩ := OverrideDraft.override_eq_iff.1 heq
  constructor
  case target => rw [htarget]; exact h.target
  case noAdmin => rw [hallow, hdeny]; exact h.noAdmin
  case disjoint =>
    intro p hp
    rw [hdeny]
    exact h.disjoint p ((hallow p).1 hp)

theorem Valid.distinct_override (h : rules.Valid ds) :
    ((ds.map OverrideDraft.override).map Override.target).Nodup := by
  rw [List.map_map]
  exact h.distinct

/-- Validity only depends on the overrides that the drafts stand for, in any order. -/
theorem Valid.of_perm (h : rules.Valid ds)
    (hperm : (ds'.map OverrideDraft.override).Perm (ds.map OverrideDraft.override)) :
    rules.Valid ds' where
  bounded := by
    have hlength := hperm.length_eq
    rw [List.length_map, List.length_map] at hlength
    exact hlength ▸ h.bounded
  distinct := by
    have hdistinct := (hperm.map Override.target).nodup_iff.2 h.distinct_override
    rwa [List.map_map] at hdistinct
  each d' hd' := by
    obtain ⟨d, hd, heq⟩ := List.mem_map.1 (hperm.mem_iff.1 (List.mem_map_of_mem hd'))
    exact (h.each d hd).of_override_eq heq.symm

/-! ## Refusals -/

/-- Whether a check refuses only for what a rule says about the submission. -/
def RefusesInvalid {α : Type} (x : Except Refusal α) : Prop :=
  ∀ why, x = .error why → ∃ message, why = .invalid message

namespace RefusesInvalid

variable {α β : Type}

theorem ok (a : α) : RefusesInvalid (.ok a) := by
  rintro why ⟨⟩

theorem error (message : String) : RefusesInvalid (.error (.invalid message) : Except Refusal α) := by
  rintro why ⟨⟩
  exact ⟨message, rfl⟩

theorem bind {x : Except Refusal α} {f : α → Except Refusal β} (hx : RefusesInvalid x)
    (hf : ∀ a, RefusesInvalid (f a)) : RefusesInvalid (x >>= f) := by
  cases x with
  | error why =>
    rintro why ⟨⟩
    exact hx why rfl
  | ok a => exact hf a

theorem guard {c : Prop} [Decidable c] {message : String} {f : α → Except Refusal β}
    {x : Except Refusal β} (hx : RefusesInvalid x) :
    RefusesInvalid (if c then throw (.invalid message) >>= f else x) := by
  split
  · exact error message
  · exact hx

end RefusesInvalid

theorem refusesInvalid_checkTarget (t : Target) : RefusesInvalid (rules.checkTarget t) := by
  obtain ⟨kind, id⟩ := t
  cases kind with
  | member =>
    simp only [checkTarget]
    split
    · exact .error _
    · exact .ok _
  | role =>
    simp only [checkTarget]
    split
    · exact .ok _
    · exact .error _

theorem refusesInvalid_checkDraft (d : OverrideDraft) : RefusesInvalid (rules.checkDraft d) :=
  .bind (refusesInvalid_checkTarget d.target) fun _ => .guard (.guard (.ok _))

theorem refusesInvalid_checkDrafts (seen : List Target) (ds : List OverrideDraft) :
    RefusesInvalid (rules.checkDrafts seen ds) := by
  induction ds generalizing seen with
  | nil => exact .ok _
  | cons d ds ih =>
    exact .guard (.bind (refusesInvalid_checkDraft d) fun _ => .bind (ih _) fun _ => .ok _)

/-- Whatever is wrong with a submission, it is refused as invalid. -/
theorem refusesInvalid_normalize (ds : List OverrideDraft) : RefusesInvalid (rules.normalize ds) :=
  .guard (.bind (refusesInvalid_checkDrafts [] ds) fun _ => .ok _)

/-! ## Acceptance and canonical form -/

/-- What a valid submission becomes is returned as it is, should it be submitted again. -/
theorem Valid.normalize_canonical (h : rules.Valid ds)
    (hos : os = rules.canonical (ds.map OverrideDraft.override)) :
    rules.normalize (os.map Override.draft) = .ok os := by
  subst hos
  have hcanonical : ∀ o ∈ rules.canonical (ds.map OverrideDraft.override),
      o ∈ ds.map OverrideDraft.override ∧ hasEffect o = true := fun o ho =>
    List.mem_filter.1 ((rules.canonical_perm _).mem_iff.1 ho)
  refine normalize_draft ?_ (rules.nodup_canonical h.distinct_override) ?_
    (fun o ho => (hcanonical o ho).2) canonical_pairwise
  · refine Nat.le_trans length_canonical_le ?_
    rw [List.length_map]
    exact h.bounded
  · intro o ho
    obtain ⟨d, hd, rfl⟩ := List.mem_map.1 (hcanonical o ho).1
    exact (h.each d hd).of_override_eq (Override.override_draft _)

/-- A submission of the same overrides has the same result. -/
theorem normalize_of_perm
    (hperm : (ds'.map OverrideDraft.override).Perm (ds.map OverrideDraft.override))
    (h : rules.normalize ds = .ok os) : rules.normalize ds' = .ok os := by
  obtain ⟨hvalid, rfl⟩ := normalize_eq_ok_iff_valid.1 h
  exact normalize_eq_ok_iff_valid.2
    ⟨hvalid.of_perm hperm, (canonical_congr hvalid.distinct_override hperm).symm⟩

/-- Normalization accepts the valid submissions and no others, and whatever it refuses it refuses as
invalid. The result has one override for each draft that lists anything, with its target and its sets of
permissions, has no other, stands in strict order, and would be returned as it is. A submission of the
same overrides, their order and the order and number of their permissions apart, has the same result. -/
theorem normalize_exact (rules : OverrideRules) (ds : List OverrideDraft) :
    ((∃ os, rules.normalize ds = .ok os) ↔ rules.Valid ds) ∧
    (∀ why, rules.normalize ds = .error why → ∃ message, why = .invalid message) ∧
    (∀ os, rules.normalize ds = .ok os →
      (∀ d ∈ ds, d.allow ≠ [] ∨ d.deny ≠ [] → os.filter (·.target == d.target) = [d.override]) ∧
      (∀ o ∈ os, ∃ d ∈ ds, (d.allow ≠ [] ∨ d.deny ≠ []) ∧ o = d.override) ∧
      os.Pairwise (fun o p => rules.Precedes o.target p.target) ∧
      rules.normalize (os.map Override.draft) = .ok os) ∧
    ∀ ds', (ds'.map OverrideDraft.override).Perm (ds.map OverrideDraft.override) →
      ∀ os, rules.normalize ds' = .ok os ↔ rules.normalize ds = .ok os := by
  refine ⟨?accepted, refusesInvalid_normalize ds, ?result, ?respelled⟩
  case accepted =>
    simp only [normalize_eq_ok_iff_valid, exists_and_left, exists_eq, and_true]
  case result =>
    intro os hos
    obtain ⟨hvalid, hcanonical⟩ := normalize_eq_ok_iff_valid.1 hos
    have hmem : ∀ o, o ∈ os ↔ ∃ d ∈ ds, (d.allow ≠ [] ∨ d.deny ≠ []) ∧ o = d.override := by
      intro o
      rw [hcanonical, (rules.canonical_perm _).mem_iff, List.mem_filter, List.mem_map]
      constructor
      · rintro ⟨⟨d, hd, rfl⟩, heffect⟩
        exact ⟨d, hd, OverrideDraft.hasEffect_override.1 heffect, rfl⟩
      · rintro ⟨d, hd, heffect, rfl⟩
        exact ⟨⟨d, hd, rfl⟩, OverrideDraft.hasEffect_override.2 heffect⟩
    have hdistinct : (os.map Override.target).Nodup := by
      rw [hcanonical]
      exact rules.nodup_canonical hvalid.distinct_override
    refine ⟨fun d hd heffect => ?_, fun o ho => (hmem o).1 ho, ?_, hvalid.normalize_canonical hcanonical⟩
    · exact Override.filter_target_of_mem hdistinct ((hmem d.override).2 ⟨d, hd, heffect, rfl⟩)
    · rw [hcanonical]
      exact canonical_precedes hvalid.distinct_override
  case respelled =>
    exact fun ds' hperm os => ⟨normalize_of_perm hperm.symm, normalize_of_perm hperm⟩

/-! ## Meaning -/

theorem apply_of_hasEffect_eq_false {o : Override} (h : hasEffect o = false) (s : PermissionSet) :
    o.apply s = s := by
  have hnone : ¬ ∃ p, p ∈ o.allow ∨ p ∈ o.deny := by
    rw [← hasEffect_iff, h]
    exact Bool.false_ne_true
  simp only [not_exists, not_or] at hnone
  refine PermissionSet.ext fun p => ?_
  simp [Override.apply, hnone p]

/-- Overrides without effect can be dropped. -/
theorem applyLayer_filter_hasEffect (os : List Override) :
    applyLayer (os.filter hasEffect) = applyLayer os := by
  funext s t
  simp only [applyLayer, List.filter_filter]
  induction os generalizing s with
  | nil => rfl
  | cons o os ih =>
    by_cases ht : o.target = t
    · cases heffect : hasEffect o with
      | true => simp [ht, heffect, ih]
      | false => simp [ht, heffect, ih, apply_of_hasEffect_eq_false heffect]
    · simp [ht, ih]

/-- Overrides with distinct targets do the same in canonical form. -/
theorem applyLayer_canonical (rules : OverrideRules) (hdistinct : (os.map Override.target).Nodup) :
    applyLayer (rules.canonical os) = applyLayer os := by
  have hdistinct' : ((os.filter hasEffect).map Override.target).Nodup :=
    hdistinct.sublist (List.filter_sublist.map _)
  calc
    applyLayer (rules.canonical os) = applyLayer (os.filter hasEffect) :=
      (Override.rearranged_of_perm hdistinct' (rules.canonical_perm os)).applyLayer_eq
    _ = applyLayer os := applyLayer_filter_hasEffect os

/-- Normalization keeps the meaning of a submission: in any channel, whatever the default role that the
overrides are sorted by and whatever the one that permissions are resolved with, the overrides as they
are submitted and the normalized ones give every member the same permissions and the same decisions. -/
theorem normalize_preserves_meaning (h : rules.normalize ds = .ok os) (m : Member) (roles : List Role)
    (everyone : Option Role) (c : Channel) :
    m.resolve roles everyone (some (c.withOverrides (ds.map OverrideDraft.override))) =
        m.resolve roles everyone (some (c.withOverrides os)) ∧
      ∀ p, m.authorize p roles everyone (some (c.withOverrides (ds.map OverrideDraft.override))) =
        m.authorize p roles everyone (some (c.withOverrides os)) := by
  obtain ⟨hvalid, rfl⟩ := normalize_eq_ok_iff_valid.1 h
  have hlayers := (rules.applyLayer_canonical hvalid.distinct_override).symm
  exact ⟨Member.resolve_withOverrides_congr hlayers c,
    Member.authorize_withOverrides_congr hlayers c⟩

end OverrideRules

/-! ## An example -/

namespace Example

/-- The rules for a channel of server 1 that is owned by user 9. They know no default role. -/
def houseRules : OverrideRules := ⟨some 9, none, [10, 20, 30], 5⟩

/-- Overrides in no order, one of which repeats a permission and one of which has no effect. -/
def proposal : List OverrideDraft :=
  [⟨.member 7, [.addReactions], []⟩,
    ⟨.role 30, [.embedLinks, .embedLinks], [.sendMessages]⟩,
    ⟨.role 20, [], []⟩,
    ⟨.role 10, [], [.embedLinks]⟩]

/-- What is stored for `proposal`. -/
def adopted : List Override :=
  [⟨.role 10, ∅, .ofList [.embedLinks]⟩,
    ⟨.role 30, .ofList [.embedLinks], .ofList [.sendMessages]⟩,
    ⟨.member 7, .ofList [.addReactions], ∅⟩]

end Example

theorem OverrideRules.normalize_exact_proposal :
    Example.houseRules.normalize Example.proposal = .ok Example.adopted ∧
      Example.houseRules.Valid Example.proposal ∧
      Example.adopted.filter (·.target == .role 30) =
        [⟨.role 30, .ofList [.embedLinks], .ofList [.sendMessages]⟩] ∧
      Example.adopted.Pairwise (fun o p => Example.houseRules.Precedes o.target p.target) ∧
      Example.houseRules.normalize (Example.adopted.map Override.draft) = .ok Example.adopted ∧
      Example.houseRules.normalize Example.proposal.reverse = .ok Example.adopted := by
  have hnormalize : Example.houseRules.normalize Example.proposal = .ok Example.adopted := by
    decide +kernel
  obtain ⟨hvalid, -, hresult, hrespelled⟩ :=
    OverrideRules.normalize_exact Example.houseRules Example.proposal
  obtain ⟨hone, -, hordered, hagain⟩ := hresult _ hnormalize
  have hreversed : (Example.proposal.reverse.map OverrideDraft.override).Perm
      (Example.proposal.map OverrideDraft.override) := (List.reverse_perm _).map _
  exact ⟨hnormalize, hvalid.1 ⟨_, hnormalize⟩,
    hone ⟨.role 30, [.embedLinks, .embedLinks], [.sendMessages]⟩ (by simp [Example.proposal]) (by simp),
    hordered, hagain, (hrespelled _ hreversed _).2 hnormalize⟩

theorem OverrideRules.normalize_preserves_meaning_clerk :
    Example.houseRules.normalize Example.proposal = .ok Example.adopted ∧
      Example.clerk.resolve Example.ranks (some Example.everyone)
          (some (Example.corridor.withOverrides (Example.proposal.map OverrideDraft.override))) =
        Example.clerk.resolve Example.ranks (some Example.everyone)
          (some (Example.corridor.withOverrides Example.adopted)) ∧
      ∀ p, Example.clerk.authorize p Example.ranks (some Example.everyone)
          (some (Example.corridor.withOverrides (Example.proposal.map OverrideDraft.override))) =
        Example.clerk.authorize p Example.ranks (some Example.everyone)
          (some (Example.corridor.withOverrides Example.adopted)) := by
  have hnormalize : Example.houseRules.normalize Example.proposal = .ok Example.adopted := by
    decide +kernel
  exact ⟨hnormalize, OverrideRules.normalize_preserves_meaning hnormalize Example.clerk Example.ranks
    (some Example.everyone) Example.corridor⟩

end Guildhall
