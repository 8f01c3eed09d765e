-- SUMMARY: Which override submissions are accepted, and what their canonical form is.
import Guildhall.Proofs.Codecs
import Guildhall.Proofs.Warrants

/-!
# Normalization

`OverrideRules.normalize_eq_ok` is the specification of normalization: it accepts the submissions
of bounded length whose drafts have distinct targets and are all in order by themselves
(`OverrideRules.Accepts`), and it returns the overrides that the drafts stand for, without those
that have no effect, in the order of `OverrideRules.targetLe`. Where the targets are distinct, that is
the strict order `OverrideRules.Precedes`, and the result does not depend on the order of the drafts
(`OverrideRules.canonical_congr`). A list that is in this form already is returned as it is
(`OverrideRules.normalize_draft`).
-/

namespace Guildhall

/-- The override that a draft stands for. -/
def OverrideDraft.override (d : OverrideDraft) : Override :=
  ⟨d.target, .ofList d.allow, .ofList d.deny⟩

theorem Override.override_draft (o : Override) : o.draft.override = o := by
  simp [Override.draft, OverrideDraft.override, PermissionSet.ofList_toList]

namespace OverrideRules

variable {rules : OverrideRules}

/-! ## Drafts -/

/-- Whether an override may be about the target. -/
def Permits (rules : OverrideRules) (t : Target) : Prop :=
  match t.kind with
  | .member => some t.id ≠ rules.owner
  | .role => t.id ∈ rules.roles

/-- Whether a draft is in order by itself. -/
structure Accepts (rules : OverrideRules) (d : OverrideDraft) : Prop where
  target : rules.Permits d.target
  noAdmin : .administrator ∉ d.allow ∧ .administrator ∉ d.deny
  disjoint : ∀ p ∈ d.allow, p ∉ d.deny

theorem checkTarget_eq_ok {t : Target} : rules.checkTarget t = .ok () ↔ rules.Permits t := by
  obtain ⟨kind, id⟩ := t
  cases kind with
  | member =>
    simp only [checkTarget, Permits]
    split
    · rename_i howner
      simp [howner]
    · rename_i hne
      simp [hne]
  | role =>
    simp only [checkTarget, Permits]
    split
    · rename_i hrole
      simpa using hrole
    · rename_i hnone
      simpa using hnone

theorem checkDraft_eq_ok {d : OverrideDraft} {o : Override} :
    rules.checkDraft d = .ok o ↔ rules.Accepts d ∧ o = d.override := by
  have hadmin : ¬ (PermissionSet.ofList d.allow ∪ PermissionSet.ofList d.deny).isAdmin = true ↔
      .administrator ∉ d.allow ∧ .administrator ∉ d.deny := by
    simp
  have hdisjoint : ¬ (!(PermissionSet.ofList d.allow ∩ PermissionSet.ofList d.deny).isEmpty) = true ↔
      ∀ p ∈ d.allow, p ∉ d.deny := by
    simp [PermissionSet.isEmpty_iff]
  simp only [checkDraft, bind_eq_ok, guard_eq_ok, pure_eq_ok, hadmin, hdisjoint]
  constructor
  · rintro ⟨⟨⟩, htarget, hno, hdis, rfl⟩
    exact ⟨⟨checkTarget_eq_ok.1 htarget, hno, hdis⟩, rfl⟩
  · rintro ⟨⟨htarget, hno, hdis⟩, rfl⟩
    exact ⟨(), checkTarget_eq_ok.2 htarget, hno, hdis, rfl⟩

/-- The targets are distinct from each other and from those seen before. -/
theorem checkDrafts_eq_ok {seen : List Target} {ds : List OverrideDraft} {os : List Override} :
    rules.checkDrafts seen ds = .ok os ↔
      (ds.map OverrideDraft.target).Nodup ∧ (∀ d ∈ ds, d.target ∉ seen) ∧
        (∀ d ∈ ds, rules.Accepts d) ∧ os = ds.map OverrideDraft.override := by
  induction ds generalizing seen os with
  | nil => simp [checkDrafts, eq_comm]
  | cons d ds ih =>
    simp only [checkDrafts, bind_eq_ok, guard_eq_ok, pure_eq_ok, checkDraft_eq_ok, ih,
      List.contains_iff_mem, List.map_cons, List.nodup_cons, List.mem_map, List.mem_cons,
      forall_eq_or_imp, not_or, not_exists, not_and]
    constructor
    · rintro ⟨hseen, o, ⟨hd, rfl⟩, os, ⟨hnodup, hnew, hds, rfl⟩, rfl⟩
      exact ⟨⟨fun e he => (hnew e he).1, hnodup⟩, ⟨hseen, fun e he => (hnew e he).2⟩, ⟨hd, hds⟩, rfl⟩
    · rintro ⟨⟨hne, hnodup⟩, ⟨hseen, hnew⟩, ⟨hd, hds⟩, rfl⟩
      exact ⟨hseen, _, ⟨hd, rfl⟩, _, ⟨hnodup, fun e he => ⟨hne e he, hnew e he⟩, hds, rfl⟩, rfl⟩

/-! ## The canonical form -/

/-- The overrides with an effect, in canonical order. -/
def canonical (rules : OverrideRules) (os : List Override) : List Override :=
  sortBy (fun o p => rules.targetLe o.target p.target) (os.filter hasEffect)

theorem hasEffect_iff {o : Override} : hasEffect o = true ↔ ∃ p, p ∈ o.allow ∨ p ∈ o.deny := by
  have hnone : (o.allow.isEmpty && o.deny.isEmpty) = true ↔ ¬ ∃ p, p ∈ o.allow ∨ p ∈ o.deny := by
    simp [PermissionSet.isEmpty_iff, forall_and]
  rw [hasEffect, Bool.not_eq_true', Bool.eq_false_iff, ne_eq, hnone, not_not]

theorem targetLe_iff {t u : Target} : rules.targetLe t u = true ↔
    rules.group t < rules.group u ∨ rules.group t = rules.group u ∧ t.id ≤ u.id := by
  simp [targetLe]

theorem targetLe_total (t u : Target) : (rules.targetLe t u || rules.targetLe u t) = true := by
  simp only [Bool.or_eq_true, targetLe_iff, Id.le_iff]
  omega

theorem targetLe_trans (t u v : Target) (htu : rules.targetLe t u = true)
    (huv : rules.targetLe u v = true) : rules.targetLe t v = true := by
  simp only [targetLe_iff, Id.le_iff] at htu huv ⊢
  omega

variable {os os' : List Override} {t u : Target}

theorem mem_canonical {o : Override} :
    o ∈ rules.canonical os ↔ o ∈ os ∧ ∃ p, p ∈ o.allow ∨ p ∈ o.deny := by
  rw [canonical, mem_sortBy, List.mem_filter, hasEffect_iff]

theorem canonical_pairwise :
    (rules.canonical os).Pairwise fun o p => rules.targetLe o.target p.target = true :=
  sortBy_pairwise (fun o p => targetLe_total o.target p.target)
    (fun o p q => targetLe_trans o.target p.target q.target) _

theorem length_canonical_le : (rules.canonical os).length ≤ os.length := by
  rw [canonical, (sortBy_perm _ _).length_eq]
  exact List.length_filter_le _ _

theorem nodup_canonical (rules : OverrideRules) (h : (os.map Override.target).Nodup) :
    ((rules.canonical os).map Override.target).Nodup :=
  ((sortBy_perm _ _).map _).nodup_iff.2 (h.sublist (List.filter_sublist.map _))

/-- Whether the target is the default role. -/
def IsEveryone (rules : OverrideRules) (t : Target) : Prop :=
  t.kind = .role ∧ some t.id = rules.everyone

/-- The order of the canonical form: the default role comes first, then roles come before members, and
then the ids decide. -/
def Precedes (rules : OverrideRules) (t u : Target) : Prop :=
  rules.IsEveryone t ∧ ¬ rules.IsEveryone u ∨
  (rules.IsEveryone t ↔ rules.IsEveryone u) ∧
    (t.kind = .role ∧ u.kind = .member ∨ t.kind = u.kind ∧ t.id < u.id)

/-- Of different targets, one precedes the other as it does in the sort. -/
theorem precedes_iff : rules.Precedes t u ↔ rules.targetLe t u = true ∧ t ≠ u := by
  -- between targets of one kind the ids decide, unless one of them is the default role
  obtain ⟨_ | _, a⟩ := t <;> obtain ⟨_ | _, b⟩ := u
  all_goals
    simp only [Precedes, IsEveryone, targetLe_iff, group]
    grind [Id.lt_iff, Id.le_iff, Id.toNat_injective]

theorem Precedes.asymm (h : rules.Precedes t u) : ¬ rules.Precedes u t := by
  unfold Precedes at *
  rintro (⟨hu, ht⟩ | ⟨heveryone, hut⟩)
  · obtain ⟨ht', -⟩ | ⟨heveryone, -⟩ := h
    · exact ht ht'
    · exact ht (heveryone.2 hu)
  · obtain ⟨ht, hu⟩ | ⟨-, htu⟩ := h
    · exact hu (heveryone.2 ht)
    · grind [Id.lt_iff]

/-- The canonical form is in strict order. -/
theorem canonical_precedes (hdistinct : (os.map Override.target).Nodup) :
    (rules.canonical os).Pairwise fun o p => rules.Precedes o.target p.target := by
  have hne : (rules.canonical os).Pairwise fun o p => o.target ≠ p.target :=
    List.pairwise_map.1 (rules.nodup_canonical hdistinct)
  exact (canonical_pairwise.and hne).imp precedes_iff.2

theorem canonical_perm (rules : OverrideRules) (os : List Override) :
    (rules.canonical os).Perm (os.filter hasEffect) := sortBy_perm _ _

/-- The order of overrides with distinct targets does not show in their canonical form. -/
theorem canonical_congr (hdistinct : (os.map Override.target).Nodup) (h : os'.Perm os) :
    rules.canonical os' = rules.canonical os := by
  have hdistinct' : (os'.map Override.target).Nodup := (h.map _).nodup_iff.2 hdistinct
  have hperm : (rules.canonical os').Perm (rules.canonical os) :=
    (rules.canonical_perm os').trans ((h.filter _).trans (rules.canonical_perm os).symm)
  exact hperm.eq_of_pairwise (fun o p _ _ hop hpo => absurd hpo hop.asymm)
    (canonical_precedes hdistinct') (canonical_precedes hdistinct)

/-- What is accepted, and what becomes of it. -/
theorem normalize_eq_ok {ds : List OverrideDraft} : rules.normalize ds = .ok os ↔
    ds.length ≤ rules.limit ∧ (ds.map OverrideDraft.target).Nodup ∧ (∀ d ∈ ds, rules.Accepts d) ∧
      os = rules.canonical (ds.map OverrideDraft.override) := by
  simp only [normalize, bind_eq_ok, guard_eq_ok, pure_eq_ok, checkDrafts_eq_ok, Nat.not_lt,
    List.not_mem_nil, not_false_eq_true, implies_true, true_and]
  constructor
  · rintro ⟨hlimit, os, ⟨hnodup, hds, rfl⟩, rfl⟩
    exact ⟨hlimit, hnodup, hds, rfl⟩
  · rintro ⟨hlimit, hnodup, hds, rfl⟩
    exact ⟨hlimit, _, ⟨hnodup, hds, rfl⟩, rfl⟩

/-- Overrides in canonical order, each with an effect, are returned as they are. -/
theorem normalize_draft (hlimit : os.length ≤ rules.limit)
    (hdistinct : (os.map Override.target).Nodup) (heach : ∀ o ∈ os, rules.Accepts o.draft)
    (heffect : ∀ o ∈ os, hasEffect o = true)
    (hordered : os.Pairwise fun o p => rules.targetLe o.target p.target = true) :
    rules.normalize (os.map Override.draft) = .ok os := by
  have hoverrides : (os.map Override.draft).map OverrideDraft.override = os := by
    simp [Function.comp_def, Override.override_draft]
  refine normalize_eq_ok.2 ⟨?_, ?_, ?_, ?_⟩
  · rwa [List.length_map]
  · rwa [List.map_map]
  · intro d hd
    obtain ⟨o, ho, rfl⟩ := List.mem_map.1 hd
    exact heach o ho
  · rw [hoverrides, canonical, List.filter_eq_self.2 heffect, sortBy_of_pairwise hordered]

end OverrideRules

end Guildhall
