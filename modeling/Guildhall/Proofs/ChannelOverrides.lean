-- SUMMARY: The overrides of all channels stay in canonical form, whatever requests come.
import Guildhall.Proofs.Integrity
import Guildhall.Proofs.Normalization
import Guildhall.Proofs.RankConfinement

/-!
# Overrides of channels

`Store.WellFormed` says of a list of overrides that it is canonical for a server: with distinct
targets that exist, in order, and each override with an effect. What the list refers to are other
records: roles, owners and which role is the default one. That they change does no harm
(`Store.WellFormed.of_follows`): the deletion of a role takes its overrides along, nobody comes to
own a server, and default roles stay what they are. A replacement is normalized against the
same records (`Store.wellFormed_of_normalize`), so the lists of all channels stay well-formed.
-/

namespace Guildhall

namespace Store

/-! ## Well-formed lists -/

/-- The canonical order of targets: the default role of the server comes first, then the other
roles by id, then members by id. -/
def Precedes (s : Store) (server : Id) : Target → Target → Prop
  | ⟨.role, a⟩, ⟨.role, b⟩ => s.DefaultId server a ∨ ¬ s.DefaultId server b ∧ a < b
  | ⟨.role, _⟩, ⟨.member, _⟩ => True
  | ⟨.member, _⟩, ⟨.role, _⟩ => False
  | ⟨.member, a⟩, ⟨.member, b⟩ => a < b

/-- Whether an override can stand in a channel of the server: it allows or denies something, and
nothing twice, it leaves administrators alone, and it is about a role of the server or about a
user who does not own it. -/
@[mk_iff]
structure Suits (s : Store) (server : Id) (o : Override) : Prop where
  disjoint : ∀ p, p ∈ o.allow → p ∉ o.deny
  effective : ∃ p, p ∈ o.allow ∨ p ∈ o.deny
  noAdmin : .administrator ∉ o.allow ∧ .administrator ∉ o.deny
  role : o.target.kind = .role → ∃ r ∈ s.roles, r.server = server ∧ r.id = o.target.id
  notOwner : ∀ m ∈ s.members, m.server = server → m.isOwner = true → o.target ≠ .member m.user

/-- Whether the overrides are canonical for a channel of the server. -/
@[mk_iff]
structure WellFormed (s : Store) (limit : Nat) (server : Id) (os : List Override) : Prop where
  distinct : (os.map Override.target).Nodup
  each : ∀ o ∈ os, s.Suits server o
  bounded : os.length ≤ limit
  ordered : os.Pairwise fun o p => s.Precedes server o.target p.target

/-- Whether the overrides of all channels of servers are canonical. -/
def ChannelsWellFormed (s : Store) (limit : Nat) : Prop :=
  ∀ c ∈ s.channels, ∀ server ∈ c.server, s.WellFormed limit server c.overrides

instance (s : Store) (server : Id) : ∀ t u, Decidable (s.Precedes server t u)
  | ⟨.role, a⟩, ⟨.role, b⟩ =>
    inferInstanceAs (Decidable (s.DefaultId server a ∨ ¬ s.DefaultId server b ∧ a < b))
  | ⟨.role, _⟩, ⟨.member, _⟩ => isTrue trivial
  | ⟨.member, _⟩, ⟨.role, _⟩ => isFalse id
  | ⟨.member, a⟩, ⟨.member, b⟩ => inferInstanceAs (Decidable (a < b))

instance (s : Store) (server : Id) (o : Override) : Decidable (s.Suits server o) :=
  decidable_of_iff _ (suits_iff s server o).symm

instance (s : Store) (limit : Nat) (server : Id) (os : List Override) :
    Decidable (s.WellFormed limit server os) :=
  decidable_of_iff _ (wellFormed_iff s limit server os).symm

instance (s : Store) (limit : Nat) : Decidable (s.ChannelsWellFormed limit) :=
  inferInstanceAs (Decidable (∀ c ∈ s.channels, ∀ server ∈ c.server, _))

section

variable {s s' : Store} {server : Id} {limit : Nat} {os : List Override}

/-- Only the default role matters for the order. -/
theorem precedes_congr (h : ∀ id, s'.DefaultId server id ↔ s.DefaultId server id) :
    ∀ t u, s'.Precedes server t u ↔ s.Precedes server t u
  | ⟨.role, _⟩, ⟨.role, _⟩ => by simp only [Precedes, h]
  | ⟨.role, _⟩, ⟨.member, _⟩ => .rfl
  | ⟨.member, _⟩, ⟨.role, _⟩ => .rfl
  | ⟨.member, _⟩, ⟨.member, _⟩ => .rfl

/-- Overrides can drop out of a well-formed list. -/
theorem WellFormed.sublist (h : s.WellFormed limit server os) {rest : List Override}
    (hsub : rest.Sublist os) : s.WellFormed limit server rest where
  distinct := h.distinct.sublist (hsub.map _)
  each o ho := h.each o (hsub.mem ho)
  bounded := Nat.le_trans hsub.length_le h.bounded
  ordered := h.ordered.sublist hsub

end

/-! ## Normalized lists -/

variable {s : Store} {server : Id} {limits : Limits} {os : List Override} {m : Member}

/-- Different targets stand in the canonical order of a server as in the one that its rules say. -/
theorem precedes_iff_of_ne {rules : OverrideRules}
    (hrules : ∀ id, some id = rules.everyone ↔ s.DefaultId server id) :
    ∀ {t u : Target}, t ≠ u → (s.Precedes server t u ↔ rules.Precedes t u) := by
  -- the two orders only differ on the default role itself, which a server puts before itself
  rintro ⟨_ | _, a⟩ ⟨_ | _, b⟩ hne
  all_goals
    simp only [Precedes, OverrideRules.Precedes, OverrideRules.IsEveryone, ← hrules]
    grind [Id.lt_iff, Id.toNat_injective]

theorem everyone_overrideRules_iff {id : Id} :
    some id = ((s.recordsOf m).overrideRules limits s).everyone ↔ s.DefaultId m.server id := by
  rw [ServerRecords.overrideRules, eq_comm, Option.map_eq_some_iff]
  simp only [everyone_recordsOf_eq_some, DefaultId]

/-- What normalization lets through suits the server that it was checked against. -/
theorem suits_of_accepts (h : s.OneOwner) {d : OverrideDraft}
    (hd : ((s.recordsOf m).overrideRules limits s).Accepts d)
    (heff : ∃ p, p ∈ d.override.allow ∨ p ∈ d.override.deny) : s.Suits m.server d.override := by
  have htarget := hd.target
  constructor
  case disjoint => simpa [OverrideDraft.override] using hd.disjoint
  case effective => exact heff
  case noAdmin => simpa [OverrideDraft.override] using hd.noAdmin
  case role =>
    intro hkind
    change d.target.kind = .role at hkind
    simp only [OverrideRules.Permits, hkind, ServerRecords.overrideRules, roles_recordsOf,
      List.mem_map, mem_serverRoles] at htarget
    obtain ⟨r, ⟨hr, hs⟩, hid⟩ := htarget
    exact ⟨r, hr, hs, hid⟩
  case notOwner =>
    intro n hn hs ho hnt
    change d.target = .member n.user at hnt
    simp only [OverrideRules.Permits, hnt, Target.member, ServerRecords.overrideRules,
      server_recordsOf, ← hs, (h.oneOwnerOf _).findOwner_eq_some.2 ⟨hn, rfl, ho⟩, Option.map_some, ne_eq,
      not_true_eq_false] at htarget

/-- A list that normalization returns is well-formed. -/
theorem wellFormed_of_normalize (h : s.OneOwner) {ds : List OverrideDraft}
    (hn : ((s.recordsOf m).overrideRules limits s).normalize ds = .ok os) :
    s.WellFormed limits.overridesPerChannel m.server os := by
  obtain ⟨hlimit, hnodup, hds, rfl⟩ := OverrideRules.normalize_eq_ok.1 hn
  have htargets : ((ds.map OverrideDraft.override).map Override.target).Nodup := by
    simpa [Function.comp_def, OverrideDraft.override] using hnodup
  have hdistinct :=
    OverrideRules.nodup_canonical ((s.recordsOf m).overrideRules limits s) htargets
  refine ⟨hdistinct, ?_, ?_, ?_⟩
  · intro o ho
    obtain ⟨hmem, heff⟩ := OverrideRules.mem_canonical.1 ho
    obtain ⟨d, hd, rfl⟩ := List.mem_map.1 hmem
    exact suits_of_accepts h (hds d hd) heff
  · refine Nat.le_trans OverrideRules.length_canonical_le ?_
    rwa [List.length_map]
  · refine (OverrideRules.canonical_precedes htargets).imp fun h => ?_
    exact (precedes_iff_of_ne (fun _ => everyone_overrideRules_iff)
      (OverrideRules.precedes_iff.1 h).2).2 h

/-! ## Single writes -/

end Store

/-- The deletion of a role leaves no override about it in the channels of the server. -/
theorem Write.ne_deleteRole_of_mem_onChannel {w : Write} {c : Channel} {o : Override} {server : Id}
    (hc : c.server = some server) (ho : o ∈ (w.onChannel c).overrides)
    (hkind : o.target.kind = .role) : w ≠ .deleteRole server o.target.id := by
  intro hw
  rw [hw] at ho
  simp only [onChannel, hc, if_true, Channel.prune, List.mem_filter, bne_iff_ne] at ho
  refine ho.2 ?_
  rw [Target.role, ← hkind]

namespace Store

variable {s s' : Store} {w : Write} {limits : Limits} {limit : Nat} {fresh user server : Id}
  {os : List Override}

/-- An override still suits a server after a write, unless its role was deleted. -/
theorem Suits.of_follows {o : Override} (h : s.Suits server o) (hf : s.Follows w s')
    (hkept : o.target.kind = .role → w ≠ .deleteRole server o.target.id) :
    s'.Suits server o where
  disjoint := h.disjoint
  effective := h.effective
  noAdmin := h.noAdmin
  role hkind := by
    obtain ⟨r, hr, hs, hid⟩ := h.role hkind
    obtain hdelete | ⟨r', hr', hid', hs', -⟩ := hf.deleted_or_kept hr
    · rw [hs, hid] at hdelete
      exact absurd hdelete (hkept hkind)
    · exact ⟨r', hr', hs'.trans hs, hid'.trans hid⟩
  notOwner n' hn' hs ho := by
    obtain ⟨n, hn, hon⟩ := hf.mem_members.1 hn'
    obtain ⟨huser, hserver, howner⟩ := Write.onMember_eq_some hon
    rw [huser]
    exact h.notOwner n hn (hserver ▸ hs) (howner ▸ ho)

/-- A well-formed list stays so while other records change, unless a role in it is deleted. -/
theorem WellFormed.of_follows (h : s.WellFormed limit server os)
    (hw : s.Entitles limits fresh user w) (ha : s.Admits w) (hf : s.Follows w s')
    (hkept : ∀ o ∈ os, o.target.kind = .role → w ≠ .deleteRole server o.target.id) :
    s'.WellFormed limit server os where
  distinct := h.distinct
  each o ho := (h.each o ho).of_follows hf (hkept o ho)
  bounded := h.bounded
  ordered := h.ordered.imp (precedes_congr (fun _ => defaultId_iff hw ha hf) _ _).2

theorem Entitles.of_replaceOverrides (hw : s.Entitles limits fresh user w) {c : Channel}
    (hc : c ∈ s.channels) (hs : c.server = some server) (hreplace : w = .replaceOverrides c.id os)
    (h : s.OneOwner) : s.WellFormed limits.overridesPerChannel server os := by
  cases hw with
  | inServer member permitted warranted =>
    cases warranted with
    | createRole | updateRole | moveRole | deleteRole | assignRole | unassignRole
    | removeMember => cases hreplace
  | @inChannel m d ds overrides channel text dserver member permitted normal keeps =>
    injection hreplace with hid hos
    obtain ⟨hd, -⟩ := Table.get?_eq_some_iff.1 channel
    have hdc : d = c := Table.eq_of_key_eq hd hc hid
    rw [hdc, hs, Option.some.injEq] at dserver
    rw [dserver, ← hos]
    exact wellFormed_of_normalize h normal

/-- A write that its sender is entitled to keeps the overrides of all channels well-formed. -/
theorem ChannelsWellFormed.of_follows (h : s.ChannelsWellFormed limits.overridesPerChannel)
    (ho : s.OneOwner) (hw : s.Entitles limits fresh user w) (ha : s.Admits w)
    (hf : s.Follows w s') : s'.ChannelsWellFormed limits.overridesPerChannel := by
  intro c' hc' server hs'
  obtain ⟨c, hc, rfl⟩ := hf.mem_channels.1 hc'
  rw [Write.server_onChannel] at hs'
  have hbefore : s.WellFormed limits.overridesPerChannel server (w.onChannel c).overrides := by
    obtain hsub | ⟨os, hreplace, hos⟩ := w.overrides_onChannel_cases c
    · exact (h c hc server hs').sublist hsub
    · rw [hos]
      exact hw.of_replaceOverrides hc hs' hreplace ho
  exact hbefore.of_follows hw ha hf fun o hmem hkind =>
    Write.ne_deleteRole_of_mem_onChannel hs' hmem hkind

end Store

/-! ## An example -/

namespace Example

/-- A text channel that guards can read and manage, and the newcomer can read. -/
def guardroom : Channel :=
  ⟨51, some 1, .text, some "guardroom", [],
    [⟨.role 10, ∅, .ofList [.viewChannel]⟩,
     ⟨.role 30, .ofList [.viewChannel, .manageChannel], ∅⟩,
     ⟨.member 8, .ofList [.viewChannel], .ofList [.sendMessages]⟩]⟩

/-- Server 1 with the guardroom. -/
def guarded : Store := { store with channels := .ofList [guardroom] }

/-- The guards are dismissed. -/
def dismissal : List (Moment × Http.Request) := [(moment, assignment 8), (moment, deletion)]

end Example

/-! ## Runs -/

namespace Service

variable {v : Service} {s : Store} {requests : List (Moment × Http.Request)}

/-- Whatever requests come, from whomever, the overrides of all channels stay well-formed. -/
theorem channelsWellFormed_after (ho : s.OneOwner)
    (h : s.ChannelsWellFormed v.limits.overridesPerChannel) :
    (v.after s requests).ChannelsWellFormed v.limits.overridesPerChannel := by
  have hboth : (v.after s requests).OneOwner ∧
      (v.after s requests).ChannelsWellFormed v.limits.overridesPerChannel := by
    refine after_keeps
      (I := fun s => s.OneOwner ∧ s.ChannelsWellFormed v.limits.overridesPerChannel)
      (sentBy_anyone v requests) ?_ ⟨ho, h⟩
    rintro s₁ s₂ sender fresh w ⟨ho₁, h₁⟩ - hw ha hf
    exact ⟨ho₁.of_follows hf, h₁.of_follows ho₁ hw ha hf⟩
  exact hboth.2

theorem channelsWellFormed_after_dismissal :
    Example.guarded.OneOwner ∧
      Example.guarded.ChannelsWellFormed Example.service.limits.overridesPerChannel ∧
      (Example.service.after Example.guarded Example.dismissal).ChannelsWellFormed
        Example.service.limits.overridesPerChannel := by
  have howner : Example.guarded.OneOwner := by decide +kernel
  have hlists : Example.guarded.ChannelsWellFormed Example.service.limits.overridesPerChannel := by
    decide +kernel
  exact ⟨howner, hlists, channelsWellFormed_after howner hlists⟩

end Service

end Guildhall
