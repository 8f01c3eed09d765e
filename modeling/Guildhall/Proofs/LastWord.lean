-- SUMMARY: In a channel, the last override that names a permission decides on it: layer by layer, up the ranks, the member last.
import Guildhall.Proofs.Resolution
import Mathlib.Data.List.Sort

/-!
# The last word

In a text channel a member starts from what they may do in the server as a whole. Then the overrides
about the default role speak, those about each role that they hold, the lowest ranked first, and those
about themself. `Member.resolve_channel_iff` says that on every permission the last of these overrides
that names it has the last word; the administrator permission is out of their reach.

The roles stand in one order only, however the list has them and however often: `Member.Ladder`
describes it, and `Member.ladder_heldRoles` says that it is the order in which resolution takes them.
-/

namespace Guildhall

/-! ## One override after another -/

/-- Whether the override allows or denies the permission. -/
def Override.Names (o : Override) (p : Permission) : Prop := p ∈ o.allow ∨ p ∈ o.deny

/-- Whether the override is the last one of the list that names the permission. -/
def Override.Concludes (o : Override) (p : Permission) (os : List Override) : Prop :=
  ∃ before after, os = before ++ o :: after ∧ o.Names p ∧ ∀ q ∈ after, ¬ q.Names p

namespace Override

variable {o q : Override} {os : List Override} {p : Permission} {s : PermissionSet}

theorem mem_reach : p ∈ reach ↔ p ≠ .administrator := by
  rw [reach, PermissionSet.mem_compl, PermissionSet.mem_singleton]

/-- What an override allows, it allows even if it denies it too. -/
theorem mem_apply (hp : p ≠ .administrator) : p ∈ o.apply s ↔ p ∈ o.allow ∨ p ∉ o.deny ∧ p ∈ s := by
  simp only [apply, PermissionSet.mem_union, PermissionSet.mem_sdiff, PermissionSet.mem_inter,
    mem_reach, hp, ne_eq, not_false_eq_true, and_true]
  tauto

theorem administrator_mem_foldl_apply :
    .administrator ∈ os.foldl (fun s o => o.apply s) s ↔ .administrator ∈ s := by
  induction os generalizing s with
  | nil => rfl
  | cons o os ih =>
    rw [List.foldl_cons, ih]
    simp [apply, mem_reach]

/-- Another override in front has the last word only where no other one speaks. -/
theorem concludes_cons : q.Concludes p (o :: os) ↔
    q.Concludes p os ∨ q = o ∧ o.Names p ∧ ∀ x ∈ os, ¬ x.Names p := by
  constructor
  · rintro ⟨before, after, hsplit, hq, hafter⟩
    cases before with
    | nil =>
      obtain ⟨rfl, rfl⟩ := List.cons.inj hsplit
      exact .inr ⟨rfl, hq, hafter⟩
    | cons x before =>
      obtain ⟨rfl, rfl⟩ := List.cons.inj hsplit
      exact .inl ⟨before, after, rfl, hq, hafter⟩
  · rintro (⟨before, after, rfl, hq, hafter⟩ | ⟨rfl, hq, hafter⟩)
    · exact ⟨o :: before, after, rfl, hq, hafter⟩
    · exact ⟨[], os, rfl, hq, hafter⟩

/-- Of overrides that apply one after another, the last one that names a permission decides on it;
without one, the permission stays as it was. -/
theorem mem_foldl_apply (hp : p ≠ .administrator) :
    p ∈ os.foldl (fun s o => o.apply s) s ↔
      (∃ o : Override, o.Concludes p os ∧ p ∈ o.allow) ∨ (∀ o ∈ os, ¬ o.Names p) ∧ p ∈ s := by
  induction os generalizing s with
  | nil => simp [Concludes]
  | cons o os ih =>
    rw [List.foldl_cons, ih, mem_apply hp]
    constructor
    · rintro (⟨q, hq, hallow⟩ | ⟨hlater, hs⟩)
      · exact .inl ⟨q, concludes_cons.2 (.inl hq), hallow⟩
      · by_cases hallow : p ∈ o.allow
        · exact .inl ⟨o, concludes_cons.2 (.inr ⟨rfl, .inl hallow, hlater⟩), hallow⟩
        · obtain ⟨hdeny, hs⟩ := hs.resolve_left hallow
          exact .inr ⟨List.forall_mem_cons.2 ⟨not_or.2 ⟨hallow, hdeny⟩, hlater⟩, hs⟩
    · rintro (⟨q, hq, hallow⟩ | ⟨hnone, hs⟩)
      · obtain hq | ⟨rfl, -, hlater⟩ := concludes_cons.1 hq
        · exact .inl ⟨q, hq, hallow⟩
        · exact .inr ⟨hlater, .inl hallow⟩
      · obtain ⟨ho, hlater⟩ := List.forall_mem_cons.1 hnone
        exact .inr ⟨hlater, .inr ⟨fun hdeny => ho (.inr hdeny), hs⟩⟩

end Override

/-! ## The order of the roles -/

/-- Whether a role ranks below another one: by position, then by id. -/
def Role.RanksBelow (r q : Role) : Prop :=
  r.position < q.position ∨ r.position = q.position ∧ r.id < q.id

namespace Role

variable {r q p : Role}

theorem ranksBelow_iff : r.RanksBelow q ↔ q.rankLe r = false := by
  rw [← Bool.not_eq_true, rankLe_iff]
  simp only [RanksBelow, Int32.lt_iff_toInt_lt, ← Int32.toInt_inj, Id.lt_iff, Id.le_iff]
  omega

theorem RanksBelow.of_rankLe (h : r.rankLe q = true) (hid : r.id ≠ q.id) : r.RanksBelow q := by
  rw [ranksBelow_iff, ← Bool.not_eq_true]
  exact fun hle => hid (id_eq_of_rankLe h hle)

theorem RanksBelow.trans_rankLe (h : r.RanksBelow q) (hle : q.rankLe p = true) : r.RanksBelow p := by
  rw [ranksBelow_iff, ← Bool.not_eq_true] at *
  exact fun hpr => h (rankLe_trans q p r hle hpr)

theorem not_ranksBelow_self (r : Role) : ¬ r.RanksBelow r := by
  simp [ranksBelow_iff, rankLe_iff, Id.le_iff]

theorem RanksBelow.not_ranksBelow (h : r.RanksBelow q) : ¬ q.RanksBelow r := by
  rw [ranksBelow_iff] at *
  intro h'
  have := rankLe_total r q
  simp [h, h'] at this

end Role

/-- Where roles stand in order, each is left once. -/
private theorem pairwise_eraseRepsBy {a : Role} {as : List Role} (hids : IdsIdentify (a :: as))
    (h : (a :: as).Pairwise (·.rankLe · = true)) :
    ((a :: as).eraseRepsBy (·.id == ·.id)).Pairwise Role.RanksBelow := by
  induction as generalizing a with
  | nil => exact List.pairwise_singleton _ a
  | cons b bs ih =>
    obtain ⟨ha, hbs⟩ := List.pairwise_cons.1 h
    rw [eraseRepsBy_cons_cons]
    split
    · refine ih (hids.of_subset ?_) (h.sublist ?_)
      · exact List.cons_subset_cons a (List.subset_cons_self b bs)
      · exact (List.sublist_cons_self b bs).cons_cons a
    · rename_i hab
      have hb : a.RanksBelow b := .of_rankLe (ha b List.mem_cons_self) (by simpa using hab)
      have hids' : IdsIdentify (b :: bs) := hids.of_subset (List.subset_cons_self a _)
      refine List.pairwise_cons.2 ⟨?_, ih hids' hbs⟩
      intro c hc
      obtain rfl | hc := List.mem_cons.1 ((mem_eraseRepsBy fun x hx y hy hxy =>
        hids' x hx y hy (by simpa using hxy)).1 hc)
      · exact hb
      · exact hb.trans_rankLe ((List.pairwise_cons.1 hbs).1 c hc)

namespace Member

variable {m : Member} {roles : List Role} {e : Role} {p : Permission} {c : Channel}

/-- Whether the list has the roles that count for the member besides the default role, from the
lowest ranked to the highest, each once. -/
structure Ladder (m : Member) (roles : List Role) (e : Role) (held : List Role) : Prop where
  ascending : held.Pairwise Role.RanksBelow
  members : ∀ r, r ∈ held ↔ r ∈ roles ∧ r.server = m.server ∧ r.isDefault = false ∧ r.id ≠ e.id ∧
    m.holds r.id = true

/-- There is one such list at most. -/
theorem Ladder.unique {held held' : List Role} (h : m.Ladder roles e held)
    (h' : m.Ladder roles e held') : held' = held := by
  have : Std.Irrefl Role.RanksBelow := ⟨Role.not_ranksBelow_self⟩
  have : Std.Antisymm Role.RanksBelow := ⟨fun _ _ hrq hqr => absurd hqr hrq.not_ranksBelow⟩
  exact h'.ascending.eq_of_mem_iff h.ascending fun r => by rw [h'.members, h.members]

theorem ladder_heldRoles (hids : IdsIdentify roles) : m.Ladder roles e (m.heldRoles roles e) where
  ascending := by
    have hids' : IdsIdentify (sortBy Role.rankLe (roles.filter (m.heldBeside e))) :=
      hids.of_subset fun r hr => (List.mem_filter.1 (mem_sortBy.1 hr)).1
    have hsorted := sortBy_pairwise Role.rankLe_total Role.rankLe_trans
      (roles.filter (m.heldBeside e))
    rw [heldRoles]
    cases hcases : sortBy Role.rankLe (roles.filter (m.heldBeside e)) with
    | nil => exact .nil
    | cons r rs =>
      rw [hcases] at hids' hsorted
      exact pairwise_eraseRepsBy hids' hsorted
  members r := by
    rw [mem_heldRoles hids, heldBeside_iff]
    tauto

/-! ## Channels -/

/-- The overrides of a channel that concern the member, in the order in which they speak. -/
def inTurn (m : Member) (e : Role) (held : List Role) (c : Channel) : List Override :=
  c.overrides.filter (·.target == .role e.id) ++
    held.flatMap (fun r => c.overrides.filter (·.target == .role r.id)) ++
    c.overrides.filter (·.target == .member m.user)

theorem applyOverrides_eq_foldl (m : Member) (e : Role) (held : List Role) (c : Channel)
    (base : PermissionSet) : m.applyOverrides e held c.overrides base =
      (m.inTurn e held c).foldl (fun s o => o.apply s) base := by
  have hlayers : m.inTurn e held c =
      (m.layers e held).flatMap fun t => c.overrides.filter (·.target == t) := by
    simp only [inTurn, layers, List.cons_append, List.flatMap_cons, List.flatMap_append,
      List.flatMap_map, List.flatMap_nil, List.append_nil, List.append_assoc]
  rw [hlayers, List.foldl_flatMap]
  rfl

/-- What a member who does not own the server may do in a text channel of it: everything, if they
are an administrator; otherwise the last override that names a permission has the last word on it,
and where none does it is as in the server as a whole. -/
theorem resolve_channel_iff (hids : IdsIdentify roles) (howner : m.isOwner = false)
    (hdefault : e.isDefault = true) (hserver : e.server = m.server) (htext : c.kind = .text)
    (hchannel : c.server = some m.server) :
    (.administrator ∈ m.resolve roles (some e) none → m.resolve roles (some e) (some c) = .full) ∧
    (.administrator ∉ m.resolve roles (some e) none →
      .administrator ∉ m.resolve roles (some e) (some c) ∧
      ∃ held, m.Ladder roles e held ∧ (∀ other, m.Ladder roles e other → other = held) ∧
        ∀ p ≠ .administrator, p ∈ m.resolve roles (some e) (some c) ↔
          (∃ o, Override.Concludes o p (m.inTurn e held c) ∧ p ∈ o.allow) ∨
            (∀ o ∈ m.inTurn e held c, ¬ o.Names p) ∧ p ∈ m.resolve roles (some e) none) := by
  have heveryone : m.usableEveryone (some e) = some e :=
    usableEveryone_eq_some.2 ⟨rfl, hdefault, hserver⟩
  have hwithin : m.Within (some c) := within_some (by simp [Channel.isDm, htext]) hchannel
  have hladder := ladder_heldRoles (m := m) (e := e) hids
  rw [resolve_of_within hwithin, resolve_of_within m.within_none]
  simp only [resolveInServer, howner, heveryone, Option.map_some, Option.map_none,
    Bool.false_eq_true, if_false]
  cases hadmin : (basePermissions e (m.heldRoles roles e)).isAdmin with
  | true => simp
  | false =>
    have hbase : .administrator ∉ basePermissions e (m.heldRoles roles e) := by
      rw [← PermissionSet.isAdmin_eq_true, hadmin]
      exact Bool.false_ne_true
    simp only [Bool.false_eq_true, if_false, applyOverrides_eq_foldl]
    refine ⟨fun h => absurd h hbase, fun _ => ⟨?_, m.heldRoles roles e, hladder, ?_, ?_⟩⟩
    · rwa [Override.administrator_mem_foldl_apply]
    · exact fun other h => hladder.unique h
    · exact fun p hp => Override.mem_foldl_apply hp

end Member

/-! ## An example -/

namespace Example

/-- User 7 with two roles of server 1. -/
def clerk : Member := ⟨7, 1, [20, 30], false⟩

def everyone : Role := ⟨10, 1, "@everyone", none, 0, .ofList [.viewChannel, .sendMessages], true⟩

/-- The roles of server 1, out of order, and one of them twice. -/
def ranks : List Role :=
  [⟨20, 1, "scribe", none, 3, ∅, false⟩, ⟨30, 1, "guest", none, 3, ∅, false⟩, everyone,
    ⟨20, 1, "scribe", none, 3, ∅, false⟩, ⟨50, 1, "warden", none, 9, ∅, false⟩]

/-- A channel in which the roles of user 7 contradict each other; of two roles at one position the
greater id speaks later. -/
def corridor : Channel :=
  ⟨70, some 1, .text, some "corridor", [],
    [⟨.role 30, .ofList [.embedLinks], .ofList [.sendMessages]⟩,
      ⟨.role 20, .ofList [.sendMessages, .administrator], .ofList [.embedLinks]⟩,
      ⟨.role 50, ∅, .ofList [.viewChannel]⟩,
      ⟨.role 10, ∅, .ofList [.embedLinks]⟩,
      ⟨.member 7, .ofList [.addReactions], .ofList [.addReactions]⟩]⟩

end Example

theorem Member.resolve_channel_iff_clerk :
    .administrator ∉ Example.clerk.resolve Example.ranks (some Example.everyone) none ∧
      (Example.clerk.resolve Example.ranks (some Example.everyone) (some Example.corridor)).toList =
        [.viewChannel, .embedLinks, .addReactions] ∧
      ∃ held, Example.clerk.Ladder Example.ranks Example.everyone held ∧
        ∀ p ≠ .administrator,
          p ∈ Example.clerk.resolve Example.ranks (some Example.everyone) (some Example.corridor) ↔
            (∃ o, Override.Concludes o p (Example.clerk.inTurn Example.everyone held Example.corridor) ∧
              p ∈ o.allow) ∨
            (∀ o ∈ Example.clerk.inTurn Example.everyone held Example.corridor, ¬ o.Names p) ∧
              p ∈ Example.clerk.resolve Example.ranks (some Example.everyone) none := by
  have hids : IdsIdentify Example.ranks := by
    unfold IdsIdentify
    decide +kernel
  have hbase : .administrator ∉ Example.clerk.resolve Example.ranks (some Example.everyone) none := by
    decide +kernel
  obtain ⟨-, held, hladder, -, hiff⟩ :=
    (Member.resolve_channel_iff (m := Example.clerk) (e := Example.everyone) (c := Example.corridor)
      hids rfl rfl rfl rfl rfl).2 hbase
  exact ⟨hbase, by decide +kernel, held, hladder, hiff⟩

end Guildhall
