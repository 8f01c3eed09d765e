-- SUMMARY: What of a seed file reaches the store that starts with it: all roles, and of records with one key the last one.
import Guildhall.Fixture
import Guildhall.Proofs.Warrants
import Guildhall.Proofs.WireRecords
import Mathlib.Data.List.Perm.Subperm

/-!
# Seeding

A store that starts with a seed file is made by putting the listed records into it one after
another, each into the place of an earlier one with its key. So the store holds what the file lists
just if no key comes twice (`Table.size_ofList_eq_length`). The check of a seed file looks for this
among the roles only: `Fixture.holds_store_iff` says that an accepted file is loaded as listed just if
its members and its channels have distinct keys as well, and what becomes of records that share one.
-/

namespace Guildhall

/-! ## Tables of listed records -/

namespace Table

variable {α κ : Type} [Keyed α κ] [DecidableEq κ] {t : Table α} {a : α} {as : List α} {k : κ}

theorem get?_insert : (t.insert a).get? k = if key a = k then some a else t.get? k := by
  apply Option.ext
  intro b
  rw [get?_eq_some_iff, mem_insert]
  split
  · rename_i hk
    simp only [Option.some.injEq]
    constructor
    · rintro ⟨rfl | ⟨-, hne⟩, hb⟩
      · rfl
      · exact absurd (hb.trans hk.symm) hne
    · rintro rfl
      exact ⟨.inl rfl, hk⟩
  · rename_i hk
    rw [get?_eq_some_iff]
    constructor
    · rintro ⟨rfl | ⟨hb, -⟩, hbk⟩
      · exact absurd hbk hk
      · exact ⟨hb, hbk⟩
    · rintro ⟨hb, rfl⟩
      exact ⟨.inr ⟨hb, fun h => hk h.symm⟩, rfl⟩

/-- Of the listed records with a key the table holds the last one. -/
theorem get?_ofList (as : List α) (k : κ) : (ofList as).get? k = as.reverse.find? (key · == k) := by
  have hfold : ∀ t : Table α,
      (as.foldl insert t).get? k = (as.reverse.find? (key · == k)).or (t.get? k) := by
    induction as with
    | nil => simp
    | cons a as ih =>
      intro t
      rw [List.foldl_cons, ih, get?_insert, List.reverse_cons, List.find?_append, Option.or_assoc]
      by_cases hk : key a = k
      · simp [hk]
      · simp [hk]
  rw [ofList, hfold]
  exact Option.or_none

theorem mem_of_mem_ofList (h : a ∈ ofList as) : a ∈ as := by
  have hget : (ofList as).get? (key a) = some a := get?_eq_some_iff.2 ⟨h, rfl⟩
  rw [get?_ofList] at hget
  exact List.mem_reverse.1 (List.mem_of_find?_eq_some hget)

/-- Of the listed records with one key, one is in the table. -/
theorem exists_mem_ofList (h : a ∈ as) : ∃ b ∈ ofList as, key b = key a := by
  cases hget : (ofList as).get? (key a) with
  | some b => exact ⟨b, get?_eq_some_iff.1 hget⟩
  | none =>
    rw [get?_ofList] at hget
    exact absurd (List.find?_eq_none.1 hget a (List.mem_reverse.2 h)) (by simp)

/-- Records with distinct keys are all in the table. -/
theorem mem_ofList (h : (as.map key).Nodup) : a ∈ ofList as ↔ a ∈ as := by
  refine ⟨mem_of_mem_ofList, fun ha => ?_⟩
  obtain ⟨b, hb, hk⟩ := exists_mem_ofList ha
  rwa [List.inj_on_of_nodup_map h (mem_of_mem_ofList hb) ha hk] at hb

theorem toList_ofList_perm (h : (as.map key).Nodup) : (ofList as).toList.Perm as := by
  have hnodup : (ofList as).toList.Nodup := (ofList as).nodup.of_map
  exact (List.perm_ext_iff_of_nodup hnodup h.of_map).2 fun _ => mem_ofList h

/-- No listed record gives way to a later one just if their keys are distinct. -/
theorem size_ofList_eq_length : (ofList as).size = as.length ↔ (as.map key).Nodup := by
  constructor
  · intro hsize
    -- the distinct keys of the table are all that is listed, and as many, so the list repeats none
    have hkeys : (ofList as).toList.map key ⊆ as.map key :=
      List.map_subset key fun _ => mem_of_mem_ofList
    have hlen : (as.map key).length ≤ ((ofList as).toList.map key).length := by
      rw [List.length_map, List.length_map, ← hsize]
      exact Nat.le_refl _
    have hperm := ((ofList as).nodup.subperm hkeys).perm_of_length_le hlen
    exact hperm.nodup_iff.1 (ofList as).nodup
  · intro h
    exact (toList_ofList_perm h).length_eq

end Table

/-! ## Accepted files -/

namespace Fixture

variable {f : Fixture} {text : String} {ids servers : List Id} {roles : List Role}

/-- The ids of the roles are looked through for repetitions. -/
theorem nodup_of_checkRoles (h : checkRoles ids servers roles = .ok ()) :
    (∀ r ∈ roles, r.id ∉ ids) ∧ (roles.map Role.id).Nodup := by
  induction roles generalizing ids servers with
  | nil => simp
  | cons r rs ih =>
    unfold checkRoles at h
    split at h
    · cases h
    · rename_i hnew
      split at h
      · cases h
      · obtain ⟨hrest, hdistinct⟩ := ih h
        rw [List.map_cons, List.nodup_cons, List.mem_map]
        refine ⟨List.forall_mem_cons.2 ⟨by simpa using hnew, fun q hq hid => ?_⟩, ?_, hdistinct⟩
        · exact hrest q hq (List.mem_cons_of_mem r.id hid)
        · rintro ⟨q, hq, hid⟩
          exact hrest q hq (hid ▸ List.mem_cons_self)

theorem nodup_of_check (h : f.check = .ok ()) : (f.roles.map Role.id).Nodup := by
  simp only [check, bind_eq_ok] at h
  obtain ⟨⟨⟩, hroles, -⟩ := h
  exact (nodup_of_checkRoles hroles).2

theorem check_of_ofText (h : ofText text = .ok f) : f.check = .ok () := by
  unfold ofText at h
  split at h
  · cases h
  · simp only [bind_eq_ok, pure_eq_ok] at h
    obtain ⟨⟨⟩, hcheck, rfl⟩ := h
    exact hcheck

theorem codec_survives (f : Fixture) : codec.Survives f := by
  refine Json.Layout.codec_survives ?_ rfl
  exact ⟨.list fun r _ => r.codec_survives, by decide, .list fun m _ => m.codec_survives, by decide,
    .list fun c _ => c.codec_survives, by decide, trivial⟩

/-- Every fixture that passes the check is accepted, as the text that is written for it. -/
theorem ofText_writeText (h : f.check = .ok ()) : ofText (codec.writeText f) = .ok f := by
  have hread : codec.readText (codec.writeText f) = .ok f :=
    (Json.Codec.survivesWire codec_survives).read_extended f _ _
      ((Json.Codec.survivesWire codec_survives).written f) (.refl _)
  simp [ofText, hread, h, bind, Except.bind, pure, Except.pure]

end Fixture

/-! ## Stores that start with a file -/

/-- Whether a store has the records that a fixture lists, each of them as listed, and no others. -/
structure Store.Holds (s : Store) (f : Fixture) : Prop where
  counts : s.counts = (f.roles.length, f.members.length, f.channels.length)
  /-- The roles of each server are those that are listed for it. -/
  serverRoles : ∀ server, (s.serverRoles server).Perm (f.roles.filter (·.server = server))
  findMember : ∀ m ∈ f.members, s.findMember m.server m.user = some m
  findChannel : ∀ c ∈ f.channels, s.findChannel c.id = some c
  members : ∀ m ∈ s.members, m ∈ f.members
  channels : ∀ c ∈ s.channels, c ∈ f.channels

namespace Fixture

variable {f : Fixture} {text : String}

theorem serverRoles_store (h : (f.roles.map Role.id).Nodup) (server : Id) :
    (f.store.serverRoles server).Perm (f.roles.filter (·.server = server)) := by
  have hroles : f.store.roles.toList.Perm f.roles := Table.toList_ofList_perm h
  exact (sortBy_perm _ _).trans (hroles.filter _)

theorem findMember_store (server user : Id) : f.store.findMember server user =
    f.members.reverse.find? (fun m => m.server == server && m.user == user) := by
  refine (Table.get?_ofList f.members (server, user)).trans ?_
  congr 1
  funext m
  have hkey : key m = (server, user) ↔ m.server = server ∧ m.user = user := Prod.ext_iff
  exact Bool.eq_iff_iff.2 (decide_eq_true_iff.trans (hkey.trans (by simp)))

/-- What an accepted seed file lists is loaded from it just if no two of its members are in one server
with one user, and no two of its channels have one id. The roles are loaded as listed in any case; of
members of one place and of channels of one id the store has the last one listed. -/
theorem holds_store_iff (h : ofText text = .ok f) :
    (f.store.Holds f ↔ (f.members.map key).Nodup ∧ (f.channels.map key).Nodup) ∧
    (f.store.roles.size = f.roles.length ∧
      ∀ server, (f.store.serverRoles server).Perm (f.roles.filter (·.server = server))) ∧
    (∀ server user, f.store.findMember server user =
      f.members.reverse.find? (fun m => m.server == server && m.user == user)) ∧
    ∀ id, f.store.findChannel id = f.channels.reverse.find? (·.id == id) := by
  have hids : (f.roles.map Role.id).Nodup := nodup_of_check (check_of_ofText h)
  have hsize : f.store.roles.size = f.roles.length := Table.size_ofList_eq_length.2 hids
  refine ⟨⟨?_, ?_⟩, ⟨hsize, serverRoles_store hids⟩, fun server user => ?_, fun id => ?_⟩
  · intro hholds
    have hcounts := hholds.counts
    simp only [Store.counts, Prod.mk.injEq] at hcounts
    exact ⟨Table.size_ofList_eq_length.1 hcounts.2.1, Table.size_ofList_eq_length.1 hcounts.2.2⟩
  · rintro ⟨hmembers, hchannels⟩
    have hmember (m : Member) : m ∈ f.store.members ↔ m ∈ f.members := Table.mem_ofList hmembers
    have hchannel (c : Channel) : c ∈ f.store.channels ↔ c ∈ f.channels := Table.mem_ofList hchannels
    exact {
      counts := Prod.ext hsize (Prod.ext (Table.size_ofList_eq_length.2 hmembers)
        (Table.size_ofList_eq_length.2 hchannels))
      serverRoles := serverRoles_store hids
      findMember := fun m hm => Store.findMember_eq_some.2 ⟨(hmember m).2 hm, rfl, rfl⟩
      findChannel := fun c hc => Table.get?_eq_some_iff.2 ⟨(hchannel c).2 hc, rfl⟩
      members := fun m => (hmember m).1
      channels := fun c => (hchannel c).1 }
  · exact findMember_store server user
  · exact Table.get?_ofList f.channels id

end Fixture

/-! ## Examples -/

namespace Example

/-- A user in two servers, one channel in each of them and a direct message. -/
def estate : Fixture where
  roles := [⟨10, 1, "@everyone", none, 0, ∅, true⟩, ⟨20, 1, "steward", none, 4, .full, false⟩,
    ⟨40, 2, "@everyone", none, 0, ∅, true⟩]
  members := [⟨7, 1, [20], false⟩, ⟨7, 2, [], true⟩, ⟨8, 1, [], true⟩]
  channels := [⟨50, some 1, .text, some "hall", [], [⟨.role 20, ∅, .full⟩]⟩,
    ⟨60, some 2, .text, none, [], []⟩, ⟨70, none, .dm, none, [7, 8], []⟩]

/-- User 7 is listed twice in server 1, first as its owner, and the hall twice, first as closed to the
default role. -/
def relisted : Fixture where
  roles := [⟨10, 1, "@everyone", none, 0, .ofList [.viewChannel], true⟩]
  members := [⟨7, 1, [], true⟩, ⟨7, 1, [], false⟩]
  channels := [⟨50, some 1, .text, some "hall", [], [⟨.role 10, ∅, .ofList [.viewChannel]⟩]⟩,
    ⟨50, some 1, .text, some "hall", [], []⟩]

end Example

namespace Fixture

theorem holds_store_iff_estate :
    ofText (codec.writeText Example.estate) = .ok Example.estate ∧
      Example.estate.store.Holds Example.estate ∧
      Example.estate.store.findMember 1 7 = some ⟨7, 1, [20], false⟩ := by
  have htext : ofText (codec.writeText Example.estate) = .ok Example.estate :=
    ofText_writeText rfl
  obtain ⟨hiff, -, hmember, -⟩ := holds_store_iff htext
  exact ⟨htext, hiff.2 (by decide), by rw [hmember]; decide⟩

/-- The file is accepted, and yet the server is without an owner and the hall open to everyone. -/
theorem not_holds_store_relisted :
    ofText (codec.writeText Example.relisted) = .ok Example.relisted ∧
      ¬ Example.relisted.store.Holds Example.relisted ∧
      Example.relisted.store.counts = (1, 1, 1) ∧
      (⟨7, 1, [], true⟩ : Member) ∈ Example.relisted.members ∧
      Example.relisted.store.findMember 1 7 = some ⟨7, 1, [], false⟩ ∧
      Example.relisted.store.findChannel 50 = some ⟨50, some 1, .text, some "hall", [], []⟩ := by
  have htext : ofText (codec.writeText Example.relisted) = .ok Example.relisted :=
    ofText_writeText rfl
  have hcounts : Example.relisted.store.counts = (1, 1, 1) := rfl
  refine ⟨htext, fun hholds => ?_, hcounts, by decide⟩
  exact absurd (hcounts.symm.trans hholds.counts) (by decide)

end Fixture

end Guildhall
