-- SUMMARY: What is reported is what is enforced: listing all permissions and requiring one of them agree.
import Guildhall.Proofs.Escalation
import Mathlib.Data.Finset.Card

/-!
# Enforcement

A gate requires one permission of a caller, while the caller can ask for all their permissions at
once. The two go separate ways through the records, but on a standing that was loaded from the
store they agree: requiring a permission is to look for it among all of them
(`Store.require_of_loadAccess`). Listing them fails in one case only, which the store decides
(`Store.effective_eq_error_iff`): the server does not have exactly one default role, and the
caller does not own it.
-/

namespace Guildhall

/-! ## Server records of a standing -/

theorem ServerRecords.misconfiguration_ofRoles_eq_some {m : Member} {roles : List Role}
    {reason : String} : (ofRoles m roles).misconfiguration = some reason ↔
      (roles.filter Role.isDefault = [] ∧ reason = noDefault) ∨
        (1 < (roles.filter Role.isDefault).length ∧ reason = severalDefaults) := by
  unfold ofRoles
  generalize roles.filter Role.isDefault = defaults
  match defaults with
  | [] => simp [eq_comm]
  | [e] => simp
  | e :: d :: rest => simp [eq_comm]

namespace Access

variable {a : Access} {r : ServerRecords} {p : Permission}

theorem decide_of_records (h : a.records? = some r) :
    a.decide p = r.member.authorize p r.roles r.everyone a.channel? := by
  obtain ⟨user, scope⟩ := a
  cases scope with
  | server | channel =>
    cases h
    rfl
  | dm => cases h

theorem effective_of_records (h : a.records? = some r) :
    a.effective =
      if !r.member.isOwner && r.everyone.isNone then .error r.misconfigured
      else .ok (r.resolve a.channel?) := by
  obtain ⟨user, scope⟩ := a
  cases scope with
  | server | channel =>
    cases h
    rfl
  | dm => cases h

theorem misconfigured_of_records (h : a.records? = some r) :
    a.misconfigured = r.misconfigured := by
  simp [misconfigured, h]

end Access

/-! ## Places -/

/-- Where somebody's standing is asked for. -/
inductive Place where
  | server (id : Id)
  /-- A channel, with the server that its route names, if it names one. -/
  | channel (id : Id) (routeServer : Option Id)
  deriving DecidableEq

namespace Store

variable {s : Store} {user server : Id} {place : Place} {a : Access} {m : Member} {p : Permission}
  {reason : String}

/-- The standing of a user in a place. -/
def loadAccess (s : Store) (user : Id) : Place → Except Refusal Access
  | .server id => s.loadServerAccess user id
  | .channel id routeServer => s.loadChannelAccess user id routeServer

/-- The server that a place is in; a direct message is in none. -/
def serverOf? (s : Store) : Place → Option Id
  | .server id => some id
  | .channel id _ => (s.findChannel id).bind fun c => if c.isDm then none else c.server

/-- A standing is that of a recipient, or that of a member in their server or a text channel of
it. -/
theorem loadAccess_cases (h : s.loadAccess user place = .ok a) :
    (∃ c, c.isDm = true ∧ c.isRecipient user = true ∧ s.serverOf? place = none ∧
      a = ⟨user, .dm c⟩) ∨
    ∃ m, s.serverOf? place = some m.server ∧ s.findMember m.server user = some m ∧
      m.Within a.channel? ∧ a.records? = some (s.recordsOf m) := by
  cases place with
  | server id =>
    obtain ⟨m, hm, rfl⟩ := loadServerAccess_eq_ok.1 h
    obtain ⟨-, rfl, -⟩ := findMember_eq_some.1 hm
    exact .inr ⟨m, rfl, hm, m.within_none, rfl⟩
  | channel id routeServer =>
    obtain ⟨c, hc, ⟨hdm, -, hr, rfl⟩ | ⟨hdm, m, hs, -, hm, rfl⟩⟩ := loadChannelAccess_eq_ok.1 h
    · exact .inl ⟨c, hdm, hr, by simp [serverOf?, hc, hdm], rfl⟩
    · exact .inr ⟨m, by simp [serverOf?, hc, hdm, hs], hm, Member.within_some hdm hs, rfl⟩

/-! ## Requiring and listing -/

/-- Requiring a permission is to look for it among all permissions. -/
theorem require_of_loadAccess (h : s.loadAccess user place = .ok a) (p : Permission) :
    a.require (some p) = (a.effective >>= fun held =>
      if held.grants p then .ok () else .error (.permissionDenied p)) := by
  obtain ⟨c, hdm, hr, -, rfl⟩ | ⟨m, -, -, hwithin, hrecords⟩ := loadAccess_cases h
  · cases hg : (resolveDm user c).grants p with
    | true => simp [Access.require, Access.decide, Access.effective, bind, Except.bind,
        authorizeDm_of_recipient hdm hr, hg]
    | false => simp [Access.require, Access.decide, Access.effective, bind, Except.bind,
        authorizeDm_of_recipient hdm hr, hg, Access.refusal]
  · simp only [Access.require, Access.decide_of_records hrecords,
      Access.effective_of_records hrecords, ServerRecords.resolve, member_recordsOf,
      roles_recordsOf, Member.authorize_of_within hwithin, usableEveryone_recordsOf]
    cases ho : m.isOwner with
    | true => simp [bind, Except.bind, Member.grants_of_isOwner hwithin ho]
    | false =>
      cases he : (s.recordsOf m).everyone with
      | none => simp [bind, Except.bind, Access.refusal, Access.misconfigured_of_records hrecords]
      | some e =>
        cases hg : (m.resolve (s.serverRoles m.server) (some e) a.channel?).grants p with
        | true => simp [bind, Except.bind, hg]
        | false => simp [bind, Except.bind, hg, Access.refusal]

/-! ## Misconfigured servers -/

/-- Whether a server has no default role, or several; the reason tells which. -/
def Misconfigured (s : Store) (server : Id) (reason : String) : Prop :=
  ((∀ r ∈ s.roles, r.server = server → r.isDefault = false) ∧ reason = ServerRecords.noDefault) ∨
  ((∃ r ∈ s.roles, ∃ q ∈ s.roles, r ≠ q ∧ (r.server = server ∧ r.isDefault = true) ∧
    (q.server = server ∧ q.isDefault = true)) ∧ reason = ServerRecords.severalDefaults)

theorem misconfiguration_recordsOf_eq_some :
    (s.recordsOf m).misconfiguration = some reason ↔ s.Misconfigured m.server reason := by
  have hn : ((s.serverRoles m.server).filter Role.isDefault).Nodup :=
    (nodup_serverRoles s m.server).filter _
  have hnone : (s.serverRoles m.server).filter Role.isDefault = [] ↔
      ∀ r ∈ s.roles, r.server = m.server → r.isDefault = false := by
    simp only [List.eq_nil_iff_forall_not_mem, mem_filter_isDefault, not_and, Bool.not_eq_true]
  have hseveral : 1 < ((s.serverRoles m.server).filter Role.isDefault).length ↔
      ∃ r ∈ s.roles, ∃ q ∈ s.roles, r ≠ q ∧ (r.server = m.server ∧ r.isDefault = true) ∧
        (q.server = m.server ∧ q.isDefault = true) := by
    rw [← List.toFinset_card_of_nodup hn, Finset.one_lt_card]
    simp only [List.mem_toFinset, mem_filter_isDefault]
    constructor
    · rintro ⟨r, ⟨hr, hrd⟩, q, ⟨hq, hqd⟩, hne⟩
      exact ⟨r, hr, q, hq, hne, hrd, hqd⟩
    · rintro ⟨r, hr, q, hq, hne, hrd, hqd⟩
      exact ⟨r, ⟨hr, hrd⟩, q, ⟨hq, hqd⟩, hne⟩
  rw [recordsOf, ServerRecords.misconfiguration_ofRoles_eq_some, hnone, hseveral, Misconfigured]

theorem exists_misconfigured_iff :
    (∃ reason, s.Misconfigured m.server reason) ↔ ¬ s.Configured m.server := by
  rw [← everyone_recordsOf_eq_none]
  simp only [← misconfiguration_recordsOf_eq_some]
  unfold recordsOf ServerRecords.ofRoles
  split <;> simp

/-- Listing all permissions fails for whoever does not own a misconfigured server, with what is
wrong about the server. -/
theorem effective_eq_error_iff (h : s.loadAccess user place = .ok a) {why : Refusal} :
    a.effective = .error why ↔ ∃ m reason, why = .misconfigured m.server reason ∧
      s.serverOf? place = some m.server ∧ s.findMember m.server user = some m ∧
      m.isOwner = false ∧ s.Misconfigured m.server reason := by
  obtain ⟨c, -, -, hserver, rfl⟩ | ⟨m, hserver, hm, -, hrecords⟩ := loadAccess_cases h
  · simp [Access.effective, hserver]
  · have hwhy : ∀ reason, s.Misconfigured m.server reason →
        (s.recordsOf m).misconfigured = .misconfigured m.server reason := by
      intro reason hreason
      simp [ServerRecords.misconfigured, misconfiguration_recordsOf_eq_some.2 hreason]
    rw [Access.effective_of_records hrecords]
    simp only [member_recordsOf]
    constructor
    · intro herr
      split at herr
      · rename_i hbad
        simp only [Bool.and_eq_true, Bool.not_eq_true', Option.isNone_iff_eq_none] at hbad
        obtain ⟨reason, hreason⟩ := exists_misconfigured_iff.2 (everyone_recordsOf_eq_none.1 hbad.2)
        rw [hwhy reason hreason, Except.error.injEq] at herr
        exact ⟨m, reason, herr.symm, hserver, hm, hbad.1, hreason⟩
      · cases herr
    · rintro ⟨n, reason, rfl, hn, hmn, ho, hreason⟩
      rw [hserver, Option.some.injEq] at hn
      rw [← hn, hm] at hmn
      cases hmn
      have hnone := everyone_recordsOf_eq_none.2 (exists_misconfigured_iff.1 ⟨reason, hreason⟩)
      simp [ho, hnone, hwhy reason hreason]

theorem exists_effective_eq_error_iff (h : s.loadAccess user place = .ok a) :
    (∃ why, a.effective = .error why) ↔ ∃ m, s.serverOf? place = some m.server ∧
      s.findMember m.server user = some m ∧ m.isOwner = false ∧ ¬ s.Configured m.server := by
  simp only [effective_eq_error_iff h, ← exists_misconfigured_iff]
  constructor
  · rintro ⟨why, m, reason, -, hserver, hm, ho, hreason⟩
    exact ⟨m, hserver, hm, ho, reason, hreason⟩
  · rintro ⟨m, hserver, hm, ho, reason, hreason⟩
    exact ⟨_, m, reason, rfl, hserver, hm, ho, hreason⟩

/-! ## Agreement -/

theorem require_eq_ok_iff (h : s.loadAccess user place = .ok a) :
    a.require (some p) = .ok () ↔
      ∃ held, a.effective = .ok held ∧ (.administrator ∈ held ∨ p ∈ held) := by
  simp only [require_of_loadAccess h, bind_eq_ok, ← PermissionSet.grants_iff]
  refine exists_congr fun held => and_congr_right fun _ => ?_
  cases held.grants p <;> simp

theorem require_eq_error_iff (h : s.loadAccess user place = .ok a) {why : Refusal} :
    a.require (some p) = .error why ↔ a.effective = .error why ∨
      why = .permissionDenied p ∧
        ∃ held, a.effective = .ok held ∧ ¬ (.administrator ∈ held ∨ p ∈ held) := by
  simp only [require_of_loadAccess h, ← PermissionSet.grants_iff]
  cases a.effective with
  | error e => simp [bind, Except.bind]
  | ok held =>
    cases hg : held.grants p with
    | true => simp [bind, Except.bind, hg]
    | false =>
      simp only [bind, Except.bind, hg, Bool.false_eq_true, if_false, Except.error.injEq,
        reduceCtorEq, false_or, Except.ok.injEq, exists_eq_left', not_false_eq_true, and_true]
      exact eq_comm

end Store

/-! ## An example -/

namespace Example

def newcomer : Member := ⟨8, 1, [], false⟩

/-- A text channel of server 1. -/
def lobby : Channel := ⟨50, some 1, .text, none, [], []⟩

/-- Server 1 with two default roles. -/
def divided : Store :=
  .ofLists
    [⟨10, 1, "@everyone", none, 0, ∅, true⟩, ⟨11, 1, "@all", none, 0, .ofList [.viewChannel], true⟩]
    [newcomer]
    [lobby]

/-- The newcomer in the lobby of the divided server. -/
def dividedAccess : Access := ⟨8, .channel lobby (divided.recordsOf newcomer)⟩

end Example

/-! ## What is reported is what is enforced -/

namespace Store

variable {s : Store} {user : Id} {place : Place} {a : Access}

/-- On a standing that was loaded from the store, requiring a permission and listing all of them
succeed, fail and explain themselves alike. Listing fails just for those who are in a
misconfigured server that they do not own; requiring fails besides for those who are not granted
the permission, and for nothing else. -/
theorem require_agrees_effective (h : s.loadAccess user place = .ok a) (p : Permission) :
    (a.require (some p) = .ok () ↔
      ∃ held, a.effective = .ok held ∧ (.administrator ∈ held ∨ p ∈ held)) ∧
    (∀ server reason, a.require (some p) = .error (.misconfigured server reason) ↔
      a.effective = .error (.misconfigured server reason)) ∧
    (∀ why, a.effective = .error why ↔ ∃ m reason, why = .misconfigured m.server reason ∧
      s.serverOf? place = some m.server ∧ s.findMember m.server user = some m ∧
      m.isOwner = false ∧ s.Misconfigured m.server reason) ∧
    ((∃ why, a.effective = .error why) ↔ ∃ m, s.serverOf? place = some m.server ∧
      s.findMember m.server user = some m ∧ m.isOwner = false ∧ ¬ s.Configured m.server) ∧
    (a.require (some p) = .error (.permissionDenied p) ↔
      ∃ held, a.effective = .ok held ∧ ¬ (.administrator ∈ held ∨ p ∈ held)) ∧
    a.require none = .ok () ∧
    ∀ required, a.require required ≠ .error .notAMember ∧
      ∀ message, a.require required ≠ .error (.badRequest message) := by
  have hlisting : ∀ {why}, a.effective = .error why →
      ∃ server reason, why = .misconfigured server reason := by
    intro why hwhy
    obtain ⟨m, reason, rfl, -⟩ := (effective_eq_error_iff h).1 hwhy
    exact ⟨m.server, reason, rfl⟩
  have hfailure : ∀ {required why}, a.require required = .error why →
      (∃ server reason, why = .misconfigured server reason) ∨ ∃ q, why = .permissionDenied q := by
    intro required why hwhy
    cases required with
    | none => cases hwhy
    | some q =>
      obtain hwhy | ⟨rfl, -⟩ := (require_eq_error_iff h).1 hwhy
      · exact .inl (hlisting hwhy)
      · exact .inr ⟨q, rfl⟩
  refine ⟨require_eq_ok_iff h, ?_, fun why => effective_eq_error_iff h,
    exists_effective_eq_error_iff h, ?_, rfl, ?_⟩
  · intro server reason
    rw [require_eq_error_iff h]
    constructor
    · rintro (hwhy | ⟨⟨⟩, -⟩)
      exact hwhy
    · exact .inl
  · rw [require_eq_error_iff h]
    constructor
    · rintro (hwhy | ⟨-, hheld⟩)
      · obtain ⟨server, reason, ⟨⟩⟩ := hlisting hwhy
      · exact hheld
    · exact fun hheld => .inr ⟨rfl, hheld⟩
  · intro required
    constructor
    · intro hwhy
      obtain ⟨server, reason, ⟨⟩⟩ | ⟨q, ⟨⟩⟩ := hfailure hwhy
    · intro message hwhy
      obtain ⟨server, reason, ⟨⟩⟩ | ⟨q, ⟨⟩⟩ := hfailure hwhy

theorem require_agrees_effective_divided :
    Example.divided.loadAccess 8 (.channel 50 (some 1)) = .ok Example.dividedAccess ∧
      (Example.dividedAccess.require (some .viewChannel) = .ok () ↔
        ∃ held, Example.dividedAccess.effective = .ok held ∧
          (.administrator ∈ held ∨ .viewChannel ∈ held)) ∧
      (∀ server reason,
        Example.dividedAccess.require (some .viewChannel) = .error (.misconfigured server reason) ↔
          Example.dividedAccess.effective = .error (.misconfigured server reason)) ∧
      (∀ why, Example.dividedAccess.effective = .error why ↔
        ∃ m reason, why = .misconfigured m.server reason ∧
          Example.divided.serverOf? (.channel 50 (some 1)) = some m.server ∧
          Example.divided.findMember m.server 8 = some m ∧ m.isOwner = false ∧
          Example.divided.Misconfigured m.server reason) ∧
      ((∃ why, Example.dividedAccess.effective = .error why) ↔
        ∃ m, Example.divided.serverOf? (.channel 50 (some 1)) = some m.server ∧
          Example.divided.findMember m.server 8 = some m ∧ m.isOwner = false ∧
          ¬ Example.divided.Configured m.server) ∧
      (Example.dividedAccess.require (some .viewChannel) = .error (.permissionDenied .viewChannel) ↔
        ∃ held, Example.dividedAccess.effective = .ok held ∧
          ¬ (.administrator ∈ held ∨ .viewChannel ∈ held)) ∧
      Example.dividedAccess.require none = .ok () ∧
      ∀ required, Example.dividedAccess.require required ≠ .error .notAMember ∧
        ∀ message, Example.dividedAccess.require required ≠ .error (.badRequest message) := by
  have hloaded : Example.divided.loadAccess 8 (.channel 50 (some 1)) =
      .ok Example.dividedAccess := by decide +kernel
  exact ⟨hloaded, require_agrees_effective hloaded .viewChannel⟩

/-- The newcomer is told what is wrong, not that they may do nothing. -/
example : Example.dividedAccess.require (some .viewChannel) =
    .error (.misconfigured 1 ServerRecords.severalDefaults) := by
  decide

end Store

end Guildhall
