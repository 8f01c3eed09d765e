-- SUMMARY: What users cannot reach by requests: roles at or above their own rank, and the members who hold them.
import Guildhall.Proofs.Escalation

/-!
# Confinement by rank

A write only touches roles below its sender's rank, and only moves them to places below it. So
all that happens under a rank leaves the roles at or above it as they are (`Store.Confined`),
and with them everybody's holdings of such roles and the ranks that rest on them. As the
sender's own rank is one of these, the bound stays the same over a whole run.
-/

namespace Guildhall

namespace Store

variable {s s' s₁ s₂ s₃ : Store} {limits : Limits} {fresh user server : Id} {limit : Int32}
  {w : Write} {a : Member}

/-! ## What a sender reaches -/

/-- Whether a user stands above a role in its server. -/
def Reaches (s : Store) (user : Id) (r : Role) : Prop :=
  ∃ m, s.findMember r.server user = some m ∧ (s.recordsOf m).Outranks r.position

private theorem eq_target_of_found {m : Member} {role : Id} {r target : Role}
    (member : s.findMember m.server user = some m)
    (found : (s.recordsOf m).findRole role = some target) (hr : r ∈ s.roles) (hid : r.id = role) :
    r = target ∧ s.findMember r.server user = some m := by
  obtain ⟨-, hserver, -⟩ := findRole_recordsOf_eq_some.1 found
  obtain rfl := eq_of_findRole_recordsOf found hr hid
  exact ⟨rfl, hserver ▸ member⟩

/-- A write keeps a role as it is, unless its sender stands above the role before and after. -/
theorem onRole_cases (hw : s.Entitles limits fresh user w) {r : Role} (hr : r ∈ s.roles) :
    w.onRole r = some r ∨
      s.Reaches user r ∧ ∀ r', w.onRole r = some r' → s.Reaches user r' := by
  cases hw with
  | inChannel => exact .inl rfl
  | @inServer m _ member permitted warranted =>
    cases warranted with
    | createRole | assignRole | unassignRole | removeMember => exact .inl rfl
    | @updateRole role target e fields found below name granted =>
      by_cases hkey : r.server = (s.recordsOf m).server ∧ r.id = role
      · obtain ⟨rfl, hm⟩ := eq_target_of_found member found hr hkey.2
        refine .inr ⟨⟨m, hm, below⟩, ?_⟩
        intro r' hr'
        simp only [Write.onRole, if_pos hkey, Option.some.injEq] at hr'
        subst hr'
        exact ⟨m, hm, below⟩
      · exact .inl (by simp only [Write.onRole, if_neg hkey])
    | @moveRole role target move fields found assigned below stillBelow =>
      by_cases hkey : r.server = (s.recordsOf m).server ∧ r.id = role
      · obtain ⟨rfl, hm⟩ := eq_target_of_found member found hr hkey.2
        refine .inr ⟨⟨m, hm, below⟩, ?_⟩
        intro r' hr'
        simp only [Write.onRole, if_pos hkey, Option.some.injEq] at hr'
        subst hr'
        exact ⟨m, hm, stillBelow⟩
      · exact .inl (by simp only [Write.onRole, if_neg hkey])
    | @deleteRole role target found assigned below =>
      by_cases hkey : r.server = (s.recordsOf m).server ∧ r.id = role
      · obtain ⟨rfl, hm⟩ := eq_target_of_found member found hr hkey.2
        refine .inr ⟨⟨m, hm, below⟩, ?_⟩
        intro r' hr'
        simp only [Write.onRole, if_pos hkey] at hr'
        cases hr'
      · exact .inl (by simp only [Write.onRole, if_neg hkey])

theorem reaches_of_mem_newRoles (hw : s.Entitles limits fresh user w) {r : Role}
    (hr : r ∈ w.newRoles) : s.Reaches user r := by
  cases hw with
  | inChannel => cases hr
  | @inServer m _ member permitted warranted =>
    cases warranted with
    | createRole fields name room granted place below =>
      rw [Write.newRoles, List.mem_singleton] at hr
      subst hr
      exact ⟨m, by simpa using member, below⟩
    | updateRole | moveRole | deleteRole | assignRole | unassignRole | removeMember => cases hr

/-- Who holds a role changes only if the sender stands above it. -/
theorem holds_cases (hw : s.Entitles limits fresh user w) {m m' : Member} {r : Role}
    (hr : r ∈ s.roles) (hon : w.onMember m = some m') :
    m'.holds r.id = m.holds r.id ∨ s.Reaches user r := by
  cases hw with
  | inChannel =>
    cases hon
    exact .inl rfl
  | @inServer b _ member permitted warranted =>
    have reach : ∀ {role target}, (s.recordsOf b).findRole role = some target →
        (s.recordsOf b).Outranks target.position → r.id = role → s.Reaches user r := by
      intro role target found below hid
      obtain ⟨rfl, hb⟩ := eq_target_of_found member found hr hid
      exact ⟨b, hb, below⟩
    cases warranted with
    | createRole | updateRole | moveRole =>
      cases hon
      exact .inl rfl
    | removeMember =>
      simp only [Write.onMember] at hon
      split at hon
      · cases hon
      · cases hon
        exact .inl rfl
    | @deleteRole role target found assigned below =>
      by_cases hid : r.id = role
      · exact .inr (reach found below hid)
      · simp only [Write.onMember, Option.some.injEq] at hon
        subst hon
        split
        · exact .inl (Member.holds_unassign_of_ne hid)
        · exact .inl rfl
    | @assignRole x role y target found₁ above found assigned below =>
      by_cases hid : r.id = role
      · exact .inr (reach found below hid)
      · simp only [Write.onMember, Option.some.injEq] at hon
        subst hon
        split
        · exact .inl (Member.holds_assign_of_ne hid)
        · exact .inl rfl
    | @unassignRole x role y target found₁ above found assigned below =>
      by_cases hid : r.id = role
      · exact .inr (reach found below hid)
      · simp only [Write.onMember, Option.some.injEq] at hon
        subst hon
        split
        · exact .inl (Member.holds_unassign_of_ne hid)
        · exact .inl rfl

/-! ## Confinement -/

/-- The rank of a member in their server. -/
def rankOf (s : Store) (m : Member) : Int32 := m.rank (s.serverRoles m.server)

/-- Whether the second store differs from the first, in a server, only below a limit: in roles
below it, in who holds these, and in that members who rank below it are gone. -/
structure Confined (s : Store) (server : Id) (limit : Int32) (s' : Store) : Prop where
  roles : ∀ r, r.server = server → limit ≤ r.position → (r ∈ s'.roles ↔ r ∈ s.roles)
  members : ∀ m' ∈ s'.members, m'.server = server → ∃ m ∈ s.members, m.user = m'.user ∧
    m.server = server ∧ m'.isOwner = m.isOwner ∧
    ∀ r ∈ s.roles, r.server = server → limit ≤ r.position → m'.holds r.id = m.holds r.id
  kept : ∀ m ∈ s.members, m.server = server → (m.isOwner = true ∨ limit ≤ s.rankOf m) →
    ∃ m' ∈ s'.members, m'.user = m.user ∧ m'.server = server

theorem Confined.refl (s : Store) (server : Id) (limit : Int32) : s.Confined server limit s where
  roles _ _ _ := Iff.rfl
  members m hm hs := ⟨m, hm, rfl, hs, rfl, fun _ _ _ _ => rfl⟩
  kept m hm hs _ := ⟨m, hm, rfl, hs⟩

/-- A member is found by user and server. -/
theorem eq_of_user_eq {m n : Member} (hm : m ∈ s.members) (hn : n ∈ s.members)
    (hu : m.user = n.user) (hs : m.server = n.server) : m = n :=
  Table.eq_of_key_eq hm hn (Prod.ext hs hu)

theorem le_rankOf_iff {m : Member} {q : Int32} : q ≤ s.rankOf m ↔ q ≤ 0 ∨
    ∃ r ∈ s.roles, r.server = m.server ∧ r.isDefault = false ∧ m.holds r.id = true ∧
      q ≤ r.position := by
  simp only [rankOf, Member.le_rank_iff, Member.ranksBy_iff, mem_serverRoles]
  constructor
  · rintro (h | ⟨r, ⟨hr, hs⟩, ⟨hd, -, hh⟩, hq⟩)
    · exact .inl h
    · exact .inr ⟨r, hr, hs, hd, hh, hq⟩
  · rintro (h | ⟨r, hr, hs, hd, hh, hq⟩)
    · exact .inl h
    · exact .inr ⟨r, ⟨hr, hs⟩, ⟨hd, hs, hh⟩, hq⟩

/-- From the limit upwards, members rank as they did. -/
theorem Confined.le_rankOf_iff (h : s.Confined server limit s') {m m' : Member} {q : Int32}
    (hs : m.server = server) (hs' : m'.server = server)
    (hholds : ∀ r ∈ s.roles, r.server = server → limit ≤ r.position →
      m'.holds r.id = m.holds r.id)
    (hq : limit ≤ q) : q ≤ s'.rankOf m' ↔ q ≤ s.rankOf m := by
  rw [Store.le_rankOf_iff, Store.le_rankOf_iff, hs, hs']
  refine or_congr_right ⟨?_, ?_⟩
  · rintro ⟨r, hr, hrs, hd, hh, hqr⟩
    have hlimit : limit ≤ r.position := Int32.le_trans hq hqr
    have hrold : r ∈ s.roles := (h.roles r hrs hlimit).1 hr
    exact ⟨r, hrold, hrs, hd, (hholds r hrold hrs hlimit).symm.trans hh, hqr⟩
  · rintro ⟨r, hr, hrs, hd, hh, hqr⟩
    have hlimit : limit ≤ r.position := Int32.le_trans hq hqr
    exact ⟨r, (h.roles r hrs hlimit).2 hr, hrs, hd, (hholds r hr hrs hlimit).trans hh, hqr⟩

/-- Whoever is a member afterwards was one before, and whoever ranked below the limit still does. -/
theorem Confined.findMember_of_findMember (h : s.Confined server limit s') {x : Id} {m' : Member}
    (hm' : s'.findMember server x = some m') :
    ∃ m, s.findMember server x = some m ∧ m'.isOwner = m.isOwner ∧
      ∀ q, limit ≤ q → (q ≤ s'.rankOf m' ↔ q ≤ s.rankOf m) := by
  obtain ⟨hmem', hs', hu'⟩ := findMember_eq_some.1 hm'
  obtain ⟨m, hm, hu, hs, howner, hholds⟩ := h.members m' hmem' hs'
  refine ⟨m, findMember_eq_some.2 ⟨hm, hs, hu.trans hu'⟩, howner, ?_⟩
  intro q hq
  exact h.le_rankOf_iff hs hs' hholds hq

/-- Owners and all who ranked at the limit or above are still members. -/
theorem Confined.findMember_of_high (h : s.Confined server limit s') {x : Id} {m : Member}
    (hm : s.findMember server x = some m) (hhigh : m.isOwner = true ∨ limit ≤ s.rankOf m) :
    ∃ m', s'.findMember server x = some m' ∧ m'.isOwner = m.isOwner ∧
      (limit ≤ s.rankOf m → s'.rankOf m' = s.rankOf m) := by
  obtain ⟨hmem, hs, hu⟩ := findMember_eq_some.1 hm
  obtain ⟨m', hmem', hu', hs'⟩ := h.kept m hmem hs hhigh
  have hm' : s'.findMember server x = some m' := findMember_eq_some.2 ⟨hmem', hs', hu'.trans hu⟩
  obtain ⟨n, hn, howner, hrank⟩ := h.findMember_of_findMember hm'
  rw [hm] at hn
  cases hn
  refine ⟨m', hm', howner, ?_⟩
  intro hlimit
  have hle : s.rankOf m ≤ s'.rankOf m' := (hrank _ hlimit).2 Int32.le_rfl
  exact Int32.le_antisymm ((hrank _ (Int32.le_trans hlimit hle)).1 Int32.le_rfl) hle

theorem Confined.trans (h₁ : s₁.Confined server limit s₂) (h₂ : s₂.Confined server limit s₃) :
    s₁.Confined server limit s₃ where
  roles r hs hp := (h₂.roles r hs hp).trans (h₁.roles r hs hp)
  members m₃ hm₃ hs₃ := by
    obtain ⟨m₂, hm₂, hu₂, hs₂, ho₂, hh₂⟩ := h₂.members m₃ hm₃ hs₃
    obtain ⟨m₁, hm₁, hu₁, hs₁, ho₁, hh₁⟩ := h₁.members m₂ hm₂ hs₂
    refine ⟨m₁, hm₁, hu₁.trans hu₂, hs₁, ho₂.trans ho₁, ?_⟩
    intro r hr hrs hp
    exact (hh₂ r ((h₁.roles r hrs hp).2 hr) hrs hp).trans (hh₁ r hr hrs hp)
  kept m₁ hm₁ hs₁ hhigh := by
    obtain ⟨m₂, hm₂, hu₂, hs₂⟩ := h₁.kept m₁ hm₁ hs₁ hhigh
    obtain ⟨n, hn, hnu, hns, hno, hnh⟩ := h₁.members m₂ hm₂ hs₂
    have hnm : n = m₁ := eq_of_user_eq hn hm₁ (hnu.trans hu₂) (hns.trans hs₁.symm)
    subst hnm
    have hhigh₂ : m₂.isOwner = true ∨ limit ≤ s₂.rankOf m₂ :=
      hhigh.imp hno.trans (h₁.le_rankOf_iff hs₁ hs₂ hnh Int32.le_rfl).2
    obtain ⟨m₃, hm₃, hu₃, hs₃⟩ := h₂.kept m₂ hm₂ hs₂ hhigh₂
    exact ⟨m₃, hm₃, hu₃.trans hu₂, hs₃⟩

/-! ## Writes -/

/-- What a member outranks who is not the owner is below their rank. -/
theorem lt_rankOf_of_outranks {p : Int32} (ho : a.isOwner = false)
    (h : (s.recordsOf a).Outranks p) : p < s.rankOf a := by
  obtain howner | hlt := h
  · rw [member_recordsOf, ho] at howner
    cases howner
  · simpa [rankOf] using hlt

/-- What a member who is not the owner reaches is below their rank. -/
theorem lt_rankOf_of_reaches (ha : s.findMember server user = some a) (ho : a.isOwner = false)
    {r : Role} (hs : r.server = server) (h : s.Reaches user r) : r.position < s.rankOf a := by
  obtain ⟨m, hm, houtranks⟩ := h
  rw [hs, ha] at hm
  cases hm
  exact lt_rankOf_of_outranks ho houtranks

theorem confined_of_follows (hw : s.Entitles limits fresh user w) (hf : s.Follows w s')
    (ha : s.findMember server user = some a) (ho : a.isOwner = false) :
    s.Confined server (s.rankOf a) s' where
  roles r hs hp := by
    have hout : ¬ s.Reaches user r := fun h =>
      Int32.not_le.2 (lt_rankOf_of_reaches ha ho hs h) hp
    constructor
    · intro hr
      obtain ⟨q, hq, hon⟩ | hnew := hf.mem_roles.1 hr
      · obtain hsame | ⟨-, hreach⟩ := onRole_cases hw hq
        · rw [hsame] at hon
          cases hon
          exact hq
        · exact absurd (hreach r hon) hout
      · exact absurd (reaches_of_mem_newRoles hw hnew) hout
    · intro hr
      obtain hsame | ⟨hreach, -⟩ := onRole_cases hw hr
      · exact hf.mem_roles.2 (.inl ⟨r, hr, hsame⟩)
      · exact absurd hreach hout
  members m' hm' hs' := by
    obtain ⟨m, hm, hon⟩ := hf.mem_members.1 hm'
    obtain ⟨hu, hs, howner⟩ := Write.onMember_eq_some hon
    refine ⟨m, hm, hu.symm, hs.symm.trans hs', howner, ?_⟩
    intro r hr hrs hp
    obtain hsame | hreach := holds_cases hw hr hon
    · exact hsame
    · exact absurd hp (Int32.not_le.2 (lt_rankOf_of_reaches ha ho hrs hreach))
  kept m hm hs hhigh := by
    cases hon : w.onMember m with
    | some m' =>
      obtain ⟨hu, hs', -⟩ := Write.onMember_eq_some hon
      exact ⟨m', hf.mem_members.2 ⟨m, hm, hon⟩, hu, hs'.trans hs⟩
    | none =>
      obtain ⟨b, hb, hnot, hbelow⟩ := outranksMember_of_onMember hw hm hon
      rw [hs, ha] at hb
      cases hb
      obtain howner | hlt := hbelow
      · rw [member_recordsOf, ho] at howner
        cases howner
      · have hlt' : s.rankOf m < s.rankOf a := by
          obtain ⟨-, has, -⟩ := findMember_eq_some.1 ha
          simpa [rankOf, has, hs] using hlt
        obtain howner | hle := hhigh
        · rw [hnot] at howner
          cases howner
        · exact absurd hle (Int32.not_le.2 hlt')

end Store

/-! ## An example -/

namespace Example

/-- The manager asks that the role of the guards be deleted. -/
def deletion : Http.Request :=
  request "DELETE" ["servers", (1 : Id).text, "roles", (30 : Id).text]

theorem respond_deletion :
    (service.respond moment deletion store).2 = store.afterWrite (.deleteRole 1 30) := by
  have hpath : Endpoint.find? deletion.path = some (.role,
      [("server_id", (1 : Id).text), ("role_id", (30 : Id).text)]) := by decide
  have hlet : (Endpoint.role.gate .deleteRole).letIn
      [("server_id", (1 : Id).text), ("role_id", (30 : Id).text)] (some 7) store =
        .ok (⟨7, .server (store.recordsOf manager)⟩,
          [("server_id", (1 : Id).text), ("role_id", (30 : Id).text)]) := by decide
  have hcommit : store.commit (.deleteRole 1 30) =
      .ok (.nothing, store.afterWrite (.deleteRole 1 30)) := by decide
  exact Service.respond_of_commit hpath rfl (authenticate_request _ _) hlet
    (by decide) hcommit

end Example

/-! ## Requests -/

namespace Service

open Store

variable {v : Service} {s : Store} {user server : Id} {requests : List (Moment × Http.Request)}

/-- A run of requests by one user who does not own the server stays below their rank. -/
theorem confined_after {a : Member} (hby : v.SentBy (· = user) requests)
    (hm : s.findMember server user = some a) (ho : a.isOwner = false) :
    s.Confined server (s.rankOf a) (v.after s requests) := by
  refine after_keeps (I := s.Confined server (s.rankOf a)) hby ?_ (.refl s server _)
  rintro s₁ s₂ sender fresh w hconf rfl hw - hf
  -- the sender's own rank is at the limit, so the step is confined by the same limit
  obtain ⟨a₁, hm₁, howner, hrank⟩ := hconf.findMember_of_high hm (.inr Int32.le_rfl)
  have hstep := confined_of_follows hw hf hm₁ (howner.trans ho)
  rw [hrank Int32.le_rfl] at hstep
  exact hconf.trans hstep

/-- No run of requests by one user who does not own the server changes a role at or above their
rank or puts one there. Owners stay, all who rank as high stay and keep their rank, and all
others who stay still rank lower. -/
theorem after_below_rank {a : Member} (hby : v.SentBy (· = user) requests)
    (hm : s.findMember server user = some a) (ho : a.isOwner = false) :
    (∀ r, r.server = server → s.rankOf a ≤ r.position →
      (r ∈ (v.after s requests).roles ↔ r ∈ s.roles)) ∧
    (∀ x m, s.findMember server x = some m → (m.isOwner = true ∨ s.rankOf a ≤ s.rankOf m) →
      ∃ m', (v.after s requests).findMember server x = some m' ∧ m'.isOwner = m.isOwner ∧
        (s.rankOf a ≤ s.rankOf m → (v.after s requests).rankOf m' = s.rankOf m)) ∧
    ∀ x m', (v.after s requests).findMember server x = some m' →
      ∃ m, s.findMember server x = some m ∧ m'.isOwner = m.isOwner ∧
        (s.rankOf m < s.rankOf a → (v.after s requests).rankOf m' < s.rankOf a) := by
  have hconf := confined_after hby hm ho
  refine ⟨hconf.roles, fun x m hx hhigh => hconf.findMember_of_high hx hhigh, ?_⟩
  intro x m' hx
  obtain ⟨m, hm, howner, hrank⟩ := hconf.findMember_of_findMember hx
  refine ⟨m, hm, howner, ?_⟩
  intro hlt
  rw [← Int32.not_le] at hlt ⊢
  exact fun hle => hlt ((hrank _ Int32.le_rfl).1 hle)

theorem after_below_rank_manager :
    Example.service.SentBy (· = 7) Example.run ∧
      Example.store.findMember 1 7 = some Example.manager ∧ Example.manager.isOwner = false ∧
      (∀ r, r.server = 1 → Example.store.rankOf Example.manager ≤ r.position →
        (r ∈ Example.final.roles ↔ r ∈ Example.store.roles)) ∧
      (∀ x m, Example.store.findMember 1 x = some m →
        (m.isOwner = true ∨ Example.store.rankOf Example.manager ≤ Example.store.rankOf m) →
        ∃ m', Example.final.findMember 1 x = some m' ∧ m'.isOwner = m.isOwner ∧
          (Example.store.rankOf Example.manager ≤ Example.store.rankOf m →
            Example.final.rankOf m' = Example.store.rankOf m)) ∧
      ∀ x m', Example.final.findMember 1 x = some m' →
        ∃ m, Example.store.findMember 1 x = some m ∧ m'.isOwner = m.isOwner ∧
          (Example.store.rankOf m < Example.store.rankOf Example.manager →
            Example.final.rankOf m' < Example.store.rankOf Example.manager) := by
  have hby : Example.service.SentBy (· = 7) Example.run := Example.sentBy_run rfl
  have hm : Example.store.findMember 1 7 = some Example.manager := by decide +kernel
  have ho : Example.manager.isOwner = false := rfl
  unfold Example.final
  exact ⟨hby, hm, ho, after_below_rank hby hm ho⟩

/-- The manager deletes the one role of the owner, who ranks below the manager, and with it the
owner's rank. -/
theorem owner_rank_not_kept :
    authenticate Example.service.secret Example.moment.now Example.deletion = .ok 7 ∧
      Example.store.findMember 1 7 = some Example.manager ∧ Example.manager.isOwner = false ∧
      Example.store.findMember 1 9 = some ⟨9, 1, [30], true⟩ ∧
      Example.store.rankOf ⟨9, 1, [30], true⟩ = 3 ∧
      (Example.service.respond Example.moment Example.deletion Example.store).2.findMember 1 9 =
        some ⟨9, 1, [], true⟩ ∧
      (Example.service.respond Example.moment Example.deletion Example.store).2.rankOf
        ⟨9, 1, [], true⟩ = 0 := by
  rw [Example.respond_deletion]
  refine ⟨Example.authenticate_request _ _, ?_⟩
  decide +kernel

end Service

end Guildhall
