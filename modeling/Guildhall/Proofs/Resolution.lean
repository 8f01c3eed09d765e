-- SUMMARY: Which permissions a member has in a server as a whole, as a statement about the roles that count for them.
import Guildhall.Resolution
import Mathlib.Tactic.Tauto

/-!
# Resolution by membership

`Member.mem_resolve_none` says which permissions a member has in a server: those that the
default role or a held role grants, and all of them if the administrator permission is
among these. The order of the roles and repeated entries do not show in it.
-/

namespace Guildhall

/-- Ids tell the roles of the list apart: roles with one id are one role. -/
def IdsIdentify (roles : List Role) : Prop :=
  ∀ r ∈ roles, ∀ q ∈ roles, r.id = q.id → r = q

theorem IdsIdentify.of_subset {as bs : List Role} (h : IdsIdentify bs) (hsub : as ⊆ bs) :
    IdsIdentify as := fun r hr q hq => h r (hsub hr) q (hsub hq)

/-! ## Held roles -/

private theorem eraseRepsBy_loop_eq {α : Type} (r : α → α → Bool) (a : α) (as acc : List α) :
    List.eraseRepsBy.loop r a as acc = acc.reverse ++ (a :: as).eraseRepsBy r := by
  induction as generalizing a acc with
  | nil => simp [List.eraseRepsBy, List.eraseRepsBy.loop]
  | cons b bs ih =>
    simp only [List.eraseRepsBy, List.eraseRepsBy.loop]
    split
    · exact ih a acc
    · rw [ih b (a :: acc), ih b [a]]
      simp

/-- Of two neighbours that count as repeated, the first one stays. -/
theorem eraseRepsBy_cons_cons {α : Type} (r : α → α → Bool) (a b : α) (as : List α) :
    (a :: b :: as).eraseRepsBy r =
      if r a b then (a :: as).eraseRepsBy r else a :: (b :: as).eraseRepsBy r := by
  rw [List.eraseRepsBy, List.eraseRepsBy.loop]
  cases hab : r a b with
  | true => rfl
  | false => simpa using eraseRepsBy_loop_eq r b as [a]

/-- Dropping repetitions keeps the members, as long as only equal elements count as repeated. -/
theorem mem_eraseRepsBy {α : Type} {r : α → α → Bool} {x : α} {as : List α}
    (h : ∀ b ∈ as, ∀ c ∈ as, r b c = true → b = c) : x ∈ as.eraseRepsBy r ↔ x ∈ as := by
  cases as with
  | nil => rfl
  | cons a as =>
    induction as generalizing a with
    | nil => rfl
    | cons b bs ih =>
      have htail : ∀ c ∈ b :: bs, ∀ d ∈ b :: bs, r c d = true → c = d := fun c hc d hd =>
        h c (List.mem_cons_of_mem a hc) d (List.mem_cons_of_mem a hd)
      rw [eraseRepsBy_cons_cons]
      split
      · rename_i hab
        obtain rfl : a = b := h a (by simp) b (by simp) hab
        rw [ih a htail]
        simp
      · rw [List.mem_cons, List.mem_cons, ih b htail]

theorem Member.heldBeside_iff {m : Member} {e r : Role} :
    m.heldBeside e r = true ↔
      r.server = m.server ∧ r.id ≠ e.id ∧ r.isDefault = false ∧ m.holds r.id = true := by
  simp [Member.heldBeside, and_assoc]

theorem Member.mem_heldRoles {m : Member} {roles : List Role} {e r : Role}
    (h : IdsIdentify roles) :
    r ∈ m.heldRoles roles e ↔ r ∈ roles ∧ m.heldBeside e r = true := by
  have hsame : ∀ b ∈ sortBy Role.rankLe (roles.filter (m.heldBeside e)),
      ∀ c ∈ sortBy Role.rankLe (roles.filter (m.heldBeside e)),
      (b.id == c.id) = true → b = c := by
    intro b hb c hc hbc
    rw [mem_sortBy] at hb hc
    exact h b (List.mem_filter.1 hb).1 c (List.mem_filter.1 hc).1 (by simpa using hbc)
  rw [Member.heldRoles, mem_eraseRepsBy hsame, mem_sortBy, List.mem_filter]

theorem mem_foldl_permissions {p : Permission} {held : List Role} {s : PermissionSet} :
    p ∈ held.foldl (fun s r => s ∪ r.permissions) s ↔ p ∈ s ∨ ∃ r ∈ held, p ∈ r.permissions := by
  induction held generalizing s with
  | nil => simp
  | cons r rs ih => simp [ih, or_assoc]

theorem mem_basePermissions {p : Permission} {e : Role} {held : List Role} :
    p ∈ basePermissions e held ↔ p ∈ e.permissions ∨ ∃ r ∈ held, p ∈ r.permissions :=
  mem_foldl_permissions


/-! ## Permissions in a server -/

theorem Member.usableEveryone_eq_some {m : Member} {everyone : Option Role} {e : Role} :
    m.usableEveryone everyone = some e ↔
      everyone = some e ∧ e.isDefault = true ∧ e.server = m.server := by
  simp [Member.usableEveryone, Option.filter_eq_some_iff]

/-- Whether the default role or a role that the member holds besides it grants the permission. -/
def Member.Draws (m : Member) (roles : List Role) (e : Role) (p : Permission) : Prop :=
  p ∈ e.permissions ∨ ∃ r ∈ roles, m.heldBeside e r = true ∧ p ∈ r.permissions

theorem Member.resolve_none_of_isOwner {m : Member} {roles : List Role} {everyone : Option Role}
    (h : m.isOwner = true) : m.resolve roles everyone none = .full := by
  simp [Member.resolve, Member.resolveInServer, h]

/-- Without a usable default role nobody but the owner has a permission. -/
theorem Member.resolve_none_of_unusable {m : Member} {roles : List Role} {everyone : Option Role}
    (h : m.isOwner = false) (he : m.usableEveryone everyone = none) :
    m.resolve roles everyone none = ∅ := by
  simp [Member.resolve, Member.resolveInServer, h, he]

/-- What a member who does not own the server may do there. -/
theorem Member.mem_resolve_none {m : Member} {roles : List Role} {everyone : Option Role}
    {e : Role} {p : Permission} (h : m.isOwner = false) (he : m.usableEveryone everyone = some e)
    (hd : IdsIdentify roles) :
    p ∈ m.resolve roles everyone none ↔ m.Draws roles e .administrator ∨ m.Draws roles e p := by
  have hbase : ∀ q, q ∈ basePermissions e (m.heldRoles roles e) ↔ m.Draws roles e q := by
    intro q
    simp [mem_basePermissions, Member.mem_heldRoles hd, Member.Draws, and_assoc]
  have hres : m.resolve roles everyone none = (basePermissions e (m.heldRoles roles e)).widened := by
    simp [Member.resolve, Member.resolveInServer, h, he, PermissionSet.widened]
  rw [hres, PermissionSet.mem_widened, hbase, hbase]

/-- The administrator permission is never had without all others. -/
theorem Member.mem_resolve_none_of_admin {m : Member} {roles : List Role}
    {everyone : Option Role} (h : .administrator ∈ m.resolve roles everyone none)
    (p : Permission) : p ∈ m.resolve roles everyone none := by
  simp only [Member.resolve, Member.resolveInServer] at h ⊢
  cases ho : m.isOwner with
  | true => simp
  | false =>
    cases he : m.usableEveryone everyone with
    | none => simp [ho, he] at h
    | some e =>
      cases ha : (basePermissions e (m.heldRoles roles e)).isAdmin with
      | true => simp [ha]
      | false =>
        simp only [ho, he, ha, Bool.false_eq_true, if_false] at h
        rw [PermissionSet.isAdmin_eq_true.2 h] at ha
        cases ha

/-! ## Inside the member's server -/

/-- Whether the channel, if there is one, is a text channel of the member's server. -/
def Member.Within (m : Member) (channel : Option Channel) : Prop :=
  ∀ c, channel = some c → c.isDm = false ∧ c.server = some m.server

theorem Member.within_none (m : Member) : m.Within none := by
  rintro c ⟨⟩

theorem Member.within_some {m : Member} {c : Channel} (hdm : c.isDm = false)
    (hs : c.server = some m.server) : m.Within (some c) := by
  rintro d ⟨⟩
  exact ⟨hdm, hs⟩

theorem Member.resolve_of_within {m : Member} {roles : List Role} {everyone : Option Role}
    {channel : Option Channel} (h : m.Within channel) :
    m.resolve roles everyone channel =
      m.resolveInServer roles everyone (channel.map Channel.overrides) := by
  cases channel with
  | none => rfl
  | some c =>
    obtain ⟨hdm, hs⟩ := h c rfl
    simp [Member.resolve, hdm, hs]

/-- In the member's server, whoever is not the owner needs a usable default role, and beyond that
only the permission. -/
theorem Member.authorize_of_within {m : Member} {p : Permission} {roles : List Role}
    {everyone : Option Role} {channel : Option Channel} (h : m.Within channel) :
    m.authorize p roles everyone channel =
      if m.isOwner then .allowed
      else if (m.usableEveryone everyone).isNone then .denied .misconfigured
      else if (m.resolve roles everyone channel).grants p then .allowed
      else .denied (.missingPermission p) := by
  cases channel with
  | none => rfl
  | some c =>
    obtain ⟨hdm, hs⟩ := h c rfl
    simp [Member.authorize, hdm, hs]

private theorem not_grants_empty (p : Permission) : (∅ : PermissionSet).grants p = false := by
  cases p <;> decide

/-- In the member's server, what is granted takes ownership or a usable default role. -/
theorem Member.resolve_grants_of_within {m : Member} {p : Permission} {roles : List Role}
    {everyone : Option Role} {channel : Option Channel} (h : m.Within channel)
    (hg : (m.resolve roles everyone channel).grants p = true) :
    m.isOwner = true ∨ ∃ e, m.usableEveryone everyone = some e := by
  rw [Member.resolve_of_within h] at hg
  cases ho : m.isOwner with
  | true => exact .inl rfl
  | false =>
    cases he : m.usableEveryone everyone with
    | none => simp [Member.resolveInServer, ho, he, not_grants_empty] at hg
    | some e => exact .inr ⟨e, rfl⟩

/-- Owners are granted everything in their server. -/
theorem Member.grants_of_isOwner {m : Member} {p : Permission} {roles : List Role}
    {everyone : Option Role} {channel : Option Channel} (h : m.Within channel)
    (ho : m.isOwner = true) : (m.resolve roles everyone channel).grants p = true := by
  simp [Member.resolve_of_within h, Member.resolveInServer, ho, PermissionSet.grants_iff]

/-! ## Decisions -/

private theorem administrator_not_mem_dm : .administrator ∉ PermissionSet.dm := by decide

/-- In a direct message, recipients only lack what no direct message grants. -/
theorem authorizeDm_of_recipient {p : Permission} {user : Id} {c : Channel} (hc : c.isDm = true)
    (hr : c.isRecipient user = true) :
    authorizeDm p user c =
      if (resolveDm user c).grants p then .allowed else .denied (.notAllowedInDm p) := by
  have hgrants : (resolveDm user c).grants p = (resolveDm user c).contains p := by
    rw [Bool.eq_iff_iff, PermissionSet.grants_iff]
    simp [resolveDm, hc, hr, administrator_not_mem_dm]
  simp [authorizeDm, hr, hgrants]

private theorem authorizeDm_eq_allowed {p : Permission} {user : Id} {c : Channel}
    (hc : c.isDm = true) :
    authorizeDm p user c = .allowed ↔ (resolveDm user c).grants p = true := by
  cases hr : c.isRecipient user with
  | false => simp [authorizeDm, resolveDm, hr, not_grants_empty]
  | true => simp [authorizeDm_of_recipient hc hr]

/-- What is authorized is what the resolved set grants. -/
theorem Member.authorize_eq_allowed {m : Member} {p : Permission} {roles : List Role}
    {everyone : Option Role} {channel : Option Channel} :
    m.authorize p roles everyone channel = .allowed ↔
      (m.resolve roles everyone channel).grants p = true := by
  have inServer (h : m.Within channel) : m.authorize p roles everyone channel = .allowed ↔
      (m.resolve roles everyone channel).grants p = true := by
    rw [Member.authorize_of_within h]
    cases ho : m.isOwner with
    | true => simp [Member.grants_of_isOwner h ho]
    | false =>
      cases he : m.usableEveryone everyone with
      | none => simp [Member.resolve_of_within h, Member.resolveInServer, ho, he, not_grants_empty]
      | some e => simp
  cases channel with
  | none => exact inServer m.within_none
  | some c =>
    cases hc : c.isDm with
    | true => simp [Member.authorize, Member.resolve, hc, authorizeDm_eq_allowed hc]
    | false =>
      by_cases hs : c.server = some m.server
      · exact inServer (Member.within_some hc hs)
      · simp [Member.authorize, Member.resolve, hc, hs, not_grants_empty]

end Guildhall
