-- SUMMARY: After any history of writes a member holds what was last assigned to them and not taken away since.
import Guildhall.Proofs.Integrity
import Mathlib.Data.List.Infix

/-!
# Assignments

Whether a member holds a role three writes are about: the assignment of the role to them, its withdrawal
from them and its deletion. Each has a verdict, and `Write.holds_onMember` says that the member holds the
role afterwards as the verdict is, and as before if the write has none. So after a history the last
successful one of these writes decides (`Store.holds_afterWrites`), whatever else is written in between
and by whom.
-/

namespace Guildhall

/-! ## Single writes -/

namespace Write

variable {w : Write} {server user role id : Id} {m m' : Member} {b : Bool}

/-- Whether the write has a user of a server hold a role or not hold it, if it is about that. -/
def verdict (server user role : Id) : Write → Option Bool
  | .assignRole server' user' role' =>
    if server = server' ∧ user = user' ∧ role = role' then some true else none
  | .unassignRole server' user' role' =>
    if server = server' ∧ user = user' ∧ role = role' then some false else none
  | .deleteRole server' role' => if server = server' ∧ role = role' then some false else none
  | _ => none

/-- The assignment of a role to a user, or its withdrawal. -/
def settle (server user role : Id) : Bool → Write
  | true => .assignRole server user role
  | false => .unassignRole server user role

theorem verdict_eq_none : w.verdict server user role = none ↔
    w ≠ .assignRole server user role ∧ w ≠ .unassignRole server user role ∧
      w ≠ .deleteRole server role := by
  cases w with
  | assignRole | unassignRole | deleteRole => simp [verdict, eq_comm]
  | createRole | updateRole | moveRole | removeMember | replaceOverrides => simp [verdict]

theorem verdict_settle (h : id = role) :
    (settle server user role b).verdict server user id = some b := by
  cases b <;> simp [settle, verdict, h]

theorem verdict_settle_of_ne (h : id ≠ role) :
    (settle server user role b).verdict server user id = none := by
  cases b <;> simp [settle, verdict, h]

/-- A write leaves a member holding a role as its verdict is, or as they did if it has none. -/
theorem holds_onMember (hon : w.onMember m = some m') (role : Id) :
    m'.holds role = (w.verdict m.server m.user role).getD (m.holds role) := by
  obtain ⟨id, rfl, rfl⟩ | ⟨id, hw, rfl⟩ | ⟨rfl, hnone⟩ := onMember_cases hon
  · by_cases hid : role = id
    · simpa [verdict, hid] using Member.holds_assign.2 (.inr rfl)
    · simpa [verdict, hid] using Member.holds_assign_of_ne hid
  · by_cases hid : role = id
    · obtain rfl | rfl := hw <;> simp [verdict, hid, Member.holds, Member.unassign]
    · obtain rfl | rfl := hw <;> simpa [verdict, hid] using Member.holds_unassign_of_ne hid
  · rw [verdict_eq_none.2 (hnone role), Option.getD_none]

/-- The roles that a member holds before and after a write keep their order. -/
theorem filter_onMember {p : Id → Bool} (hon : w.onMember m = some m')
    (hp : ∀ role, p role = true → role ∈ m.roles ∧ role ∈ m'.roles) :
    m'.roles.filter p = m.roles.filter p := by
  obtain ⟨id, -, rfl⟩ | ⟨id, -, rfl⟩ | ⟨rfl, -⟩ := onMember_cases hon
  · unfold Member.assign
    split
    · rfl
    · rename_i hnot
      have hid : p id = false := by
        rw [Bool.eq_false_iff]
        exact fun h => hnot (Member.holds_iff.2 (hp id h).1)
      simp [List.filter_append, hid]
  · rw [Member.unassign, List.filter_filter]
    refine List.filter_congr fun role _ => ?_
    cases hrole : p role with
    | false => rfl
    | true => simpa using (List.mem_filter.1 (hp role hrole).2).2
  · rfl

end Write

/-! ## Histories -/

namespace Store

variable {s s' : Store} {w : Write} {ws : List Write} {server user role : Id} {m m' : Member}

/-- The verdict of a write on a user and a role, provided that the write is made. -/
def passed (s : Store) (server user role : Id) (w : Write) : List Bool :=
  match s.commit w with
  | .ok _ => (w.verdict server user role).toList
  | .error _ => []

/-- The verdicts of the successful writes of a history on a user and a role, in order. -/
def verdicts (s : Store) (server user role : Id) : List Write → List Bool
  | [] => []
  | w :: ws => s.passed server user role w ++ (s.afterWrite w).verdicts server user role ws

/-- Whether a user holds a role at every point of a history. -/
def HeldThroughout (s : Store) (server user role : Id) (ws : List Write) : Prop :=
  ∀ before rest, ws = before ++ rest →
    ∃ n, (s.afterWrites before).findMember server user = some n ∧ role ∈ n.roles

instance : Decidable (s.HeldThroughout server user role ws) :=
  decidable_of_iff (∀ before ∈ ws.inits,
      ∃ n ∈ (s.afterWrites before).findMember server user, role ∈ n.roles) (by
    simp only [List.mem_inits, HeldThroughout, Option.mem_def]
    constructor
    · intro h before rest hsplit
      exact h before ⟨rest, hsplit.symm⟩
    · rintro h before ⟨rest, hsplit⟩
      exact h before rest hsplit.symm)

theorem afterWrites_cons (s : Store) (w : Write) (ws : List Write) :
    s.afterWrites (w :: ws) = (s.afterWrite w).afterWrites ws := rfl

theorem afterWrites_append (s : Store) (before rest : List Write) :
    s.afterWrites (before ++ rest) = (s.afterWrites before).afterWrites rest := List.foldl_append

/-- A member after a write was one before, and is what the write makes of them unless it is refused. -/
theorem member_of_afterWrite (h : (s.afterWrite w).findMember server user = some m') :
    ∃ m, s.findMember server user = some m ∧
      ((∃ why, s.commit w = .error why) ∧ m' = m ∨
        (∃ done, s.commit w = .ok done) ∧ w.onMember m = some m') := by
  unfold afterWrite at h
  split at h
  · rename_i receipt s' hc
    obtain ⟨m, hm, hon⟩ := (commit_ok hc).2.findMember_of_findMember h
    exact ⟨m, hm, .inr ⟨⟨_, hc⟩, hon⟩⟩
  · rename_i why hc
    exact ⟨m', h, .inl ⟨⟨why, hc⟩, rfl⟩⟩

/-- Whoever is a member at the end was one all the time, as no write adds members. -/
theorem member_of_afterWrites (h : (s.afterWrites ws).findMember server user = some m') :
    ∃ m, s.findMember server user = some m := by
  induction ws generalizing s with
  | nil => exact ⟨m', h⟩
  | cons w ws ih =>
    obtain ⟨n, hn⟩ := ih h
    obtain ⟨m, hm, -⟩ := member_of_afterWrite hn
    exact ⟨m, hm⟩

theorem holds_afterWrite (hm : s.findMember server user = some m)
    (hm' : (s.afterWrite w).findMember server user = some m') (role : Id) :
    m'.holds role = (s.passed server user role w).getLast?.getD (m.holds role) := by
  obtain ⟨n, hn, hstep⟩ := member_of_afterWrite hm'
  cases hm.symm.trans hn
  unfold passed
  obtain ⟨⟨why, hc⟩, rfl⟩ | ⟨⟨done, hc⟩, hon⟩ := hstep
  · simp [hc]
  · obtain ⟨-, rfl, rfl⟩ := findMember_eq_some.1 hm
    rw [Write.holds_onMember hon, hc]
    cases w.verdict m.server m.user role <;> rfl

/-- The last verdict stands. -/
theorem holds_afterWrites (hm : s.findMember server user = some m)
    (hm' : (s.afterWrites ws).findMember server user = some m') (role : Id) :
    m'.holds role = (s.verdicts server user role ws).getLast?.getD (m.holds role) := by
  induction ws generalizing s m with
  | nil =>
    cases hm.symm.trans hm'
    rfl
  | cons w ws ih =>
    -- who is there at the end is there after the first write, which only then has a say
    rw [afterWrites_cons] at hm'
    obtain ⟨n, hn⟩ := member_of_afterWrites hm'
    rw [ih hn hm', holds_afterWrite hm hn, verdicts, List.getLast?_append, Option.getD_or]

theorem nodup_afterWrites (hm : s.findMember server user = some m)
    (hm' : (s.afterWrites ws).findMember server user = some m') (h : m.roles.Nodup) :
    m'.roles.Nodup := by
  induction ws generalizing s m with
  | nil =>
    cases hm.symm.trans hm'
    exact h
  | cons w ws ih =>
    rw [afterWrites_cons] at hm'
    obtain ⟨n, hn⟩ := member_of_afterWrites hm'
    obtain ⟨q, hq, hstep⟩ := member_of_afterWrite hn
    cases hm.symm.trans hq
    refine ih hn hm' ?_
    obtain ⟨-, rfl⟩ | ⟨-, hon⟩ := hstep
    · exact h
    · exact Write.nodup_onMember hon h

theorem HeldThroughout.tail (h : s.HeldThroughout server user role (w :: ws)) :
    (s.afterWrite w).HeldThroughout server user role ws :=
  fun before rest hsplit => h (w :: before) rest (congrArg (w :: ·) hsplit)

theorem HeldThroughout.mem (h : s.HeldThroughout server user role ws)
    (hm : s.findMember server user = some m) : role ∈ m.roles := by
  obtain ⟨n, hn, hrole⟩ := h [] ws rfl
  cases hm.symm.trans hn
  exact hrole

/-- The roles that a member holds all the time keep their order. -/
theorem filter_afterWrites {p : Id → Bool} (hm : s.findMember server user = some m)
    (hm' : (s.afterWrites ws).findMember server user = some m')
    (hp : ∀ role, p role = true → s.HeldThroughout server user role ws) :
    m'.roles.filter p = m.roles.filter p := by
  induction ws generalizing s m with
  | nil =>
    cases hm.symm.trans hm'
    rfl
  | cons w ws ih =>
    rw [afterWrites_cons] at hm'
    obtain ⟨n, hn⟩ := member_of_afterWrites hm'
    obtain ⟨q, hq, hstep⟩ := member_of_afterWrite hn
    cases hm.symm.trans hq
    rw [ih hn hm' fun role hrole => (hp role hrole).tail]
    obtain ⟨-, rfl⟩ | ⟨-, hon⟩ := hstep
    · rfl
    · exact Write.filter_onMember hon fun role hrole =>
        ⟨(hp role hrole).mem hm, (hp role hrole).tail.mem hn⟩

/-! ## Concurrent assignments -/

theorem Follows.admits_settle {a b : Id} {x y : Bool} (hf : s.Follows (.settle server user a x) s')
    (hb : s.Admits (.settle server user b y)) : s'.Admits (.settle server user b y) := by
  have hrole {r : Role} (h : s.findRole server b = some r) : s'.findRole server b = some r := by
    cases x <;> exact hf.findRole_of_onRole h rfl
  have hmember (h : ∃ m, s.findMember server user = some m) :
      ∃ m, s'.findMember server user = some m := by
    obtain ⟨m, hm⟩ := h
    cases x <;> exact ⟨_, hf.findMember_of_onMember hm rfl⟩
  cases y with
  | true =>
    obtain ⟨⟨r, hr, hd⟩, hm⟩ := hb
    exact ⟨⟨r, hrole hr, hd⟩, hmember hm⟩
  | false => exact hmember hb

/-- Of two assignments or withdrawals that the store would make, the second is made after the first,
and both last. -/
theorem settle_settle {a b : Id} {x y : Bool} (hne : a ≠ b) (hm : s.findMember server user = some m)
    (ha : ∃ done, s.commit (.settle server user a x) = .ok done)
    (hb : ∃ done, s.commit (.settle server user b y) = .ok done) :
    (∃ done, (s.afterWrite (.settle server user a x)).commit (.settle server user b y) = .ok done) ∧
      ∃ n, (s.afterWrites [.settle server user a x, .settle server user b y]).findMember server user =
        some n ∧ n.holds a = x ∧ n.holds b = y ∧
        ∀ role, role ≠ a → role ≠ b → n.holds role = m.holds role := by
  obtain ⟨⟨receipt, s₁⟩, hc₁⟩ := ha
  have hf₁ := (commit_ok hc₁).2
  obtain ⟨⟨receipt₂, s₂⟩, hc₂⟩ :=
    exists_commit_iff_admits.2 (hf₁.admits_settle (exists_commit_iff_admits.1 hb))
  have hf₂ := (commit_ok hc₂).2
  obtain ⟨m₁, hm₁⟩ : ∃ m₁, s₁.findMember server user = some m₁ := by
    cases x <;> exact ⟨_, hf₁.findMember_of_onMember hm rfl⟩
  obtain ⟨n, hn⟩ : ∃ n, s₂.findMember server user = some n := by
    cases y <;> exact ⟨_, hf₂.findMember_of_onMember hm₁ rfl⟩
  have hs₁ : s.afterWrite (.settle server user a x) = s₁ := by simp only [afterWrite, hc₁]
  have hs₂ : s₁.afterWrite (.settle server user b y) = s₂ := by simp only [afterWrite, hc₂]
  have hfinal : s.afterWrites [.settle server user a x, .settle server user b y] = s₂ := by
    simp only [afterWrites, List.foldl_cons, List.foldl_nil, hs₁, hs₂]
  have hholds := holds_afterWrites hm (hfinal ▸ hn)
  simp only [verdicts, passed, hc₁, hs₁, hc₂, List.append_nil] at hholds
  refine ⟨⟨_, hs₁ ▸ hc₂⟩, n, hfinal ▸ hn, ?_, ?_, ?_⟩
  · simp [hholds a, Write.verdict_settle rfl, Write.verdict_settle_of_ne hne]
  · simp [hholds b, Write.verdict_settle rfl]
  · intro role hra hrb
    simp [hholds role, Write.verdict_settle_of_ne hra, Write.verdict_settle_of_ne hrb]

/-! ## All histories -/

/-- The roles of a member are a set in which the last writer wins. After any history that leaves the
member in the store, the member holds just the roles whose last successful assignment, withdrawal or
deletion was an assignment, and those without any of these that were held at the start; none twice, and
those held all the time in their old order. At every point of the history, a write that is refused or is
none of these leaves the role as it was. Of two writes about different roles neither undoes the other. -/
theorem mem_roles_afterWrites (hm : s.findMember server user = some m) (hnodup : m.roles.Nodup)
    (hm' : (s.afterWrites ws).findMember server user = some m') :
    (∀ role, role ∈ m'.roles ↔
      (s.verdicts server user role ws).getLast? = some true ∨
        s.verdicts server user role ws = [] ∧ role ∈ m.roles) ∧
    m'.roles.Nodup ∧
    (∀ p : Id → Bool, (∀ role, p role = true → s.HeldThroughout server user role ws) →
      m'.roles.filter p = m.roles.filter p) ∧
    (∀ before w rest, ws = before ++ w :: rest →
      ∃ n n', (s.afterWrites before).findMember server user = some n ∧
        ((s.afterWrites before).afterWrite w).findMember server user = some n' ∧
        ∀ role, (∃ why, (s.afterWrites before).commit w = .error why) ∨
            w ≠ .assignRole server user role ∧ w ≠ .unassignRole server user role ∧
              w ≠ .deleteRole server role →
          (role ∈ n'.roles ↔ role ∈ n.roles)) ∧
    ∀ a b x y, a ≠ b → (∃ done, s.commit (.settle server user a x) = .ok done) →
      (∃ done, s.commit (.settle server user b y) = .ok done) →
      (∃ done, (s.afterWrite (.settle server user a x)).commit (.settle server user b y) = .ok done) ∧
        ∃ n, (s.afterWrites [.settle server user a x, .settle server user b y]).findMember server user =
          some n ∧ n.holds a = x ∧ n.holds b = y ∧
          ∀ role, role ≠ a → role ≠ b → n.holds role = m.holds role := by
  refine ⟨fun role => ?_, nodup_afterWrites hm hm' hnodup, fun p => filter_afterWrites hm hm', ?_,
    fun a b x y hne => settle_settle hne hm⟩
  · rw [← Member.holds_iff, holds_afterWrites hm hm', ← Member.holds_iff]
    cases hlast : (s.verdicts server user role ws).getLast? with
    | none => simp [List.getLast?_eq_none_iff.1 hlast]
    | some b =>
      have hne : s.verdicts server user role ws ≠ [] := by
        intro hnil
        rw [hnil] at hlast
        cases hlast
      simp [hne]
  · intro before w rest hsplit
    rw [hsplit, afterWrites_append, afterWrites_cons] at hm'
    obtain ⟨n', hn'⟩ := member_of_afterWrites hm'
    obtain ⟨n, hn, hstep⟩ := member_of_afterWrite hn'
    refine ⟨n, n', hn, hn', fun role hidle => ?_⟩
    obtain ⟨-, rfl⟩ | ⟨⟨done, hc⟩, hon⟩ := hstep
    · rfl
    · obtain ⟨why, hwhy⟩ | hother := hidle
      · rw [hc] at hwhy
        cases hwhy
      · obtain ⟨-, rfl, rfl⟩ := findMember_eq_some.1 hn
        have hverdict := Write.verdict_eq_none.2 hother
        rw [← Member.holds_iff, ← Member.holds_iff, Write.holds_onMember hon, hverdict,
          Option.getD_none]

end Store

/-- The manager is made a guard twice, loses that with the role, and is made a guard anew, among refused
writes and writes about others. -/
def Example.dutyHistory : List Write :=
  [.assignRole 1 7 30, .unassignRole 1 8 20, .assignRole 1 7 30, .deleteRole 1 30,
    .assignRole 1 7 30, .createRole ⟨30, 1, "guard", none, 3, ∅, false⟩, .assignRole 1 7 10,
    .assignRole 1 7 30, .moveRole 1 20 5 1]

theorem Store.mem_roles_afterWrites_manager :
    Example.store.findMember 1 7 = some Example.manager ∧
      (Example.store.afterWrites Example.dutyHistory).findMember 1 7 = some ⟨7, 1, [20, 30], false⟩ ∧
      Example.store.verdicts 1 7 30 Example.dutyHistory = [true, true, false, true] ∧
      Example.store.HeldThroughout 1 7 20 Example.dutyHistory ∧
      ((30 : Id) ∈ [20, 30] ↔ (Example.store.verdicts 1 7 30 Example.dutyHistory).getLast? = some true ∨
        Example.store.verdicts 1 7 30 Example.dutyHistory = [] ∧ 30 ∈ Example.manager.roles) ∧
      ([20, 30] : List Id).filter (· == 20) = Example.manager.roles.filter (· == 20) := by
  have hfacts : Example.store.findMember 1 7 = some Example.manager ∧
      (Example.store.afterWrites Example.dutyHistory).findMember 1 7 = some ⟨7, 1, [20, 30], false⟩ ∧
      Example.store.verdicts 1 7 30 Example.dutyHistory = [true, true, false, true] ∧
      Example.store.HeldThroughout 1 7 20 Example.dutyHistory := by decide
  obtain ⟨hm, hm', hverdicts, hheld⟩ := hfacts
  obtain ⟨hmem, -, hfilter, -⟩ := mem_roles_afterWrites hm (by decide) hm'
  refine ⟨hm, hm', hverdicts, hheld, hmem 30, hfilter _ fun role hrole => ?_⟩
  rw [beq_iff_eq.1 hrole]
  exact hheld

end Guildhall
