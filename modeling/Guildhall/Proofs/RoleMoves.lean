-- SUMMARY: The moves of a role in a history of writes lead from one position to the next, none lost.
import Guildhall.Proofs.Escalation

/-!
# Moves of a role

Whoever moves a role says from where. Of all writes to a store, in whatever order they come, the
moves of one role that the store makes therefore lead on from one another: each starts where the
one before ended, the first one where the role was, and the role is where the last one put it
(`Leads`). What one write does to the role's position is `Store.leads_made`; a history puts these
steps together (`Store.leads_moves`).
-/

namespace Guildhall

/-- Whether moves lead from one position to another, each from where the one before ended. -/
inductive Leads : Int32 → List RoleMove → Int32 → Prop where
  | nil (p : Int32) : Leads p [] p
  | cons (m : RoleMove) {ms : List RoleMove} {q : Int32} :
      Leads m.position ms q → Leads m.expected (m :: ms) q

namespace Leads

variable {p q : Int32} {m n : RoleMove} {ms ns before between after : List RoleMove}

theorem nil_iff : Leads p [] q ↔ p = q := by
  constructor
  · intro h
    cases h
    rfl
  · intro h
    rw [h]
    exact .nil q

theorem cons_iff : Leads p (m :: ms) q ↔ p = m.expected ∧ Leads m.position ms q := by
  constructor
  · intro h
    cases h with
    | cons _ h => exact ⟨rfl, h⟩
  · intro h
    rw [h.1]
    exact .cons m h.2

theorem append_iff : Leads p (ms ++ ns) q ↔ ∃ o, Leads p ms o ∧ Leads o ns q := by
  induction ms generalizing p with
  | nil => simp [nil_iff]
  | cons m ms ih => simp [cons_iff, ih, and_assoc]

/-- What leads to another position has a move that arrives there. -/
theorem exists_arrival (h : Leads p ms q) (hne : p ≠ q) :
    ∃ m ∈ ms, m.expected ≠ q ∧ m.position = q := by
  induction h with
  | nil => exact absurd rfl hne
  | @cons m ms q h ih =>
    by_cases hq : m.position = q
    · exact ⟨m, List.mem_cons_self, hne, hq⟩
    · obtain ⟨b, hb, harrives⟩ := ih hq
      exact ⟨b, List.mem_cons_of_mem m hb, harrives⟩

/-- Between two moves away from one position, a move comes back to it. -/
theorem exists_return (h : Leads p (before ++ m :: (between ++ n :: after)) q)
    (hsame : n.expected = m.expected) (haway : m.position ≠ m.expected) :
    ∃ b ∈ between, b.expected ≠ m.expected ∧ b.position = m.expected := by
  obtain ⟨_, -, hm⟩ := append_iff.1 h
  obtain ⟨o, hbetween, hn⟩ := append_iff.1 (cons_iff.1 hm).2
  have ho : o = m.expected := (cons_iff.1 hn).1.trans hsame
  rw [ho] at hbetween
  exact hbetween.exists_arrival haway

end Leads

/-! ## Single writes -/

/-- The move that a write asks for, if it is about the role. -/
def Write.move? (server role : Id) : Write → Option RoleMove
  | .moveRole server' role' expected position =>
    if server = server' ∧ role = role' then some ⟨expected, position⟩ else none
  | _ => none

namespace Write

variable {server role : Id} {w : Write} {m : RoleMove}

theorem move?_eq_some :
    w.move? server role = some m ↔ w = .moveRole server role m.expected m.position := by
  cases w with
  | moveRole server' role' expected position =>
    simp only [move?, moveRole.injEq]
    constructor
    · intro h
      split at h
      · rename_i hkey
        cases h
        exact ⟨hkey.1.symm, hkey.2.symm, rfl, rfl⟩
      · cases h
    · intro h
      obtain ⟨rfl, rfl, rfl, rfl⟩ := h
      exact if_pos ⟨rfl, rfl⟩
  | createRole | updateRole | deleteRole | assignRole | unassignRole | removeMember
  | replaceOverrides => simp [move?]

/-- What is not a move of a role leaves its position alone. -/
theorem position_onRole_of_move?_eq_none {r r' : Role} (hon : w.onRole r = some r')
    (h : w.move? r.server r.id = none) : r'.position = r.position := by
  cases w with
  | updateRole server role patch =>
    simp only [onRole, Option.some.injEq] at hon
    subst hon
    split <;> rfl
  | moveRole server role expected position =>
    have hkey : ¬ (r.server = server ∧ r.id = role) := by
      intro hkey
      simp [move?, hkey] at h
    simp only [onRole, Option.some.injEq, if_neg hkey] at hon
    rw [hon]
  | deleteRole server role =>
    simp only [onRole] at hon
    split at hon
    · cases hon
    · cases hon
      rfl
  | createRole | assignRole | unassignRole | removeMember | replaceOverrides =>
    cases hon
    rfl

end Write

namespace Store

variable {s : Store} {server role : Id} {r q : Role} {m : RoleMove} {w : Write}
  {ws before rest : List Write}

/-- A move from where the role is puts it into the place asked for. -/
theorem moveRole_of_expected (hr : s.findRole server role = some r)
    (h : r.position = m.expected) :
    s.moveRole server role m.expected m.position =
      .ok (.role { r with position := m.position },
        s.insertRole { r with position := m.position }) := by
  simp [moveRole, hr, h]

/-- A move from anywhere else is a conflict. -/
theorem moveRole_of_unexpected (hr : s.findRole server role = some r)
    (h : r.position ≠ m.expected) :
    s.moveRole server role m.expected m.position =
      .error (.conflict ("Role position changed (expected " ++ toString m.expected.toInt
        ++ ", found " ++ toString r.position.toInt ++ ")")) := by
  simp [moveRole, hr, h]

/-- A move is made just where the role is at the position that it expects. -/
theorem exists_commit_moveRole_iff (hr : s.findRole server role = some r) :
    (∃ done, s.commit (.moveRole server role m.expected m.position) = .ok done) ↔
      r.position = m.expected := by
  simp only [exists_commit_iff_admits, Admits, hr, Option.some.injEq, exists_eq_left']

/-- The moves of a role that a write makes: at most one, and none if it is refused. -/
def made (s : Store) (server role : Id) (w : Write) : List RoleMove :=
  match s.commit w with
  | .ok _ => (w.move? server role).toList
  | .error _ => []

theorem made_of_move?_eq_none (h : w.move? server role = none) : s.made server role w = [] := by
  unfold made
  split
  · rw [h]
    rfl
  · rfl

/-- Whether a write does not delete a role: it is another write, or it is refused. -/
def Retains (s : Store) (server role : Id) (w : Write) : Prop :=
  w = .deleteRole server role → ∃ why, s.commit w = .error why

/-- One write leads from where a role was to where it is. -/
theorem leads_made (hr : s.findRole server role = some r) (hw : s.Retains server role w) :
    ∃ r', (s.afterWrite w).findRole server role = some r' ∧
      Leads r.position (s.made server role w) r'.position := by
  cases hcommit : s.commit w with
  | error why =>
    refine ⟨r, by simp only [afterWrite, hcommit, hr], ?_⟩
    simp only [made, hcommit]
    exact .nil r.position
  | ok result =>
    obtain ⟨receipt, s'⟩ := result
    obtain ⟨hadmits, hfollows⟩ := commit_ok hcommit
    obtain ⟨-, hserver, hid⟩ := findRole_eq_some.1 hr
    simp only [afterWrite, made, hcommit]
    cases hon : w.onRole r with
    | none =>
      have hdelete := Write.eq_deleteRole_of_onRole hon
      rw [hserver, hid] at hdelete
      obtain ⟨why, hwhy⟩ := hw hdelete
      rw [hcommit] at hwhy
      cases hwhy
    | some r' =>
      refine ⟨r', hfollows.findRole_of_onRole hr hon, ?_⟩
      cases hmove : w.move? server role with
      | none =>
        rw [← hserver, ← hid] at hmove
        rw [Write.position_onRole_of_move?_eq_none hon hmove]
        exact .nil r.position
      | some m =>
        rw [Write.move?_eq_some] at hmove
        subst hmove
        obtain ⟨q, hq, hexpected⟩ := hadmits
        cases hr.symm.trans hq
        simp only [Write.onRole, hserver, hid, and_self, if_true, Option.some.injEq] at hon
        subst hon
        rw [hexpected]
        exact .cons m (.nil m.position)

/-! ## Histories -/

/-- The moves of a role that a history of writes makes, in order. -/
def moves (s : Store) (server role : Id) : List Write → List RoleMove
  | [] => []
  | w :: ws => s.made server role w ++ (s.afterWrite w).moves server role ws

/-- Whether no write of a history deletes a role. -/
def Spares (s : Store) (server role : Id) : List Write → Prop
  | [] => True
  | w :: ws => s.Retains server role w ∧ (s.afterWrite w).Spares server role ws

theorem spares_append :
    s.Spares server role (before ++ rest) ↔
      s.Spares server role before ∧ (s.afterWrites before).Spares server role rest := by
  induction before generalizing s with
  | nil => simp [Spares, afterWrites]
  | cons w before ih => simp [Spares, afterWrites, ih, and_assoc]

/-- A history leads from where a role was to where it is. -/
theorem leads_moves (hr : s.findRole server role = some r) (hws : s.Spares server role ws) :
    ∃ r', (s.afterWrites ws).findRole server role = some r' ∧
      Leads r.position (s.moves server role ws) r'.position := by
  induction ws generalizing s r with
  | nil => exact ⟨r, hr, .nil r.position⟩
  | cons w ws ih =>
    obtain ⟨q, hq, hmade⟩ := leads_made hr hws.1
    obtain ⟨r', hr', hmoves⟩ := ih hq hws.2
    exact ⟨r', hr', Leads.append_iff.2 ⟨q.position, hmade, hmoves⟩⟩

/-- No history of writes loses a move of a role that it leaves in the store. The moves made lead
from where the role was to where it is; at every point a move from where the role then is is
made, a move from elsewhere is a conflict without effect, and no other write changes the
position. So two moves away from one position have a move back to it between them. -/
theorem no_move_is_lost (hr : s.findRole server role = some r) (hws : s.Spares server role ws) :
    (∃ r', (s.afterWrites ws).findRole server role = some r' ∧
      Leads r.position (s.moves server role ws) r'.position) ∧
    (∀ before w rest, ws = before ++ w :: rest →
      ∃ q q', (s.afterWrites before).findRole server role = some q ∧
        ((s.afterWrites before).afterWrite w).findRole server role = some q' ∧
        (w.move? server role = none → q'.position = q.position) ∧
        ∀ m, w.move? server role = some m →
          (q.position = m.expected →
            (∃ receipt, (s.afterWrites before).commit w = .ok receipt) ∧
              q'.position = m.position) ∧
          (q.position ≠ m.expected →
            (s.afterWrites before).commit w = .error (.conflict
              ("Role position changed (expected " ++ toString m.expected.toInt
                ++ ", found " ++ toString q.position.toInt ++ ")")) ∧
              (s.afterWrites before).afterWrite w = s.afterWrites before)) ∧
    ∀ before m between n after,
      s.moves server role ws = before ++ m :: (between ++ n :: after) →
        n.expected = m.expected → m.position ≠ m.expected →
          ∃ b ∈ between, b.expected ≠ m.expected ∧ b.position = m.expected := by
  obtain ⟨r', hr', hleads⟩ := leads_moves hr hws
  refine ⟨⟨r', hr', hleads⟩, ?_, ?_⟩
  · intro before w rest hsplit
    rw [hsplit, spares_append] at hws
    obtain ⟨q, hq, -⟩ := leads_moves hr hws.1
    obtain ⟨q', hq', hmade⟩ := leads_made hq hws.2.1
    refine ⟨q, q', hq, hq', ?_, ?_⟩
    · intro hnone
      rw [made_of_move?_eq_none hnone, Leads.nil_iff] at hmade
      exact hmade.symm
    · intro m hmove
      rw [Write.move?_eq_some] at hmove
      subst hmove
      constructor
      · intro hposition
        have hcommit := moveRole_of_expected hq hposition
        simp only [made, commit, hcommit, Write.move?, and_self, if_true, Option.toList_some,
          Leads.cons_iff, Leads.nil_iff] at hmade
        exact ⟨⟨_, hcommit⟩, hmade.2.symm⟩
      · intro hposition
        have hcommit := moveRole_of_unexpected hq hposition
        exact ⟨hcommit, by simp only [afterWrite, commit, hcommit]⟩
  · intro before m between n after hmoves hsame haway
    rw [hmoves] at hleads
    exact hleads.exists_return hsame haway

end Store

/-- The guards are moved and moved back between edits, stale moves and moves in a wrong server. -/
def Example.moveHistory : List Write :=
  [.moveRole 1 30 3 6, .moveRole 1 30 3 2, .updateRole 1 30 ⟨some "watch", none, none⟩,
    .moveRole 2 30 6 1, .deleteRole 1 20, .moveRole 1 30 6 3, .moveRole 1 30 3 2]

/-- The guards leave position 3 twice, having come back in between. -/
theorem Store.no_move_is_lost_guard :
    Example.store.moves 1 30 Example.moveHistory = [⟨3, 6⟩, ⟨6, 3⟩, ⟨3, 2⟩] ∧
      ∃ r', (Example.store.afterWrites Example.moveHistory).findRole 1 30 = some r' ∧
        Leads 3 (Example.store.moves 1 30 Example.moveHistory) r'.position := by
  have hr : Example.store.findRole 1 30 =
      some ⟨30, 1, "guard", none, 3, .ofList [.banMembers], false⟩ := by decide +kernel
  have hother : (20 : Id) ≠ 30 := by decide
  have hws : Example.store.Spares 1 30 Example.moveHistory := by
    simp [Example.moveHistory, Spares, Retains, hother]
  exact ⟨by decide +kernel, (no_move_is_lost hr hws).1⟩

end Guildhall
