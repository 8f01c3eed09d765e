-- SUMMARY: What a request has passed is all that the store asks for, but for the position of a role that is moved.
import Guildhall.Proofs.Interleaving

/-!
# Admission

The store refuses writes on its own account: for records that are not there, for the default role and for
ids that are taken. A request that sees one store from beginning to end has passed all of this before it
comes to a write (`Store.Entitles.admits`), with one exception. Where a role is that is to be moved, only
the store looks at. So a planned write is made, or it is a move from where the role is not
(`Service.commit_of_plan`).
-/

namespace Guildhall

namespace Store

variable {s : Store} {limits : Limits} {fresh user : Id} {w : Write} {why : Refusal}

/-- Whether a write moves a role from where the role is not, and what it is refused with. -/
inductive Outdated (s : Store) : Write → Refusal → Prop
  | moveRole {server role : Id} {expected position : Int32} {target : Role}
      (found : s.findRole server role = some target)
      (elsewhere : target.position ≠ expected) :
      s.Outdated (.moveRole server role expected position)
        (.conflict ("Role position changed (expected " ++ toString expected.toInt
          ++ ", found " ++ toString target.position.toInt ++ ")"))

theorem Outdated.commit (h : s.Outdated w why) : s.commit w = .error why := by
  cases h with
  | @moveRole server role expected position target found elsewhere =>
    exact moveRole_of_unexpected (m := ⟨expected, position⟩) found elsewhere

/-- Whoever is entitled to a write has it made, if the id for a new role is free and a role that is to
be moved is where it is expected. -/
theorem Entitles.admits (h : s.Entitles limits fresh user w) (hfresh : s.roles.get? fresh = none)
    (hcurrent : ∀ why, ¬ s.Outdated w why) : s.Admits w := by
  cases h with
  | inChannel channel => exact ⟨_, channel⟩
  | inServer member permitted warranted =>
    cases warranted with
    | createRole =>
      -- the new role is no default role, so only its id could be in the way
      refine ⟨fun q hq => Table.get?_eq_none_iff.1 hfresh q hq, ?_⟩
      rintro ⟨⟩
    | updateRole fields found =>
      rw [findRole_recordsOf] at found
      rw [server_recordsOf]
      exact ⟨_, found⟩
    | moveRole fields found =>
      rw [findRole_recordsOf] at found
      rw [server_recordsOf] at hcurrent ⊢
      exact ⟨_, found, not_not.1 fun elsewhere => hcurrent _ (.moveRole found elsewhere)⟩
    | deleteRole found assigned =>
      rw [findRole_recordsOf] at found
      rw [server_recordsOf]
      exact ⟨_, found, assigned⟩
    | assignRole target above found assigned =>
      rw [findRole_recordsOf] at found
      rw [server_recordsOf] at target ⊢
      exact ⟨⟨_, found, assigned⟩, _, target⟩
    | unassignRole target =>
      exact ⟨_, target⟩
    | removeMember target =>
      exact ⟨_, target⟩

end Store

namespace Service

variable {v : Service} {t : Moment} {r : Http.Request} {s : Store} {endpoint : Endpoint}
  {spelled : Http.Parameters} {action : Action} {entry : Entry} {w : Write}

/-- A request that is let in and has passed the checks of its action takes effect, and only a move of a
role from where the role is not is refused by the store: as a conflict, and without effect. For every
other refusal of the store there is a check that comes first. -/
theorem commit_of_plan (hf : Endpoint.find? r.path = some (endpoint, spelled))
    (ha : endpoint.action? r.method = some action)
    (he : v.enter t.now r endpoint spelled action s = .ok entry)
    (hplan : entry.action.plan v.limits entry.access entry.parameters r t.fresh s = .ok (.commit w))
    (hfresh : s.roles.get? t.fresh = none) :
    (∀ why, s.commit w = .error why ↔ s.Outdated w why) ∧
    (∀ why, s.commit w = .error why →
      v.respond t r s = (sent r (response (.error (.refused why))), s)) ∧
    ((∀ why, ¬ s.Outdated w why) → ∃ receipt s', s.commit w = .ok (receipt, s') ∧ s.Follows w s' ∧
      v.respond t r s = (sent r (response (.ok (entry.action.reply receipt))), s') ∧
      (v.respond t r s).1.Succeeds) := by
  obtain ⟨-, user, hplans⟩ := plans_of_enter hf ha he hplan
  have hmade (hcurrent : ∀ why, ¬ s.Outdated w why) : ∃ done, s.commit w = .ok done :=
    Store.exists_commit_iff_admits.2 (hplans.decides.entitled.admits hfresh hcurrent)
  refine ⟨fun why => ⟨fun hc => ?_, Store.Outdated.commit⟩, fun why hc => ?_, fun hcurrent => ?_⟩
  · by_contra houtdated
    have hcurrent : ∀ why', ¬ s.Outdated w why' := by
      intro why' h
      cases hc.symm.trans h.commit
      exact houtdated h
    obtain ⟨done, hdone⟩ := hmade hcurrent
    cases hc.symm.trans hdone
  · rw [respond_of_action hf ha, act_of_enter he]
    simp only [perform, hplan, hc]
  · obtain ⟨⟨receipt, s'⟩, hc⟩ := hmade hcurrent
    have hrespond : v.respond t r s =
        (sent r (response (.ok (entry.action.reply receipt))), s') := by
      rw [respond_of_action hf ha, act_of_enter he, perform_of_commit hplan hc]
    refine ⟨receipt, s', hc, (Store.commit_ok hc).2, hrespond, ?_⟩
    rw [hrespond, Http.Response.Succeeds, status_sent]
    exact entry.action.succeeds_reply receipt

/-- The manager makes the newcomer a guard, and does not get the guards away from a position where they
are not. -/
theorem commit_of_plan_manager :
    (∃ receipt s', Example.store.commit (.assignRole 1 8 30) = .ok (receipt, s') ∧
      Example.store.Follows (.assignRole 1 8 30) s' ∧
      Example.service.respond Example.moment (Example.assignment 8) Example.store =
        (sent (Example.assignment 8) (response (.ok (Action.assignRole.reply receipt))), s') ∧
      (Example.service.respond Example.moment (Example.assignment 8) Example.store).1.Succeeds) ∧
    Example.store.Outdated (.moveRole 1 30 9 2)
      (.conflict "Role position changed (expected 9, found 3)") ∧
    Example.service.respond Example.moment Example.dropping Example.store =
      (sent Example.dropping (response (.error (.refused
        (.conflict "Role position changed (expected 9, found 3)")))), Example.store) := by
  obtain ⟨hpath, hlet, hplan, -⟩ := Example.plan_assignment
  have hfresh : Example.store.roles.get? Example.moment.fresh = none := rfl
  have hmove : Action.moveRole.plan .standard
      ⟨7, .server (Example.store.recordsOf Example.manager)⟩ Example.guardPath Example.dropping
      Example.moment.fresh Example.store = .ok (.commit (.moveRole 1 30 9 2)) := by
    decide +kernel
  have hconflict : Example.store.commit (.moveRole 1 30 9 2) =
      .error (.conflict "Role position changed (expected 9, found 3)") := by
    decide
  have henter := enter_of_letIn (v := Example.service) (t := Example.moment)
    (r := Example.assignment 8) (Example.authenticate_request _ _) hlet
  obtain ⟨-, -, hmade⟩ := commit_of_plan hpath rfl henter hplan hfresh
  obtain ⟨hiff, hrefused, -⟩ := commit_of_plan (v := Example.service) (t := Example.moment)
    Example.letIn_guardPath.2.1 rfl Example.enter_dropping hmove hfresh
  refine ⟨hmade ?_, (hiff _).1 hconflict, hrefused _ hconflict⟩
  rintro why ⟨⟩

end Service

end Guildhall
