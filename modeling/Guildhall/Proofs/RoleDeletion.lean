-- SUMMARY: To delete a role has the same effect on permissions as to take it away from everybody.
import Guildhall.Proofs.Cascades
import Guildhall.Proofs.Enforcement
import Guildhall.Proofs.Isolation
import Guildhall.Proofs.Rearrangement

/-!
# Roles that are deleted

When a role is deleted, the roles of its server, what its members hold and the overrides of its
channels change together. All that anybody notices of this is that they do not hold the role any
more: what they may do everywhere is the same as if the role had only been taken away from them, with
the role and the overrides about it still there (`Store.effectiveIn_deleteRole`). Roles that a member
does not hold can come and go (`Member.SameRoles`), overrides about a target in none of their layers
can go too (`Member.applyOverrides_filter`), and the default role cannot be deleted.
-/

namespace Guildhall

/-! ## Overrides that concern nobody -/

theorem applyLayer_filter_of_ne {t u : Target} (h : u ≠ t) (os : List Override)
    (s : PermissionSet) : applyLayer (os.filter (·.target ≠ t)) s u = applyLayer os s u := by
  have hfilter : (os.filter (·.target ≠ t)).filter (·.target == u) = os.filter (·.target == u) := by
    rw [List.filter_filter]
    refine List.filter_congr fun o _ => ?_
    rw [Bool.and_eq_left_iff_imp, beq_iff_eq, decide_eq_true_eq]
    rintro rfl
    exact h
  rw [applyLayer, hfilter, applyLayer]

namespace Member

variable {m : Member} {roles : List Role} {everyone : Option Role} {e : Role} {held : List Role}
  {t : Target} {role : Id}

/-- Overrides about a target that is not among the layers of a member can go. -/
theorem applyOverrides_filter (h : t ∉ m.layers e held) (os : List Override)
    (base : PermissionSet) : m.applyOverrides e held (os.filter (·.target ≠ t)) base =
      m.applyOverrides e held os base := by
  refine List.foldl_ext _ _ _ fun s u hu => applyLayer_filter_of_ne ?_ os s
  rintro rfl
  exact h hu

theorem mem_layers_role : .role role ∈ m.layers e held ↔ role = e.id ∨ ∃ r ∈ held, r.id = role := by
  simp [layers, Target.role, Target.member, eq_comm]

/-! ## Roles that are not held -/

theorem sameRoles_filter (hm : role ∉ m.roles) : m.SameRoles roles (roles.filter (·.id ≠ role)) where
  kept r hr _ _ hheld := by
    refine List.mem_filter.2 ⟨hr, decide_eq_true ?_⟩
    rintro rfl
    exact hm hheld
  known r hr _ _ _ := (List.mem_filter.1 hr).1

/-- A role that is not held and not the default role can go, and with it the overrides about it. -/
theorem resolveInServer_filter (hids : IdsIdentify roles) (hm : role ∉ m.roles)
    (he : ∀ e, everyone = some e → e.id ≠ role) (overrides : Option (List Override)) :
    m.resolveInServer (roles.filter (·.id ≠ role)) everyone
        (overrides.map fun os => os.filter (·.target ≠ .role role)) =
      m.resolveInServer roles everyone overrides := by
  have hheld (e : Role) := (sameRoles_filter hm).heldRoles_eq (e := e) hids
  cases hu : m.usableEveryone everyone with
  | none => simp [resolveInServer, hu]
  | some e =>
    have hlayers : .role role ∉ m.layers e (m.heldRoles roles e) := by
      rw [mem_layers_role]
      rintro (rfl | ⟨r, hr, rfl⟩)
      · exact he e (usableEveryone_eq_some.1 hu).1 rfl
      · exact hm (holds_iff.1 (((ladder_heldRoles hids).members r).1 hr).2.2.2.2)
    cases overrides with
    | none => simp only [resolveInServer, hu, hheld, Option.map_none]
    | some os =>
      simp only [resolveInServer, hu, hheld, Option.map_some, applyOverrides_filter hlayers]

theorem resolve_filter (hids : IdsIdentify roles) (hm : role ∉ m.roles)
    (he : ∀ e, everyone = some e → e.id ≠ role) (channel : Option Channel) :
    m.resolve (roles.filter (·.id ≠ role)) everyone (channel.map (·.prune (.role role))) =
      m.resolve roles everyone channel := by
  cases channel with
  | none => exact resolveInServer_filter hids hm he none
  | some c =>
    have hres := resolveInServer_filter hids hm he (some c.overrides)
    simp only [Option.map_some, resolve, Channel.prune_eq] at hres ⊢
    rw [hres]
    rfl

end Member

/-! ## Records of a server -/

namespace ServerRecords

variable {m : Member} {roles roles' : List Role} {role : Id}

/-- All permissions of the member, in the server as a whole or in a channel. -/
def effective (r : ServerRecords) (channel : Option Channel) : Except Refusal PermissionSet :=
  if !r.member.isOwner && r.everyone.isNone then .error r.misconfigured
  else .ok (r.resolve channel)

/-- Which role is the default role, and what is wrong if none is, only the default roles tell. -/
theorem ofRoles_congr (h : roles'.filter Role.isDefault = roles.filter Role.isDefault) :
    ofRoles m roles' = { ofRoles m roles with roles := roles' } := by
  unfold ofRoles
  rw [h]
  split <;> rfl

/-- Nobody misses a role that they do not hold and that is not the default role. -/
theorem effective_filter (hids : IdsIdentify roles) (hm : role ∉ m.roles)
    (hplain : ∀ r ∈ roles, r.id = role → r.isDefault = false) (channel : Option Channel) :
    (ofRoles m (roles.filter (·.id ≠ role))).effective (channel.map (·.prune (.role role))) =
      (ofRoles m roles).effective channel := by
  have hdefaults : (roles.filter (·.id ≠ role)).filter Role.isDefault =
      roles.filter Role.isDefault := by
    rw [List.filter_filter]
    refine List.filter_congr fun r hr => ?_
    rw [Bool.and_eq_left_iff_imp, decide_eq_true_eq]
    intro hd hid
    rw [hplain r hr hid] at hd
    cases hd
  have heveryone : ∀ e, (ofRoles m roles).everyone = some e → e.id ≠ role := by
    intro e he hid
    have hmem : e ∈ roles.filter Role.isDefault := by
      rw [everyone_ofRoles_eq_some.1 he]
      exact List.mem_singleton_self e
    obtain ⟨hr, hd⟩ := List.mem_filter.1 hmem
    rw [hplain e hr hid] at hd
    cases hd
  have hres := Member.resolve_filter hids hm heveryone channel
  simp only [ofRoles_congr hdefaults, effective, resolve, misconfigured, server, member_ofRoles,
    roles_ofRoles, hres]

end ServerRecords

/-! ## What a user may do in a place -/

namespace Store

variable {s s' s₁ s₂ : Store} {server other user id role : Id} {routeServer : Option Id}
  {place : Place} {w : Write}

/-- All permissions of a user in a place, or why they are not told. -/
def effectiveIn (s : Store) (user : Id) (place : Place) : Except Refusal PermissionSet :=
  s.loadAccess user place >>= Access.effective

/-- All permissions of a member of a server, there as a whole or in a channel. -/
def effectiveWithin (s : Store) (server user : Id) (channel : Option Channel) :
    Except Refusal PermissionSet :=
  s.loadRecords server user >>= (·.effective channel)

theorem effectiveIn_server (s : Store) (user server : Id) :
    s.effectiveIn user (.server server) = s.effectiveWithin server user none := by
  simp only [effectiveIn, loadAccess, loadServerAccess, effectiveWithin]
  cases s.loadRecords server user <;> rfl

private theorem effective_of_loadRecords (s : Store) (server user : Id) (c : Channel) :
    (do let records ← s.loadRecords server user
        pure ⟨user, .channel c records⟩ : Except Refusal Access) >>= Access.effective =
      s.effectiveWithin server user (some c) := by
  unfold effectiveWithin
  cases s.loadRecords server user <;> rfl

/-- In a channel, overrides matter just if it belongs to a server and is no direct message. -/
theorem effectiveIn_channel_congr {c : Channel} {os : List Override}
    (h₁ : s₁.findChannel id = some c) (h₂ : s₂.findChannel id = some (c.withOverrides os))
    (hwithin : ∀ server, c.isDm = false → c.server = some server →
      s₂.effectiveWithin server user (some (c.withOverrides os)) =
        s₁.effectiveWithin server user (some c)) :
    s₂.effectiveIn user (.channel id routeServer) = s₁.effectiveIn user (.channel id routeServer) := by
  have hkind : (c.withOverrides os).isDm = c.isDm := rfl
  have hserver : (c.withOverrides os).server = c.server := rfl
  simp only [effectiveIn, loadAccess, loadChannelAccess, h₁, h₂, hkind, hserver]
  cases hdm : c.isDm with
  | true =>
    cases routeServer with
    | some route => rfl
    | none =>
      have hrecipient : (c.withOverrides os).isRecipient user = c.isRecipient user := rfl
      rw [hrecipient]
      cases c.isRecipient user <;> rfl
  | false =>
    cases hs : c.server with
    | none => rfl
    | some server =>
      simp only [Bool.false_eq_true, if_false]
      split
      · rfl
      · rw [effective_of_loadRecords, effective_of_loadRecords, hwithin server hdm hs]

/-! ## Outside the server -/

theorem AgreeOutside.agreeInside (h : s.AgreeOutside server s') (hne : other ≠ server) :
    s'.AgreeInside other s where
  roles r hr := h.roles r (hr ▸ hne)
  members m hm := h.members m (hm ▸ hne)
  channels c hc := h.channels c (by simpa [hc] using hne)

/-- Nobody can do more or less outside the server that a write concerns. -/
theorem effectiveIn_of_concerns (hw : s.Concerns w server) (hf : s.Follows w s')
    (hplace : s.serverOf? place ≠ some server) (user : Id) :
    s'.effectiveIn user place = s.effectiveIn user place := by
  have hout := agreeOutside_of_follows hw hf
  cases place with
  | server other =>
    have hne : other ≠ server := fun hsame => hplace (congrArg some hsame)
    simp only [effectiveIn_server, effectiveWithin, (hout.agreeInside hne).loadRecords_eq]
  | channel id routeServer =>
    cases hc : s.findChannel id with
    | none =>
      have hc' : s'.findChannel id = none := by rw [hf.findChannel_eq, hc, Option.map_none]
      simp only [effectiveIn, loadAccess, loadChannelAccess, hc, hc']
    | some c =>
      obtain ⟨hcs, hid⟩ := Table.get?_eq_some_iff.1 hc
      have hc' := hf.findChannel_of_findChannel hc
      refine effectiveIn_channel_congr hc (w.onChannel_eq c ▸ hc') fun other hdm hs => ?_
      have hne : other ≠ server := by
        rintro rfl
        exact hplace (by simp [serverOf?, hc, hdm, hs])
      have hkept : c ∈ s'.channels := (hout.channels c (by simpa [hs] using hne)).2 hcs
      have hsame : w.onChannel c = c :=
        Option.some.inj (hc'.symm.trans (Table.get?_eq_some_iff.2 ⟨hkept, hid⟩))
      rw [hsame]
      simp only [effectiveWithin, (hout.agreeInside hne).loadRecords_eq]
      rfl

theorem effectiveIn_afterWrite (hw : s.Concerns w server) (hplace : s.serverOf? place ≠ some server)
    (user : Id) : (s.afterWrite w).effectiveIn user place = s.effectiveIn user place := by
  unfold afterWrite
  split
  · rename_i hc
    exact effectiveIn_of_concerns hw (commit_ok hc).2 hplace user
  · rfl

/-! ## A role that is taken away -/

theorem channels_unassignRole (s : Store) (server user role : Id) :
    (s.afterWrite (.unassignRole server user role)).channels = s.channels := by
  simp only [afterWrite, commit, unassignRole]
  cases s.findMember server user <;> rfl

/-- Taking a role away from a member leaves all roles in place. -/
theorem loadRecords_unassignRole (s : Store) (server user role : Id) :
    (s.afterWrite (.unassignRole server user role)).loadRecords server user =
      match s.findMember server user with
      | none => .error .notAMember
      | some m => .ok (.ofRoles (m.unassign role) (s.serverRoles server)) := by
  cases hm : s.findMember server user with
  | none => simp only [afterWrite, commit, unassignRole, hm, loadRecords]
  | some m =>
    have hfound : (s.insertMember (m.unassign role)).findMember server user =
        some (m.unassign role) := findMember_insertMember hm rfl rfl
    simp only [afterWrite, commit_unassignRole hm, loadRecords, hfound]
    rfl

/-! ## A role that is deleted -/

/-- Of the roles of the server only the one that is deleted is missing afterwards. -/
theorem serverRoles_deleteRole (hf : s.Follows (.deleteRole server role) s') :
    s'.serverRoles server = (s.serverRoles server).filter (·.id ≠ role) := by
  have hmem (r : Role) : r ∈ s'.roles ↔ r ∈ s.roles ∧ ¬ (r.server = server ∧ r.id = role) := by
    simpa [Target.role] using Follows.mem_roles_remove (t := .role role) hf
  refine (eq_serverRoles ((nodup_serverRoles s server).filter _)
    ((pairwise_serverRoles s server).filter _) fun r => ?_).symm
  rw [hmem, List.mem_filter, mem_serverRoles, decide_eq_true_eq]
  tauto

theorem findMember_deleteRole (hf : s.Follows (.deleteRole server role) s') (user : Id) :
    s'.findMember server user = (s.findMember server user).map (·.unassign role) := by
  rw [hf.findMember_eq]
  cases hm : s.findMember server user with
  | none => rfl
  | some m =>
    obtain ⟨-, hs, -⟩ := findMember_eq_some.1 hm
    simp [Write.onMember, hs]

/-- The role that is deleted is not the default role. -/
theorem isDefault_of_admits_deleteRole (h : s.Admits (.deleteRole server role)) {r : Role}
    (hr : r ∈ s.roles) (hid : r.id = role) : r.isDefault = false := by
  obtain ⟨q, hq, hplain⟩ := h
  obtain ⟨hqs, -, hqid⟩ := findRole_eq_some.1 hq
  rwa [eq_of_id_eq hr hqs (hid.trans hqid.symm)]

/-- After the deletion of a role, members can do what they could without it. -/
theorem effectiveWithin_deleteRole {receipt : Receipt}
    (h : s.commit (.deleteRole server role) = .ok (receipt, s')) (user : Id)
    (channel : Option Channel) :
    s'.effectiveWithin server user (channel.map (·.prune (.role role))) =
      (s.afterWrite (.unassignRole server user role)).effectiveWithin server user channel := by
  obtain ⟨hadmits, hf⟩ := commit_ok h
  have hdeleted : s'.loadRecords server user =
      match s.findMember server user with
      | none => .error .notAMember
      | some m =>
        .ok (.ofRoles (m.unassign role) ((s.serverRoles server).filter (·.id ≠ role))) := by
    rw [loadRecords, findMember_deleteRole hf, serverRoles_deleteRole hf]
    cases s.findMember server user <;> rfl
  simp only [effectiveWithin, hdeleted, loadRecords_unassignRole]
  cases s.findMember server user with
  | none => rfl
  | some m =>
    have hnot : role ∉ (m.unassign role).roles := fun hheld =>
      (Member.holds_unassign.1 (Member.holds_iff.2 hheld)).2 rfl
    exact ServerRecords.effective_filter (idsIdentify_serverRoles s server) hnot
      (fun r hr => isDefault_of_admits_deleteRole hadmits (mem_serverRoles.1 hr).1) channel

theorem effectiveIn_deleteRole_of_inside {receipt : Receipt}
    (h : s.commit (.deleteRole server role) = .ok (receipt, s'))
    (hplace : s.serverOf? place = some server) (user : Id) :
    s'.effectiveIn user place =
      (s.afterWrite (.unassignRole server user role)).effectiveIn user place := by
  cases place with
  | server other =>
    obtain rfl : other = server := Option.some.inj hplace
    rw [effectiveIn_server, effectiveIn_server]
    exact effectiveWithin_deleteRole h user none
  | channel id routeServer =>
    obtain ⟨c, hc, hinside⟩ := Option.bind_eq_some_iff.1 hplace
    have hs : c.server = some server := by
      split at hinside
      · cases hinside
      · exact hinside
    have hc' : s'.findChannel id = some (c.prune (.role role)) := by
      rw [(commit_ok h).2.findChannel_of_findChannel hc]
      simp only [Write.onChannel, hs, if_true]
    have hkept : (s.afterWrite (.unassignRole server user role)).findChannel id = some c := by
      rw [findChannel, channels_unassignRole]
      exact hc
    refine effectiveIn_channel_congr hkept hc' fun other _ hother => ?_
    rw [hs] at hother
    cases hother
    exact effectiveWithin_deleteRole h user (some c)

/-- To delete a role is to take it away from everybody. In every place each user can afterwards do the
same as if the role had only been taken away from them, with the role itself and the overrides about it
still there, and is told the same where the server is misconfigured. Outside the server nothing
changes for anybody. -/
theorem effectiveIn_deleteRole {receipt : Receipt}
    (h : s.commit (.deleteRole server role) = .ok (receipt, s')) :
    (∀ user place, s'.effectiveIn user place =
      (s.afterWrite (.unassignRole server user role)).effectiveIn user place) ∧
    (∀ user m, s.findMember server user = some m →
      s.commit (.unassignRole server user role) =
        .ok (.member (m.unassign role), s.insertMember (m.unassign role))) ∧
    ∀ user place, s.serverOf? place ≠ some server →
      s'.effectiveIn user place = s.effectiveIn user place := by
  have hafter : s.afterWrite (.deleteRole server role) = s' := by simp only [afterWrite, h]
  have hout : ∀ user place, s.serverOf? place ≠ some server →
      s'.effectiveIn user place = s.effectiveIn user place := by
    intro user place hplace
    rw [← hafter]
    exact effectiveIn_afterWrite (.inl rfl) hplace user
  refine ⟨fun user place => ?_, fun user m hm => commit_unassignRole hm, hout⟩
  by_cases hplace : s.serverOf? place = some server
  · exact effectiveIn_deleteRole_of_inside h hplace user
  · rw [hout user place hplace, effectiveIn_afterWrite (.inl rfl) hplace]

/-- In the example the role that is deleted grants everything to user 20. Without it there is left what
an override about them allows. -/
theorem effectiveIn_deleteRole_namesakes :
    ∃ s', Example.namesakes.commit (.deleteRole 1 20) = .ok (.nothing, s') ∧
      (∀ user place, s'.effectiveIn user place =
        (Example.namesakes.afterWrite (.unassignRole 1 user 20)).effectiveIn user place) ∧
      Example.namesakes.effectiveIn 20 (.channel 50 none) = .ok .full ∧
      s'.effectiveIn 20 (.channel 50 none) = .ok Override.reach ∧
      s'.effectiveIn 20 (.channel 60 none) = Example.namesakes.effectiveIn 20 (.channel 60 none) := by
  have h : Example.namesakes.commit (.deleteRole 1 20) =
      .ok (.nothing, Example.namesakes.afterWrite (.deleteRole 1 20)) := by decide +kernel
  obtain ⟨hsame, -, hout⟩ := effectiveIn_deleteRole h
  exact ⟨_, h, hsame, by decide +kernel, by decide +kernel, hout 20 _ (by decide +kernel)⟩

end Store

end Guildhall
