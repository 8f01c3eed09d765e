-- SUMMARY: Sets of permissions as eighteen bits, with membership, the set operations and the listing in order.
import Guildhall.Permission

/-!
# Permission sets

A set of permissions is a vector of eighteen bits, one for each permission at its
`Permission.index`. Membership is the one view of a set: two sets with the same members
are equal (`PermissionSet.ext`), and every operation is described by what it does to
membership.
-/

namespace Guildhall

structure PermissionSet where
  bits : BitVec 18
  deriving DecidableEq

/-- Whether the permission is in the set, as a test. -/
def PermissionSet.contains (s : PermissionSet) (p : Permission) : Bool :=
  s.bits.getLsbD p.index

instance : Membership Permission PermissionSet where
  mem s p := s.contains p = true

instance (p : Permission) (s : PermissionSet) : Decidable (p ∈ s) :=
  inferInstanceAs (Decidable (s.contains p = true))

theorem PermissionSet.mem_iff {p : Permission} {s : PermissionSet} :
    p ∈ s ↔ s.bits.getLsbD p.index = true := Iff.rfl

theorem Permission.exists_index (i : Fin 18) : ∃ p : Permission, p.index = i := by
  have h : ∀ i : Fin 18, ∃ p ∈ Permission.all, p.index = i := by decide
  obtain ⟨p, -, hp⟩ := h i
  exact ⟨p, hp⟩

/-- Sets with the same members are equal. -/
theorem PermissionSet.ext {s t : PermissionSet} (h : ∀ p, p ∈ s ↔ p ∈ t) : s = t := by
  obtain ⟨a⟩ := s
  obtain ⟨b⟩ := t
  congr
  apply BitVec.eq_of_getLsbD_eq
  intro i hi
  obtain ⟨p, hp⟩ := Permission.exists_index ⟨i, hi⟩
  have := h p
  simp only [mem_iff, hp] at this
  exact Bool.eq_iff_iff.2 this

/-! ## Operations -/

namespace PermissionSet

/-- The set without members. -/
def empty : PermissionSet := ⟨0⟩

/-- The set of all eighteen permissions. -/
def full : PermissionSet := ⟨BitVec.allOnes 18⟩

instance : EmptyCollection PermissionSet := ⟨empty⟩
instance : Inhabited PermissionSet := ⟨empty⟩

instance : Union PermissionSet where
  union s t := ⟨s.bits ||| t.bits⟩

instance : Inter PermissionSet where
  inter s t := ⟨s.bits &&& t.bits⟩

instance : SDiff PermissionSet where
  sdiff s t := ⟨s.bits &&& ~~~t.bits⟩

instance : HasSubset PermissionSet := ⟨fun s t => ∀ ⦃p⦄, p ∈ s → p ∈ t⟩

/-- Every permission that is not in the set. -/
def compl (s : PermissionSet) : PermissionSet := ⟨~~~s.bits⟩

/-- The set whose only member is the permission. -/
def singleton (p : Permission) : PermissionSet := ⟨BitVec.twoPow 18 p.index⟩

/-- The set with the permission added. -/
def insert (p : Permission) (s : PermissionSet) : PermissionSet := s ∪ singleton p

/-- The set of the permissions in a list, whatever their order and number. -/
def ofList (ps : List Permission) : PermissionSet :=
  ps.foldl (fun s p => s ∪ singleton p) ∅

/-- The members in order, each once. -/
def toList (s : PermissionSet) : List Permission :=
  Permission.all.filter s.contains

/-- The names of the members, in order. -/
def names (s : PermissionSet) : List String :=
  s.toList.map Permission.name

/-- The set of the known names in a list; unknown names are skipped. -/
def ofNames (names : List String) : PermissionSet :=
  ofList (names.filterMap Permission.ofName?)

/-- Whether the set has no member. -/
def isEmpty (s : PermissionSet) : Bool := s.bits == 0

/-- Whether every member of `t` is in `s`. -/
def includes (s t : PermissionSet) : Bool := (s ∩ t) == t

/-- Whether the sets have a member in common. -/
def meets (s t : PermissionSet) : Bool := !(s ∩ t).isEmpty

/-- Whether the set holds the administrator permission. -/
def isAdmin (s : PermissionSet) : Bool := s.contains .administrator

/-- The rule every decision ends in: an administrator may do anything, all others only what
their set contains. -/
def grants (s : PermissionSet) (p : Permission) : Bool := s.isAdmin || s.contains p

/-- The set with everything that the administrator permission stands for. -/
def widened (s : PermissionSet) : PermissionSet := if s.isAdmin then full else s

/-- What a direct message grants its recipients. -/
def dm : PermissionSet := ofList (Permission.all.filter Permission.allowedInDm)

/-- What the default role of a new server grants. -/
def defaultEveryone : PermissionSet :=
  ofList [.viewChannel, .sendMessages, .embedLinks, .attachFiles, .addReactions,
    .readMessageHistory, .changeNickname, .createInstantInvite]

/-! ## Membership -/

@[simp] theorem contains_eq_true {s : PermissionSet} {p : Permission} :
    s.contains p = true ↔ p ∈ s := Iff.rfl

@[simp] theorem not_mem_empty (p : Permission) : p ∉ (∅ : PermissionSet) := by
  simp [mem_iff, EmptyCollection.emptyCollection, empty]

@[simp] theorem mem_full (p : Permission) : p ∈ full := by
  cases p <;> decide

@[simp] theorem mem_union {p : Permission} {s t : PermissionSet} : p ∈ s ∪ t ↔ p ∈ s ∨ p ∈ t := by
  simp [mem_iff, Union.union]

@[simp] theorem mem_inter {p : Permission} {s t : PermissionSet} : p ∈ s ∩ t ↔ p ∈ s ∧ p ∈ t := by
  simp [mem_iff, Inter.inter]

@[simp] theorem mem_sdiff {p : Permission} {s t : PermissionSet} : p ∈ s \ t ↔ p ∈ s ∧ p ∉ t := by
  simp [mem_iff, SDiff.sdiff]

@[simp] theorem mem_compl {p : Permission} {s : PermissionSet} : p ∈ s.compl ↔ p ∉ s := by
  simp [mem_iff, compl]

@[simp] theorem mem_singleton {p q : Permission} : p ∈ singleton q ↔ p = q := by
  constructor
  · intro h
    simp only [mem_iff, singleton, BitVec.getLsbD_twoPow, Bool.and_eq_true, decide_eq_true_eq] at h
    exact Permission.index_injective (Fin.ext h.2.symm)
  · rintro rfl
    simp [mem_iff, singleton]

theorem mem_foldl_union {p : Permission} {ps : List Permission} {s : PermissionSet} :
    p ∈ ps.foldl (fun s q => s ∪ singleton q) s ↔ p ∈ s ∨ p ∈ ps := by
  induction ps generalizing s with
  | nil => simp
  | cons q qs ih => simp [ih, or_assoc]

@[simp] theorem mem_ofList {p : Permission} {ps : List Permission} : p ∈ ofList ps ↔ p ∈ ps := by
  simp [ofList, mem_foldl_union]

@[simp] theorem mem_toList {p : Permission} {s : PermissionSet} : p ∈ s.toList ↔ p ∈ s := by
  simp [toList, Permission.mem_all]

@[simp] theorem isAdmin_eq_true {s : PermissionSet} : s.isAdmin = true ↔ .administrator ∈ s :=
  Iff.rfl

theorem isEmpty_iff {s : PermissionSet} : s.isEmpty = true ↔ ∀ p, p ∉ s := by
  constructor
  · intro h p hp
    have hs : s = ∅ := by
      cases s
      simp_all [isEmpty, EmptyCollection.emptyCollection, empty]
    exact not_mem_empty p (hs ▸ hp)
  · intro h
    have hs : s = ∅ := ext fun p => ⟨fun hp => absurd hp (h p), fun hp => absurd hp (not_mem_empty p)⟩
    rw [hs]
    rfl

/-- Nothing is left of a set without its supersets. -/
theorem sdiff_isEmpty_iff {s t : PermissionSet} : (s \ t).isEmpty = true ↔ s ⊆ t := by
  rw [isEmpty_iff]
  constructor
  · intro h p hp
    by_cases ht : p ∈ t
    · exact ht
    · exact absurd (mem_sdiff.2 ⟨hp, ht⟩) (h p)
  · intro h p hp
    exact (mem_sdiff.1 hp).2 (h (mem_sdiff.1 hp).1)

theorem grants_iff {s : PermissionSet} {p : Permission} :
    s.grants p = true ↔ .administrator ∈ s ∨ p ∈ s := by
  simp [grants]

theorem mem_widened {s : PermissionSet} {p : Permission} :
    p ∈ s.widened ↔ .administrator ∈ s ∨ p ∈ s := by
  unfold widened
  split
  · rename_i h
    simp [isAdmin_eq_true.1 h]
  · rename_i h
    simp only [isAdmin_eq_true] at h
    simp [h]

/-- Listing a set and collecting the list gives the set back. -/
theorem ofList_toList (s : PermissionSet) : ofList s.toList = s := by
  apply ext
  simp

end PermissionSet

end Guildhall
