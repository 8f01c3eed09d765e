-- SUMMARY: Stable sorting of lists by insertion, with its permutation and order laws.

/-!
# Sorting

A stable sort that unfolds by structural recursion, so that it can be computed inside proofs.
Elements that may precede each other keep their order.
-/

namespace Guildhall

/-- Inserts an element before the first one that it may precede. -/
def insertBy (le : α → α → Bool) (a : α) : List α → List α
  | [] => [a]
  | b :: bs => if le a b then a :: b :: bs else b :: insertBy le a bs

/-- The list in order; equal elements keep their places relative to each other. -/
def sortBy (le : α → α → Bool) : List α → List α
  | [] => []
  | a :: as => insertBy le a (sortBy le as)

theorem insertBy_perm (le : α → α → Bool) (a : α) (bs : List α) :
    (insertBy le a bs).Perm (a :: bs) := by
  induction bs with
  | nil => exact .refl _
  | cons b bs ih =>
    simp only [insertBy]
    split
    · exact .refl _
    · exact (ih.cons b).trans (.swap a b bs)

/-- Sorting rearranges. -/
theorem sortBy_perm (le : α → α → Bool) (as : List α) : (sortBy le as).Perm as := by
  induction as with
  | nil => exact .refl _
  | cons a as ih => exact (insertBy_perm le a _).trans (ih.cons a)

theorem mem_sortBy {le : α → α → Bool} {a : α} {as : List α} : a ∈ sortBy le as ↔ a ∈ as :=
  (sortBy_perm le as).mem_iff

theorem insertBy_pairwise {le : α → α → Bool} (total : ∀ a b, le a b || le b a)
    (trans : ∀ a b c, le a b → le b c → le a c) (a : α) {bs : List α}
    (h : bs.Pairwise (le · ·)) : (insertBy le a bs).Pairwise (le · ·) := by
  induction bs with
  | nil => simp [insertBy]
  | cons b bs ih =>
    obtain ⟨hb, hbs⟩ := List.pairwise_cons.1 h
    simp only [insertBy]
    split
    · rename_i hab
      refine List.pairwise_cons.2 ⟨fun c hc => ?_, h⟩
      rcases List.mem_cons.1 hc with rfl | hc
      · exact hab
      · exact trans a b c hab (hb c hc)
    · rename_i hab
      refine List.pairwise_cons.2 ⟨fun c hc => ?_, ih hbs⟩
      rcases List.mem_cons.1 ((insertBy_perm le a bs).mem_iff.1 hc) with rfl | hc
      · have := total c b
        simp_all
      · exact hb c hc

/-- The sorted list is in order. -/
theorem sortBy_pairwise {le : α → α → Bool} (total : ∀ a b, le a b || le b a)
    (trans : ∀ a b c, le a b → le b c → le a c) (as : List α) :
    (sortBy le as).Pairwise (le · ·) := by
  induction as with
  | nil => exact .nil
  | cons a as ih => exact insertBy_pairwise total trans a ih

/-- A list in order is left as it is. -/
theorem sortBy_of_pairwise {le : α → α → Bool} {as : List α} (h : as.Pairwise (le · ·)) :
    sortBy le as = as := by
  induction as with
  | nil => rfl
  | cons a as ih =>
    obtain ⟨ha, has⟩ := List.pairwise_cons.1 h
    rw [sortBy, ih has]
    cases as with
    | nil => rfl
    | cons b bs => rw [insertBy, if_pos (ha b List.mem_cons_self)]

end Guildhall
