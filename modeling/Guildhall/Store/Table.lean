-- SUMMARY: Tables of records in which every key occurs once, with what each operation does to look-ups.

/-!
# Tables

A table keeps records in the order in which they were added, at most one for each key. The
key of a record is part of the record, so a table cannot hold a record under a wrong key, and
no operation can bring two records of one key together: both facts are in the types.
-/

namespace Guildhall

/-- Records with a key of their own. -/
class Keyed (α : Type) (κ : outParam Type) where
  key : α → κ

export Keyed (key)

structure Table (α : Type) {κ : Type} [Keyed α κ] where
  /-- The records in the order in which their keys were added. -/
  toList : List α
  nodup : (toList.map key).Nodup

namespace Table

variable {α κ : Type} [Keyed α κ]

/-- A table is its list. -/
theorem ext {t u : Table α} (h : t.toList = u.toList) : t = u := by
  cases t; cases u; simp_all

instance [DecidableEq α] : DecidableEq (Table α) := fun t u =>
  decidable_of_iff (t.toList = u.toList) ⟨ext, fun h => h ▸ rfl⟩

/-- The table without records. -/
def empty : Table α := ⟨[], .nil⟩

instance : EmptyCollection (Table α) := ⟨empty⟩
instance : Inhabited (Table α) := ⟨empty⟩

/-- The number of records. -/
def size (t : Table α) : Nat := t.toList.length

instance : Membership α (Table α) where
  mem t a := a ∈ t.toList

theorem mem_iff {a : α} {t : Table α} : a ∈ t ↔ a ∈ t.toList := Iff.rfl

instance [DecidableEq α] {t : Table α} {a : α} : Decidable (a ∈ t) :=
  inferInstanceAs (Decidable (a ∈ t.toList))

instance decidableForall {t : Table α} {P : α → Prop} [DecidablePred P] :
    Decidable (∀ a ∈ t, P a) :=
  inferInstanceAs (Decidable (∀ a ∈ t.toList, P a))

instance decidableExists {t : Table α} {P : α → Prop} [DecidablePred P] :
    Decidable (∃ a ∈ t, P a) :=
  inferInstanceAs (Decidable (∃ a ∈ t.toList, P a))

/-! ## Look-up -/

/-- Records of one key in one table are one record. -/
theorem eq_of_key_eq {t : Table α} {a b : α} (ha : a ∈ t) (hb : b ∈ t) (h : key a = key b) :
    a = b := by
  have hn := t.nodup
  rw [mem_iff] at ha hb
  generalize t.toList = as at hn ha hb
  induction as with
  | nil => cases ha
  | cons c cs ih =>
    simp only [List.map_cons, List.nodup_cons, List.mem_map, not_exists, not_and] at hn
    rcases List.mem_cons.1 ha with ea | ma <;> rcases List.mem_cons.1 hb with eb | mb
    · rw [ea, eb]
    · exact absurd (ea ▸ h.symm) (hn.1 b mb)
    · exact absurd (eb ▸ h) (hn.1 a ma)
    · exact ih hn.2 ma mb

variable [DecidableEq κ]

/-- The record of a key. -/
def get? (t : Table α) (k : κ) : Option α := t.toList.find? (key · == k)

/-- Looking up a key finds the record with that key, if the table holds one. -/
theorem get?_eq_some_iff {t : Table α} {k : κ} {a : α} :
    t.get? k = some a ↔ a ∈ t ∧ key a = k := by
  constructor
  · intro h
    exact ⟨List.mem_of_find?_eq_some h, by simpa using List.find?_some h⟩
  · rintro ⟨ha, rfl⟩
    cases hf : t.get? (key a) with
    | none =>
      have := List.find?_eq_none.1 hf a ha
      simp at this
    | some b =>
      have hk : key b = key a := by simpa using List.find?_some hf
      rw [eq_of_key_eq (List.mem_of_find?_eq_some hf) ha hk]

theorem get?_eq_none_iff {t : Table α} {k : κ} : t.get? k = none ↔ ∀ a ∈ t, key a ≠ k := by
  simp [get?, List.find?_eq_none, mem_iff]

/-! ## Changes -/

/-- The table of the records that pass a test. -/
def filter (t : Table α) (p : α → Bool) : Table α where
  toList := t.toList.filter p
  nodup := t.nodup.sublist (List.filter_sublist.map key)

/-- The table without the record of a key. -/
def erase (t : Table α) (k : κ) : Table α := t.filter (key · != k)

/-- Changes all records in a way that leaves their keys alone. -/
def map (t : Table α) (f : α → α) (hf : ∀ a, key (f a) = key a) : Table α where
  toList := t.toList.map f
  nodup := by
    have : (t.toList.map f).map key = t.toList.map key := by simp [hf]
    rw [this]
    exact t.nodup

/-- Puts a record into the place of the one with its key, or behind all others. -/
def insert (t : Table α) (a : α) : Table α where
  toList :=
    if (t.get? (key a)).isSome then t.toList.map (fun b => if key b = key a then a else b)
    else t.toList ++ [a]
  nodup := by
    split
    · have : (t.toList.map (fun b => if key b = key a then a else b)).map key
          = t.toList.map key := by
        rw [List.map_map]
        apply List.map_congr_left
        intro b _
        simp only [Function.comp]
        split <;> simp_all
      rw [this]
      exact t.nodup
    · rename_i h
      simp only [Option.not_isSome_iff_eq_none, get?_eq_none_iff] at h
      simp only [List.map_append, List.map_cons, List.map_nil]
      rw [List.nodup_append]
      refine ⟨t.nodup, by simp, fun k hk l hl => ?_⟩
      obtain ⟨b, hb, rfl⟩ := List.mem_map.1 hk
      simp only [List.mem_singleton] at hl
      exact hl ▸ h b hb

/-- The table of a list of records, later ones taking the place of earlier ones. -/
def ofList (as : List α) : Table α := as.foldl insert ∅

omit [DecidableEq κ] in
@[simp] theorem mem_filter {t : Table α} {p : α → Bool} {a : α} :
    a ∈ t.filter p ↔ a ∈ t ∧ p a := List.mem_filter

@[simp] theorem mem_erase {t : Table α} {k : κ} {a : α} : a ∈ t.erase k ↔ a ∈ t ∧ key a ≠ k := by
  simp [erase]

omit [DecidableEq κ] in
@[simp] theorem mem_map {t : Table α} {f : α → α} {hf : ∀ a, key (f a) = key a} {b : α} :
    b ∈ t.map f hf ↔ ∃ a ∈ t, f a = b := List.mem_map

/-- After an insertion the table holds the record, and besides it those of other keys. -/
theorem mem_insert {t : Table α} {a b : α} :
    b ∈ t.insert a ↔ b = a ∨ (b ∈ t ∧ key b ≠ key a) := by
  simp only [mem_iff, insert]
  split
  · rename_i h
    obtain ⟨c, hc⟩ := Option.isSome_iff_exists.1 h
    obtain ⟨hct, hck⟩ := get?_eq_some_iff.1 hc
    simp only [List.mem_map]
    constructor
    · rintro ⟨d, hd, rfl⟩
      split
      · exact .inl rfl
      · rename_i hne
        exact .inr ⟨hd, hne⟩
    · rintro (rfl | ⟨hb, hne⟩)
      · exact ⟨c, hct, by simp [hck]⟩
      · exact ⟨b, hb, by simp [hne]⟩
  · rename_i h
    simp only [Option.not_isSome_iff_eq_none, get?_eq_none_iff] at h
    simp only [List.mem_append, List.mem_singleton]
    constructor
    · rintro (hb | rfl)
      · exact .inr ⟨hb, h b hb⟩
      · exact .inl rfl
    · rintro (rfl | ⟨hb, _⟩)
      · exact .inr rfl
      · exact .inl hb

end Table

end Guildhall
