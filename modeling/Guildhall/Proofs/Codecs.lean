-- SUMMARY: What a codec writes it reads back, for records field by field, and for the override lists that clients submit.
import Guildhall.Proofs.JsonText
import Guildhall.Wire

/-!
# Codecs, there and back

A codec is lawful if it reads every value back that it writes. Lists and records are lawful if
their parts are: a record is written with all its fields in the order of its layout, and reading
fills in one field after another (`Layout.readFields_write`).
-/

namespace Guildhall

namespace Json

namespace Codec

/-- Whether every value is written in a way that it is read back from, as JSON and as text. -/
structure Lawful {α : Type} (c : Codec α) : Prop where
  read_write : ∀ a, c.read (c.write a) = .ok a
  plain_write : ∀ a, (c.write a).plain = true

variable {α β : Type} {c : Codec α}

theorem spelled_lawful {ofString? : String → Option α} {text : α → String}
    (h : ∀ a, ofString? (text a) = some a) : (spelled ofString? text).Lawful where
  read_write a := by
    simp [spelled, Json.text, string, h, bind, Except.bind, pure, Except.pure]
  plain_write _ := rfl

theorem named_lawful {ofName? : String → Option α} {name : α → String}
    (h : ∀ a, ofName? (name a) = some a) : (named ofName? name).Lawful where
  read_write a := by simp [named, Json.text, readName, h]
  plain_write _ := rfl

theorem plain_ofList {js : List Json} (h : ∀ j ∈ js, j.plain = true) :
    (Items.ofList js).plain = true := by
  induction js with
  | nil => rfl
  | cons j js ih =>
    obtain ⟨hj, hjs⟩ := List.forall_mem_cons.1 h
    simp [Items.ofList, Items.plain, hj, ih hjs]

theorem readItems_ofList (h : c.Lawful) (as : List α) :
    c.readItems (Items.ofList (as.map c.write)) = .ok as := by
  induction as with
  | nil => rfl
  | cons a as ih =>
    simp [Items.ofList, readItems, h.read_write, ih, bind, Except.bind, pure, Except.pure]

theorem Lawful.list (h : c.Lawful) : c.list.Lawful where
  read_write as := readItems_ofList h as
  plain_write as := by
    have hplain : ∀ j ∈ as.map c.write, j.plain = true := by
      intro j hj
      obtain ⟨a, -, rfl⟩ := List.mem_map.1 hj
      exact h.plain_write a
    exact plain_ofList hplain

/-- A text of what was written is read back. -/
theorem Lawful.readText (h : c.Lawful) {s : String} {a : α}
    (hs : Document.ofString s = ⟨c.write a, false⟩) : c.readText s = .ok a := by
  simp [Codec.readText, readDocument, hs, h.read_write, bind, Except.bind, pure, Except.pure]

end Codec

/-! ## Records -/

namespace Layout

def names : {αs : List Type} → Layout αs → List String
  | _, .nil => []
  | _, .cons slot rest => slot.name :: rest.names

/-- Whether the codecs of all fields are lawful and no two fields share a name. -/
def Lawful : {αs : List Type} → Layout αs → Prop
  | _, .nil => True
  | _, .cons slot rest => slot.codec.Lawful ∧ slot.name ∉ rest.names ∧ rest.Lawful

variable {αs : List Type}

theorem names_write (layout : Layout αs) (row : Row αs) :
    (layout.write row).map Prod.fst = layout.names := by
  induction layout with
  | nil => rfl
  | cons slot rest ih => simp [write, names, ih]

theorem plain_write {layout : Layout αs} (h : layout.Lawful) (row : Row αs) :
    (Fields.ofList (layout.write row)).plain = true := by
  induction layout with
  | nil => rfl
  | cons slot rest ih =>
    simp [write, Fields.ofList, Fields.plain, h.1.plain_write, ih h.2.2]

/-- A first field that has been met is left alone by fields of other names. -/
theorem readFields_cons {α : Type} {slot : Slot α} {rest : Layout αs} {a : α}
    {fs : List (String × Json)} {draft : Draft αs} (h : slot.name ∉ fs.map Prod.fst) :
    (Layout.cons slot rest).readFields (Fields.ofList fs) (some a, draft) =
      (rest.readFields (Fields.ofList fs) draft).map (a, ·) := by
  induction fs generalizing draft with
  | nil => simp [Fields.ofList, readFields, finish]
  | cons f fs ih =>
    obtain ⟨key, j⟩ := f
    simp only [List.map_cons, List.mem_cons, not_or] at h
    have hkey : ¬ key = slot.name := fun hkey => h.1 hkey.symm
    simp only [Fields.ofList, readFields, put, if_neg hkey]
    cases rest.put key j draft with
    | none =>
      simp only [Option.map_none]
      split
      · exact ih h.2
      · rfl
    | some outcome =>
      cases outcome with
      | error fault => rfl
      | ok draft' => exact ih h.2

/-- A record is read back from its fields. -/
theorem readFields_write {layout : Layout αs} (h : layout.Lawful) (row : Row αs) :
    layout.readFields (Fields.ofList (layout.write row)) layout.blank = .ok row := by
  induction layout with
  | nil => rfl
  | cons slot rest ih =>
    obtain ⟨a, as⟩ := row
    have hnew : slot.name ∉ (rest.write as).map Prod.fst := by
      rw [names_write]
      exact h.2.1
    simp only [write, Fields.ofList, readFields, put, blank, if_pos, h.1.read_write, Except.map]
    rw [readFields_cons hnew, ih h.2.2]
    rfl

theorem codec_lawful {β : Type} {layout : Layout αs} {ofRow : Row αs → β} {toRow : β → Row αs}
    (h : layout.Lawful) (hrow : ∀ b, ofRow (toRow b) = b) : (layout.codec ofRow toRow).Lawful where
  read_write b := by
    simp only [codec, read, ofFields, readFields_write h, Except.map, hrow]
  plain_write b := plain_write h (toRow b)

end Layout

end Json

/-! ## Ids -/

namespace Id

private theorem take_append_drop (n i : Nat) (cs : List Char) :
    (cs.drop i).take n ++ cs.drop (i + n) = cs.drop i := by
  rw [← List.drop_drop, List.take_append_drop]

theorem ungroup?_group {cs : List Char} (h : cs.length = 32) : ungroup? (group cs) = some cs := by
  have hdigits : (group cs).take 8 ++ ((group cs).drop 9).take 4 ++ ((group cs).drop 14).take 4
      ++ ((group cs).drop 19).take 4 ++ (group cs).drop 24 = cs := by
    simp [group, List.drop_append, List.drop_take, h, take_append_drop 4 16, take_append_drop 4 12,
      take_append_drop 4 8]
  have hlength : (group cs).length = 36 := by simp [group, h]
  simp only [ungroup?, hdigits, hlength, and_self, if_true]

/-- An id is read back from its text. -/
theorem ofString?_text (i : Id) : ofString? i.text = some i := by
  have hdigits : (Hex.digits 32 i.toNat).length = 32 := Hex.length_digits 32 _
  have hlength : (group (Hex.digits 32 i.toNat)).length = 36 := by simp [group, hdigits]
  have hnumber : Hex.number? (Hex.digits 32 i.toNat) = some i.toNat := by
    rw [Hex.number?_digits, Nat.mod_eq_of_lt]
    exact i.toNat_lt
  have hid : ofNat i.toNat = i := by
    apply toNat_injective
    rw [toNat_ofNat, Nat.mod_eq_of_lt i.toNat_lt]
  simp [ofString?, text, chars, ofChars?, ofGrouped?, ofDigits?, hlength, ungroup?_group hdigits,
    hdigits, hnumber, hid]

end Id

/-! ## Wire formats -/

open Json

theorem Id.codec_lawful : Id.codec.Lawful := Codec.spelled_lawful ofString?_text

theorem Permission.codec_lawful : Permission.codec.Lawful := Codec.named_lawful ofName?_name

theorem TargetKind.codec_lawful : TargetKind.codec.Lawful := by
  apply Codec.named_lawful
  intro kind
  cases kind <;> rfl

theorem ChannelKind.codec_lawful : ChannelKind.codec.Lawful := by
  apply Codec.named_lawful
  intro kind
  cases kind <;> rfl

theorem OverrideDraft.layout_lawful : OverrideDraft.layout.Lawful :=
  ⟨TargetKind.codec_lawful, by decide, Id.codec_lawful, by decide, Permission.codec_lawful.list,
    by decide, Permission.codec_lawful.list, by decide, trivial⟩

theorem OverrideDraft.codec_lawful : OverrideDraft.codec.Lawful :=
  Layout.codec_lawful layout_lawful fun _ => rfl

theorem OverrideDraft.listCodec_lawful : OverrideDraft.listCodec.Lawful := by
  refine Layout.codec_lawful ?_ fun _ => rfl
  exact ⟨codec_lawful.list, by decide, trivial⟩

/-- The override as a client would submit it. -/
def Override.draft (o : Override) : OverrideDraft := ⟨o.target, o.allow.toList, o.deny.toList⟩

/-- An override is written like its draft. -/
theorem Override.write_draft (o : Override) :
    OverrideDraft.codec.write o.draft = Override.codec.write o := rfl

/-- The request for a list of overrides holds the list as it is written. -/
theorem OverrideDraft.write_listCodec (os : List Override) :
    OverrideDraft.listCodec.write (os.map Override.draft) =
      Json.ofFields [("overrides", Override.codec.list.write os)] := by
  have hlist : OverrideDraft.codec.list.write (os.map Override.draft) =
      Override.codec.list.write os := by
    simp only [Codec.list, List.map_map, Function.comp_def, Override.write_draft]
  simp only [listCodec, Layout.codec, Layout.write, Slot.needed, hlist]

end Guildhall
