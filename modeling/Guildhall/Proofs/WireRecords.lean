-- SUMMARY: Records survive the wire: they are read back from what they are written as, with fields in any order and unknown fields added.
import Guildhall.Proofs.Codecs

/-!
# Records on the wire

`Json.Extends` relates a value to what others may make of it on its way: in each of its objects the
fields may change places, and fields of other names may come on top. A value of a type survives with
a codec if it is read from all that its spelling extends to (`Codec.Survives`). Lists and nullable
values survive if their parts do, and records if all their fields do; an object is read one slot
of the layout after the other, wherever the field of the slot stands (`Layout.readFields_met`).
-/

namespace Guildhall

namespace Json

/-! ## Values with more in them -/

mutual

/-- Whether the second value is the first one with the fields of its objects in some order and sound
fields of other names among them. -/
inductive Extends : Json → Json → Prop where
  | refl (j : Json) : Extends j j
  | array {js ks : List Json} (items : ItemsExtend js ks) : Extends (ofItems js) (ofItems ks)
  | object {fs gs more mixed : List (String × Json)} (kept : FieldsExtend fs gs)
      (unknown : ∀ f ∈ more, f.1 ∉ fs.map Prod.fst) (sound : ∀ f ∈ more, f.2.intact = true)
      (order : mixed.Perm (gs ++ more)) : Extends (ofFields fs) (ofFields mixed)

/-- The same for elements one by one. -/
inductive ItemsExtend : List Json → List Json → Prop where
  | nil : ItemsExtend [] []
  | cons {j k : Json} {js ks : List Json} (head : Extends j k) (tail : ItemsExtend js ks) :
      ItemsExtend (j :: js) (k :: ks)

/-- The same for fields one by one; they keep their names. -/
inductive FieldsExtend : List (String × Json) → List (String × Json) → Prop where
  | nil : FieldsExtend [] []
  | cons {name : String} {j k : Json} {fs gs : List (String × Json)} (head : Extends j k)
      (tail : FieldsExtend fs gs) : FieldsExtend ((name, j) :: fs) ((name, k) :: gs)

end

theorem Items.ofList_injective {js ks : List Json} (h : ofList js = ofList ks) : js = ks := by
  rw [← toList_ofList js, h, toList_ofList]

theorem Fields.ofList_injective {fs gs : List (String × Json)} (h : ofList fs = ofList gs) :
    fs = gs := by
  induction fs generalizing gs with
  | nil =>
    cases gs with
    | nil => rfl
    | cons g gs => cases h
  | cons f fs ih =>
    cases gs with
    | nil => cases h
    | cons g gs =>
      simp only [ofList, Fields.cons.injEq, Option.some.injEq] at h
      rw [Prod.ext h.1 h.2.1, ih h.2.2]

theorem ItemsExtend.refl (js : List Json) : ItemsExtend js js := by
  induction js with
  | nil => exact .nil
  | cons j js ih => exact .cons (.refl j) ih

theorem FieldsExtend.refl (fs : List (String × Json)) : FieldsExtend fs fs := by
  induction fs with
  | nil => exact .nil
  | cons f fs ih => exact .cons (.refl f.2) ih

theorem exists_of_ofItems_extends {js : List Json} {k : Json} (h : (ofItems js).Extends k) :
    ∃ ks, k = ofItems ks ∧ ItemsExtend js ks := by
  generalize hj : ofItems js = j at h
  cases h with
  | refl => exact ⟨js, hj.symm, .refl js⟩
  | array items =>
    obtain rfl := Items.ofList_injective (Json.array.inj hj)
    exact ⟨_, rfl, items⟩
  | object => cases hj

theorem exists_of_ofFields_extends {fs : List (String × Json)} {k : Json}
    (h : (ofFields fs).Extends k) :
    ∃ gs more mixed, k = ofFields mixed ∧ FieldsExtend fs gs ∧
      (∀ f ∈ more, f.1 ∉ fs.map Prod.fst) ∧ (∀ f ∈ more, f.2.intact = true) ∧
      mixed.Perm (gs ++ more) := by
  generalize hj : ofFields fs = j at h
  cases h with
  | refl => exact ⟨fs, [], fs, hj.symm, .refl fs, by simp, by simp, by simp⟩
  | array => cases hj
  | object kept unknown sound order =>
    obtain rfl := Fields.ofList_injective (Json.object.inj hj)
    exact ⟨_, _, _, rfl, kept, unknown, sound, order⟩

/-- Whether a value has no parts. -/
def scalar : Json → Bool
  | .array _ | .object _ => false
  | _ => true

/-- Nothing is changed about values without parts. -/
theorem Extends.eq_of_scalar {j k : Json} (h : j.Extends k) (hj : j.scalar = true) : k = j := by
  cases h with
  | refl => rfl
  | array => cases hj
  | object => cases hj

theorem Extends.eq_null {j : Json} (h : j.Extends .null) : j = .null := by
  generalize hk : Json.null = k at h
  cases h with
  | refl => rfl
  | array => cases hk
  | object => cases hk

/-! ### Soundness -/

mutual

theorem intact_of_plain : ∀ {j : Json}, j.plain = true → j.intact = true
  | .null, _ | .bool _, _ | .integer _, _ | .string _, _ => rfl
  | .array _, h => items_intact_of_plain h
  | .object _, h => fields_intact_of_plain h

theorem items_intact_of_plain : ∀ {js : Items}, js.plain = true → js.intact = true
  | .closed, _ => rfl
  | .cons j js, h => by
    have h' : j.plain = true ∧ js.plain = true := by simpa [Items.plain] using h
    simp [Items.intact, intact_of_plain h'.1, items_intact_of_plain h'.2]

theorem fields_intact_of_plain : ∀ {fs : Fields}, fs.plain = true → fs.intact = true
  | .closed, _ => rfl
  | .cons k j fs, h => by
    have h' : (k.isSome = true ∧ j.plain = true) ∧ fs.plain = true := by
      simpa [Fields.plain] using h
    simp [Fields.intact, intact_of_plain h'.1.2, fields_intact_of_plain h'.2]

end

theorem Items.intact_ofList {js : List Json} :
    (ofList js).intact = true ↔ ∀ j ∈ js, j.intact = true := by
  induction js with
  | nil => simp [ofList, intact]
  | cons j js ih => simp [ofList, intact, ih]

theorem Fields.intact_ofList {fs : List (String × Json)} :
    (ofList fs).intact = true ↔ ∀ f ∈ fs, f.2.intact = true := by
  induction fs with
  | nil => simp [ofList, intact]
  | cons f fs ih => simp [ofList, intact, ih]

mutual

/-- What a sound value extends to is sound. -/
theorem Extends.intact {j k : Json} : j.Extends k → j.intact = true → k.intact = true
  | .refl _, h => h
  | .array items, h => Items.intact_ofList.2 (items.intact (Items.intact_ofList.1 h))
  | .object kept _ sound order, h => by
    refine Fields.intact_ofList.2 fun f hf => ?_
    obtain hf | hf := List.mem_append.1 (order.mem_iff.1 hf)
    · exact kept.intact (Fields.intact_ofList.1 h) f hf
    · exact sound f hf

theorem ItemsExtend.intact {js ks : List Json} : ItemsExtend js ks →
    (∀ j ∈ js, j.intact = true) → ∀ k ∈ ks, k.intact = true
  | .nil, _ => by simp
  | .cons head tail, h => by
    obtain ⟨hj, hjs⟩ := List.forall_mem_cons.1 h
    exact List.forall_mem_cons.2 ⟨head.intact hj, tail.intact hjs⟩

theorem FieldsExtend.intact {fs gs : List (String × Json)} : FieldsExtend fs gs →
    (∀ f ∈ fs, f.2.intact = true) → ∀ g ∈ gs, g.2.intact = true
  | .nil, _ => by simp
  | .cons head tail, h => by
    obtain ⟨hf, hfs⟩ := List.forall_mem_cons.1 h
    exact List.forall_mem_cons.2 ⟨head.intact hf, tail.intact hfs⟩

end

/-! ## Values that survive -/

namespace Codec

/-- Whether a value is read back from what it is written as, whatever that is extended to. -/
structure Survives {α : Type} (c : Codec α) (a : α) : Prop where
  read_extends : ∀ {j}, (c.write a).Extends j → c.read j = .ok a
  plain_write : (c.write a).plain = true

variable {α β : Type} {c : Codec α} {a : α}

theorem Survives.intact (h : c.Survives a) {j : Json} (hj : (c.write a).Extends j) :
    j.intact = true :=
  hj.intact (intact_of_plain h.plain_write)

theorem survives_of_scalar (hscalar : (c.write a).scalar = true)
    (hread : c.read (c.write a) = .ok a) (hplain : (c.write a).plain = true) : c.Survives a where
  read_extends hj := by rw [hj.eq_of_scalar hscalar, hread]
  plain_write := hplain

theorem string_survives (s : String) : string.Survives s := survives_of_scalar rfl rfl rfl

theorem bool_survives (b : Bool) : bool.Survives b := survives_of_scalar rfl rfl rfl

theorem integer_survives {low high i : Int} (hl : low ≤ i) (hh : i ≤ high) :
    (integer low high).Survives i := by
  refine survives_of_scalar rfl ?_ rfl
  simp [integer, hl, hh]

theorem Lawful.survives (h : c.Lawful) (hscalar : (c.write a).scalar = true) : c.Survives a :=
  survives_of_scalar hscalar (h.read_write a) (h.plain_write a)

theorem Survives.map {wrap : α → β} {unwrap : β → α} {b : β} (h : c.Survives (unwrap b))
    (hb : wrap (unwrap b) = b) : (c.map wrap unwrap).Survives b where
  read_extends hj := by simp only [Codec.map, h.read_extends hj, Except.map, hb]
  plain_write := h.plain_write

theorem int32_survives (i : Int32) : int32.Survives i :=
  (integer_survives i.le_toInt i.toInt_le).map (Int32.ofInt_toInt i)

theorem nullable_survives_none : c.nullable.Survives none := survives_of_scalar rfl rfl rfl

theorem Survives.nullable (h : c.Survives a) (hne : c.write a ≠ .null) :
    c.nullable.Survives (some a) where
  read_extends {j} hj := by
    have hread := h.read_extends hj
    cases j with
    | null => exact absurd hj.eq_null hne
    | bool | integer | decimal | string | array | object | broken =>
      simp [Codec.nullable, hread, Except.map]
  plain_write := h.plain_write

theorem readItems_of_extend {as : List α} {js : List Json} (h : ∀ a ∈ as, c.Survives a)
    (hjs : ItemsExtend (as.map c.write) js) : c.readItems (Items.ofList js) = .ok as := by
  induction as generalizing js with
  | nil =>
    cases hjs
    rfl
  | cons a as ih =>
    obtain ⟨ha, has⟩ := List.forall_mem_cons.1 h
    cases hjs with
    | cons head tail =>
      simp [Items.ofList, readItems, ha.read_extends head, ih has tail, bind, Except.bind, pure,
        Except.pure]

/-- A list survives if its elements do. -/
theorem Survives.list {as : List α} (h : ∀ a ∈ as, c.Survives a) : c.list.Survives as where
  read_extends hj := by
    obtain ⟨js, rfl, hjs⟩ := exists_of_ofItems_extends hj
    exact readItems_of_extend h hjs
  plain_write := by
    refine plain_ofList fun j hj => ?_
    obtain ⟨a, ha, rfl⟩ := List.mem_map.1 hj
    exact (h a ha).plain_write

end Codec

/-! ## Records -/

theorem FieldsExtend.map_fst {fs gs : List (String × Json)} (h : FieldsExtend fs gs) :
    gs.map Prod.fst = fs.map Prod.fst := by
  induction fs generalizing gs with
  | nil =>
    cases h
    rfl
  | cons f fs ih =>
    cases h with
    | cons head tail => simp [ih tail]

/-- Each field is found where it has gone, and under its name nothing else. -/
theorem FieldsExtend.exists_field {fs gs : List (String × Json)} (h : FieldsExtend fs gs)
    (hnames : (fs.map Prod.fst).Nodup) {f : String × Json} (hf : f ∈ fs) :
    ∃ k, gs.filter (·.1 = f.1) = [(f.1, k)] ∧ f.2.Extends k := by
  induction fs generalizing gs with
  | nil => cases hf
  | cons g fs ih =>
    obtain ⟨name, j⟩ := g
    obtain ⟨hname, hfs⟩ := List.nodup_cons.1 hnames
    cases h with
    | @cons _ _ k _ gs head tail =>
      obtain rfl | hf := List.mem_cons.1 hf
      · have hnone : gs.filter (·.1 = name) = [] := by
          refine List.filter_eq_nil_iff.2 fun g hg hg' => hname ?_
          rw [← tail.map_fst, ← of_decide_eq_true hg']
          exact List.mem_map.2 ⟨g, hg, rfl⟩
        exact ⟨k, by rw [List.filter_cons_of_pos (by simp), hnone], head⟩
      · have hne : name ≠ f.1 := fun he => hname (List.mem_map.2 ⟨f, hf, he.symm⟩)
        obtain ⟨l, hl, hextends⟩ := ih tail hfs hf
        exact ⟨l, by rw [List.filter_cons_of_neg (by simpa using hne), hl], hextends⟩

namespace Layout

variable {αs : List Type}

/-- Whether each field of a row survives, under a name of its own. -/
def Survives : {αs : List Type} → Layout αs → Row αs → Prop
  | _, .nil, _ => True
  | _, .cons slot rest, (a, as) =>
    slot.codec.Survives a ∧ slot.name ∉ rest.names ∧ rest.Survives as

theorem put_of_not_mem {layout : Layout αs} {name : String} {j : Json} {draft : Draft αs}
    (h : name ∉ layout.names) : layout.put name j draft = none := by
  induction layout with
  | nil => rfl
  | cons slot rest ih =>
    simp only [names, List.mem_cons, not_or] at h
    simp [put, h.1, ih h.2]

/-- A first field is met wherever it stands, and to the others it is an unknown one. -/
theorem readFields_met {α : Type} {slot : Slot α} {rest : Layout αs} {a : α} {j : Json}
    {fs : List (String × Json)} {draft : Draft αs}
    (hfs : fs.filter (·.1 = slot.name) = [(slot.name, j)]) (hread : slot.codec.read j = .ok a)
    (hj : j.intact = true) (hnew : slot.name ∉ rest.names) :
    (Layout.cons slot rest).readFields (Fields.ofList fs) (none, draft) =
      (rest.readFields (Fields.ofList fs) draft).map (a, ·) := by
  induction fs generalizing draft with
  | nil => cases hfs
  | cons f fs ih =>
    obtain ⟨key, k⟩ := f
    by_cases hkey : key = slot.name
    · rw [List.filter_cons_of_pos (by simpa using hkey)] at hfs
      obtain ⟨hfirst, hrest⟩ := List.cons.inj hfs
      cases hfirst
      have hlast : slot.name ∉ fs.map Prod.fst := by
        intro hmem
        obtain ⟨f, hf, hname⟩ := List.mem_map.1 hmem
        have := List.filter_eq_nil_iff.1 hrest f hf
        simp [hname] at this
      simp only [Fields.ofList, readFields, put, if_true, hread, Except.map, put_of_not_mem hnew, hj]
      exact readFields_cons hlast
    · rw [List.filter_cons_of_neg (by simpa using hkey)] at hfs
      simp only [Fields.ofList, readFields, put, if_neg hkey]
      cases rest.put key k draft with
      | none =>
        simp only [Option.map_none]
        split
        · exact ih hfs
        · rfl
      | some outcome =>
        cases outcome with
        | error fault => rfl
        | ok draft' => exact ih hfs

theorem readFields_nil {fs : List (String × Json)} (h : ∀ f ∈ fs, f.2.intact = true) :
    Layout.nil.readFields (Fields.ofList fs) () = .ok () := by
  induction fs with
  | nil => rfl
  | cons f fs ih =>
    obtain ⟨hf, hfs⟩ := List.forall_mem_cons.1 h
    simp [Fields.ofList, readFields, put, hf, ih hfs]

/-- A row is read from sound fields among which each field of the row is found once. -/
theorem readFields_survives {layout : Layout αs} {row : Row αs} (h : layout.Survives row)
    {fs : List (String × Json)} (hsound : ∀ f ∈ fs, f.2.intact = true)
    (hfound : ∀ f ∈ layout.write row, ∃ k, fs.filter (·.1 = f.1) = [(f.1, k)] ∧ f.2.Extends k) :
    layout.readFields (Fields.ofList fs) layout.blank = .ok row := by
  induction layout with
  | nil => exact readFields_nil hsound
  | cons slot rest ih =>
    obtain ⟨a, as⟩ := row
    obtain ⟨ha, hnew, has⟩ := h
    obtain ⟨⟨k, hk, hextends⟩, hrest⟩ := List.forall_mem_cons.1 hfound
    rw [blank, readFields_met hk (ha.read_extends hextends) (ha.intact hextends) hnew,
      ih has hrest, Except.map]

theorem nodup_names {layout : Layout αs} {row : Row αs} (h : layout.Survives row) :
    layout.names.Nodup := by
  induction layout with
  | nil => exact .nil
  | cons slot rest ih =>
    obtain ⟨a, as⟩ := row
    exact List.nodup_cons.2 ⟨h.2.1, ih h.2.2⟩

theorem plain_of_survives {layout : Layout αs} {row : Row αs} (h : layout.Survives row) :
    (Fields.ofList (layout.write row)).plain = true := by
  induction layout with
  | nil => rfl
  | cons slot rest ih =>
    obtain ⟨a, as⟩ := row
    simp [write, Fields.ofList, Fields.plain, h.1.plain_write, ih h.2.2]

/-- A record survives if all its fields do. -/
theorem codec_survives {β : Type} {layout : Layout αs} {ofRow : Row αs → β} {toRow : β → Row αs}
    {b : β} (h : layout.Survives (toRow b)) (hrow : ofRow (toRow b) = b) :
    (layout.codec ofRow toRow).Survives b where
  plain_write := plain_of_survives h
  read_extends {j} hj := by
    have hintact : j.intact = true := hj.intact (intact_of_plain (plain_of_survives h))
    obtain ⟨gs, more, mixed, rfl, kept, unknown, -, order⟩ := exists_of_ofFields_extends hj
    have hnodup : ((layout.write (toRow b)).map Prod.fst).Nodup := by
      rw [names_write]
      exact nodup_names h
    have hread : layout.readFields (Fields.ofList mixed) layout.blank = .ok (toRow b) := by
      refine readFields_survives h (Fields.intact_ofList.1 hintact) fun f hf => ?_
      obtain ⟨k, hk, hextends⟩ := kept.exists_field hnodup hf
      have hnone : more.filter (·.1 = f.1) = [] := by
        refine List.filter_eq_nil_iff.2 fun g hg hname => unknown g hg ?_
        rw [of_decide_eq_true hname]
        exact List.mem_map_of_mem hf
      refine ⟨k, ?_, hextends⟩
      have hperm := order.filter (·.1 = f.1)
      rw [List.filter_append, hk, hnone] at hperm
      exact List.perm_singleton.1 hperm
    simp only [codec, read, ofFields, hread, Except.map, hrow]

end Layout

end Json

/-! ## The records of the store -/

open Json

theorem Id.codec_survives (i : Id) : Id.codec.Survives i := Id.codec_lawful.survives rfl

theorem Permission.codec_survives (p : Permission) : Permission.codec.Survives p :=
  Permission.codec_lawful.survives rfl

theorem PermissionSet.codec_survives (ps : PermissionSet) : PermissionSet.codec.Survives ps :=
  (Codec.Survives.list fun p _ => p.codec_survives).map (ofList_toList ps)

theorem TargetKind.codec_survives (kind : TargetKind) : TargetKind.codec.Survives kind :=
  TargetKind.codec_lawful.survives rfl

theorem ChannelKind.codec_survives (kind : ChannelKind) : ChannelKind.codec.Survives kind :=
  ChannelKind.codec_lawful.survives rfl

/-- A value that may be null is told apart from null by its spelling. -/
theorem Json.Codec.Survives.optional {α : Type} {c : Codec α} (h : ∀ a, c.Survives a)
    (hne : ∀ a, c.write a ≠ .null) (a : Option α) : c.nullable.Survives a := by
  cases a with
  | none => exact Codec.nullable_survives_none
  | some a => exact (h a).nullable (hne a)

theorem Role.codec_survives (r : Role) : Role.codec.Survives r := by
  refine Layout.codec_survives ?_ rfl
  exact ⟨r.id.codec_survives, by decide, r.server.codec_survives, by decide,
    Codec.string_survives r.name, by decide,
    .optional Codec.int32_survives (fun _ h => by cases h) r.color, by decide,
    Codec.int32_survives r.position, by decide, r.permissions.codec_survives, by decide,
    Codec.bool_survives r.isDefault, by decide, trivial⟩

theorem Member.codec_survives (m : Member) : Member.codec.Survives m := by
  refine Layout.codec_survives ?_ rfl
  exact ⟨m.user.codec_survives, by decide, m.server.codec_survives, by decide,
    .list fun i _ => i.codec_survives, by decide, Codec.bool_survives m.isOwner, by decide, trivial⟩

theorem Override.codec_survives (o : Override) : Override.codec.Survives o := by
  refine Layout.codec_survives ?_ rfl
  exact ⟨o.target.kind.codec_survives, by decide, o.target.id.codec_survives, by decide,
    o.allow.codec_survives, by decide, o.deny.codec_survives, by decide, trivial⟩

theorem Channel.codec_survives (c : Channel) : Channel.codec.Survives c := by
  refine Layout.codec_survives ?_ rfl
  exact ⟨c.id.codec_survives, by decide,
    .optional Id.codec_survives (fun _ h => by cases h) c.server, by decide,
    c.kind.codec_survives, by decide,
    .optional Codec.string_survives (fun _ h => by cases h) c.name, by decide,
    .list fun i _ => i.codec_survives, by decide, .list fun o _ => o.codec_survives, by decide,
    trivial⟩

/-! ## Texts -/

namespace Json.Codec

/-- Whether the values of a type survive the wire as texts. What is written spells the value that was
meant, any text that spells an extension of it is read as the same value, and writing what was read
from any text is a canonical form of the text: it is read like the text itself. -/
structure SurvivesWire {α : Type} (c : Codec α) : Prop where
  written : ∀ a, Document.ofString (c.writeText a) = ⟨c.write a, false⟩
  read_extended : ∀ a s j, Document.ofString s = ⟨j, false⟩ → (c.write a).Extends j →
    c.readText s = .ok a
  canonical : ∀ s a, c.readText s = .ok a → c.readText (c.writeText a) = .ok a

theorem survivesWire {α : Type} {c : Codec α} (h : ∀ a, c.Survives a) : c.SurvivesWire := by
  have hwritten : ∀ a, Document.ofString (c.writeText a) = ⟨c.write a, false⟩ :=
    fun a => ofString_render (h a).plain_write
  have hread : ∀ a s j, Document.ofString s = ⟨j, false⟩ → (c.write a).Extends j →
      c.readText s = .ok a := by
    intro a s j hs hj
    simp [readText, readDocument, hs, (h a).read_extends hj, bind, Except.bind, pure, Except.pure]
  exact ⟨hwritten, hread, fun s a _ => hread a _ _ (hwritten a) (.refl _)⟩

end Json.Codec

/-- Roles, members, channels and overrides survive the wire. -/
theorem records_surviveWire :
    Role.codec.SurvivesWire ∧ Member.codec.SurvivesWire ∧ Channel.codec.SurvivesWire ∧
      Override.codec.SurvivesWire :=
  ⟨Codec.survivesWire Role.codec_survives, Codec.survivesWire Member.codec_survives,
    Codec.survivesWire Channel.codec_survives, Codec.survivesWire Override.codec_survives⟩

namespace Example

/-- A channel where everybody may look in. -/
def hall : Channel :=
  ⟨53, some 1, .text, some "hall", [], [⟨.role 10, .ofList [.viewChannel], ∅⟩]⟩

/-- The fields of the override, the last ones first and one of a name that is not known. -/
def reversedRule : List (String × Json) :=
  [("deny", .ofItems []), ("weight", .decimal "1e999"),
   ("allow", .ofItems [.text "VIEW_CHANNEL"]), ("target_id", .text (10 : Id).text),
   ("target_type", .text "role")]

/-- The fields of the channel in the same manner. -/
def reversedHall : List (String × Json) :=
  [("permission_overrides", .ofItems [.ofFields reversedRule]), ("recipients", .ofItems []),
   ("name", .text "hall"), ("topic", .string none), ("channel_type", .text "text"),
   ("server_id", .text (1 : Id).text), ("id", .text (53 : Id).text)]

/-- The characters of these fields; the topic is half of a surrogate pair. -/
def reversedChars : List Char :=
  ["\x7b \"permission_overrides\" : [\x7b\"deny\":[],", "\"weight\":1e999,",
    "\"allow\":[\"VIEW_CHANNEL\"],", "\"target_id\":\"", (10 : Id).text, "\",",
    "\"target_type\":\"role\"\x7d],", "\"recipients\":[],", "\"name\":\"h\\u0061ll\",",
    "\"topic\":\"\\ud800\",", "\"channel_type\":\"text\",", "\"server_id\":\"", (1 : Id).text,
    "\",", "\"id\":\"", (53 : Id).text, "\"\x7d"].flatMap String.toList

def reversedText : String := String.ofList reversedChars

end Example

theorem records_surviveWire_hall :
    Json.Document.ofString Example.reversedText = ⟨.ofFields Example.reversedHall, false⟩ ∧
      Channel.codec.readText Example.reversedText = .ok Example.hall := by
  have hchars : Json.Document.ofChars Example.reversedChars =
      ⟨.ofFields Example.reversedHall, false⟩ := by decide +kernel
  have htext : Json.Document.ofString Example.reversedText =
      ⟨.ofFields Example.reversedHall, false⟩ := by
    rw [Json.Document.ofString, Example.reversedText, String.toList_ofList, hchars]
  have hrule : (Override.codec.write ⟨.role 10, .ofList [.viewChannel], ∅⟩).Extends
      (.ofFields Example.reversedRule) := by
    have hmore : ∀ f ∈ [("weight", Json.decimal "1e999")],
        f.1 ∉ ["target_type", "target_id", "allow", "deny"] ∧ f.2.intact = true := by decide
    exact .object (.refl _) (fun f hf => (hmore f hf).1) (fun f hf => (hmore f hf).2)
      (by decide +kernel)
  have hhall : (Channel.codec.write Example.hall).Extends (.ofFields Example.reversedHall) := by
    have hmore : ∀ f ∈ [("topic", Json.string none)],
        f.1 ∉ ["id", "server_id", "channel_type", "name", "recipients", "permission_overrides"] ∧
          f.2.intact = true := by decide
    have hrules : Json.Extends (.ofItems (Example.hall.overrides.map Override.codec.write))
        (.ofItems [.ofFields Example.reversedRule]) := .array (.cons hrule .nil)
    exact .object (.cons (.refl _) (.cons (.refl _) (.cons (.refl _) (.cons (.refl _)
      (.cons (.refl _) (.cons hrules .nil)))))) (fun f hf => (hmore f hf).1)
      (fun f hf => (hmore f hf).2) (by decide +kernel)
  exact ⟨htext, records_surviveWire.2.2.1.read_extended _ _ _ htext hhall⟩

end Guildhall
