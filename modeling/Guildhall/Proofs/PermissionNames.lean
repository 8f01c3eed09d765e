-- SUMMARY: Lists of permission names: the strict and the lenient reader and both writers agree.
import Guildhall.Proofs.Codecs

/-!
# Lists of permission names

Sets of permissions are spelled as lists of names. Requests and files are read strictly, and a name
that is not known makes reading fail (`PermissionSet.codec`). Stored names are read leniently, and
names that are not known are skipped (`PermissionSet.ofNames`). The two agree: what is read leniently
is what is read strictly once the unknown names are dropped, and both ways of writing a set list its
names in order (`PermissionSet.namesAgree`). The table of names is the one that follows from the
constructors by `screamingSnakeCase`.
-/

namespace Guildhall

open Json

/-! ## Single names -/

/-- An identifier in camel case, put in capitals with underscores between its words. -/
def screamingSnakeCase (identifier : String) : String :=
  match identifier.toList with
  | [] => ""
  | c :: cs => .ofList (c.toUpper :: cs.flatMap fun d => if d.isUpper then ['_', d] else [d.toUpper])

namespace Permission

variable {x : String} {p : Permission} {xs : List String}

/-- The name of the constructor, in camel case. -/
def identifier : Permission → String
  | .administrator => "Administrator"
  | .manageServer => "ManageServer"
  | .manageChannel => "ManageChannel"
  | .manageRoles => "ManageRoles"
  | .manageMessages => "ManageMessages"
  | .manageWebhooks => "ManageWebhooks"
  | .manageNicknames => "ManageNicknames"
  | .createInstantInvite => "CreateInstantInvite"
  | .changeNickname => "ChangeNickname"
  | .kickMembers => "KickMembers"
  | .banMembers => "BanMembers"
  | .viewChannel => "ViewChannel"
  | .sendMessages => "SendMessages"
  | .embedLinks => "EmbedLinks"
  | .attachFiles => "AttachFiles"
  | .addReactions => "AddReactions"
  | .mentionEveryone => "MentionEveryone"
  | .readMessageHistory => "ReadMessageHistory"

/-- The codec that is derived from the constructors alone. -/
def derivedCodec : Codec Permission :=
  .named (fun x => all.find? (screamingSnakeCase ·.identifier == x)) (screamingSnakeCase ·.identifier)

theorem screamingSnakeCase_identifier (p : Permission) : screamingSnakeCase p.identifier = p.name := by
  cases p <;> decide

/-- The table of names is the one that is derived from the constructors. -/
theorem derivedCodec_eq : derivedCodec = codec := by
  simp only [derivedCodec, screamingSnakeCase_identifier]
  rfl

theorem ofName?_eq_some : ofName? x = some p ↔ p.name = x := by
  constructor
  · intro h
    simpa using List.find?_some h
  · rintro rfl
    exact p.ofName?_name

theorem exists_ofName?_iff : (∃ p, ofName? x = some p) ↔ x ∈ all.map name := by
  simp only [ofName?_eq_some, List.mem_map, mem_all, true_and]

/-- The names tell the permissions apart. -/
theorem nodup_names : (all.map name).Nodup := by decide

/-- A list of strings is read name by name, up to the first one that is not known. -/
theorem readItems_text (x : String) (js : Items) : codec.readItems (.cons (Json.text x) js) =
    match ofName? x with
    | some p => (codec.readItems js).map (p :: ·)
    | none => .error .mismatched := by
  simp only [Codec.readItems, codec, Codec.named, Json.text, Codec.readName]
  cases ofName? x <;> rfl

/-- The known names of a list are the names of the permissions that are found by them. -/
theorem map_name_filterMap (xs : List String) :
    (xs.filterMap ofName?).map name = xs.filter (ofName? · |>.isSome) := by
  induction xs with
  | nil => rfl
  | cons x xs ih =>
    cases hx : ofName? x with
    | none => simp [hx, ih]
    | some p => simp [hx, ih, ofName?_eq_some.1 hx]

end Permission

/-! ## Lists of names -/

/-- A list of strings in JSON. -/
def Json.texts (xs : List String) : Json := Json.ofItems (xs.map Json.text)

theorem Json.plain_texts (xs : List String) : (Json.texts xs).plain = true := by
  refine Codec.plain_ofList fun j hj => ?_
  obtain ⟨x, -, rfl⟩ := List.mem_map.1 hj
  rfl

/-- A list of strings is read from its text as it is read from JSON. -/
theorem Json.Codec.readText_texts {α : Type} (c : Codec α) (xs : List String) :
    c.readText (Json.texts xs).render = c.read (Json.texts xs) := by
  rw [readText, Json.ofString_render (Json.plain_texts xs)]
  simp only [readDocument]
  cases c.read (Json.texts xs) <;> rfl

namespace PermissionSet

variable {x : String} {p : Permission} {xs ys : List String}

theorem mem_ofNames : p ∈ ofNames xs ↔ p.name ∈ xs := by
  rw [ofNames, mem_ofList, List.mem_filterMap]
  constructor
  · rintro ⟨x, hx, hp⟩
    rwa [Permission.ofName?_eq_some.1 hp]
  · exact fun hp => ⟨p.name, hp, p.ofName?_name⟩

theorem ofNames_congr (h : ∀ x, x ∈ ys ↔ x ∈ xs) : ofNames ys = ofNames xs := by
  apply ext
  intro p
  rw [mem_ofNames, mem_ofNames, h]

/-- What is written is the list of the names. -/
theorem write_eq_texts (s : PermissionSet) : codec.write s = Json.texts s.names := by
  simp only [codec, Codec.map, Codec.list, Json.texts, names, List.map_map]
  rfl

/-- Names of permissions are read strictly. -/
theorem read_map_name (ps : List Permission) :
    codec.read (Json.texts (ps.map Permission.name)) = .ok (ofList ps) := by
  have hwrite : Json.texts (ps.map Permission.name) = Permission.codec.list.write ps := by
    simp only [Json.texts, Codec.list, List.map_map]
    rfl
  simp only [hwrite, codec, Codec.map, Permission.codec_lawful.list.read_write, Except.map]

/-- Without its unknown names, a list is read strictly as it is read leniently. -/
theorem read_filter_known (xs : List String) :
    codec.read (Json.texts (xs.filter (Permission.ofName? · |>.isSome))) = .ok (ofNames xs) := by
  rw [← Permission.map_name_filterMap, read_map_name]
  rfl

/-- A name that is not known makes strict reading fail, whatever stands around it. -/
theorem read_of_unknown (hx : x ∈ xs) (hunknown : Permission.ofName? x = none) :
    codec.read (Json.texts xs) = .error .mismatched := by
  have hitems : Permission.codec.readItems (Items.ofList (xs.map Json.text)) =
      .error .mismatched := by
    induction xs with
    | nil => cases hx
    | cons y ys ih =>
      rw [List.map_cons, Items.ofList, Permission.readItems_text]
      cases hy : Permission.ofName? y with
      | none => rfl
      | some p =>
        obtain rfl | hx := List.mem_cons.1 hx
        · rw [hunknown] at hy
          cases hy
        · rw [ih hx]
          rfl
  simp only [codec, Codec.map, Codec.list, Json.texts, Json.ofItems, hitems]
  rfl

/-- Strict reading as a whole. -/
theorem read_texts (xs : List String) : codec.read (Json.texts xs) =
    if ∀ x ∈ xs, (Permission.ofName? x).isSome = true then .ok (ofNames xs)
    else .error .mismatched := by
  split
  · rename_i hknown
    rw [← read_filter_known, List.filter_eq_self.2 hknown]
  · rename_i hunknown
    simp only [not_forall, Bool.not_eq_true, Option.isSome_eq_false_iff,
      Option.isNone_iff_eq_none] at hunknown
    obtain ⟨x, hx, hnone⟩ := hunknown
    exact read_of_unknown hx hnone

theorem names_ofNames (xs : List String) :
    (ofNames xs).names = (Permission.all.map Permission.name).filter (· ∈ xs) := by
  rw [names, toList, List.filter_map]
  refine congrArg (List.map Permission.name) (List.filter_congr fun p _ => ?_)
  rw [Bool.eq_iff_iff, contains_eq_true, mem_ofNames, Function.comp, decide_eq_true_eq]

theorem nodup_names (s : PermissionSet) : s.names.Nodup :=
  Permission.nodup_names.sublist (List.filter_sublist.map Permission.name)

/-- A set is read back from its names. -/
theorem ofNames_names (s : PermissionSet) : ofNames s.names = s := by
  have hfound : s.names.filterMap Permission.ofName? = s.toList := by
    have hname : Permission.ofName? ∘ Permission.name = some := funext Permission.ofName?_name
    rw [names, List.filterMap_map, hname, List.filterMap_some]
  rw [ofNames, hfound, ofList_toList]

/-- A set is read back from the text that is written for it. -/
theorem readText_writeText (s : PermissionSet) : codec.readText (codec.writeText s) = .ok s := by
  have hread : codec.read (Json.texts s.names) = .ok (ofList s.toList) := read_map_name s.toList
  rw [Codec.writeText, write_eq_texts, Codec.readText_texts, hread, ofList_toList]

/-! ## Both readers and both writers -/

/-- What the readers and the writers make of a list of strings. -/
structure NamesAgree (xs : List String) : Prop where
  /-- The names that are read and written are those that the constructors spell. -/
  derived : Permission.derivedCodec = Permission.codec
  /-- A name is known just if it is in the table of all names. -/
  known : ∀ x, (∃ p, Permission.ofName? x = some p) ↔ x ∈ Permission.all.map Permission.name
  /-- The list is read strictly just if all names are known. The set that is read is the union of the
  permissions that are named. -/
  strict : ∀ s, codec.read (Json.texts xs) = .ok s ↔
    (∀ x ∈ xs, ∃ p, Permission.ofName? x = some p) ∧ ∀ p, p ∈ s ↔ p.name ∈ xs
  /-- Neither the order of the names nor their repetition matters. -/
  unordered : ∀ ys, (∀ x, x ∈ ys ↔ x ∈ xs) →
    codec.read (Json.texts ys) = codec.read (Json.texts xs) ∧ ofNames ys = ofNames xs
  /-- The list is always read leniently, as it is read strictly without its unknown names. -/
  lenient : codec.read (Json.texts (xs.filter (Permission.ofName? · |>.isSome))) = .ok (ofNames xs)
  /-- Known names are written in order and each once. -/
  names : (ofNames xs).names = (Permission.all.map Permission.name).filter (· ∈ xs) ∧
    (ofNames xs).names.Nodup
  /-- In JSON the same names are written. -/
  written : codec.write (ofNames xs) = Json.texts (ofNames xs).names
  read_back : codec.readText (codec.writeText (ofNames xs)) = .ok (ofNames xs)
  ofNames_back : ofNames (ofNames xs).names = ofNames xs
  /-- As a text, a list of strings is read as it is read in JSON. -/
  text : codec.readText (Json.texts xs).render = codec.read (Json.texts xs)

theorem read_eq_ok_iff {s : PermissionSet} : codec.read (Json.texts xs) = .ok s ↔
    (∀ x ∈ xs, ∃ p, Permission.ofName? x = some p) ∧ ∀ p, p ∈ s ↔ p.name ∈ xs := by
  rw [read_texts]
  constructor
  · intro h
    split at h
    · rename_i hknown
      cases h
      exact ⟨fun x hx => Option.isSome_iff_exists.1 (hknown x hx), fun p => mem_ofNames⟩
    · cases h
  · rintro ⟨hknown, hs⟩
    have hset : ofNames xs = s := ext fun p => mem_ofNames.trans (hs p).symm
    rw [if_pos fun x hx => Option.isSome_iff_exists.2 (hknown x hx), hset]

theorem read_texts_congr (h : ∀ x, x ∈ ys ↔ x ∈ xs) :
    codec.read (Json.texts ys) = codec.read (Json.texts xs) := by
  simp only [read_texts, ofNames_congr h, h]

/-- Any list of strings is read and written alike in both ways, strictly as far as its names are
known. -/
theorem namesAgree (xs : List String) : NamesAgree xs where
  derived := Permission.derivedCodec_eq
  known _ := Permission.exists_ofName?_iff
  strict _ := read_eq_ok_iff
  unordered _ h := ⟨read_texts_congr h, ofNames_congr h⟩
  lenient := read_filter_known xs
  names := ⟨names_ofNames xs, nodup_names _⟩
  written := write_eq_texts _
  read_back := readText_writeText _
  ofNames_back := ofNames_names _
  text := Codec.readText_texts codec xs

end PermissionSet

end Guildhall
