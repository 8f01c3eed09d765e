-- SUMMARY: A value that is written as text is read back from it.
import Guildhall.Json.Text
import Mathlib.Data.List.Basic

/-!
# JSON text, there and back

A value is plain if it is whole, its strings are text and its numbers integers. What is written of a
plain value is read as this value (`ofString_render`). A reader does not know where a value ends before
it has looked further: after a number, what follows must not go on it (`Delimits`), and the first
character of an element must be neither a blank nor a closing bracket (`Starts`). The induction is on
the value; its steps say that one element or one field is read where it stands, and then the rest
(`scanItems_element`, `scanFields_field`).
-/

namespace Guildhall.Json

/-! ## Strings -/

private theorem scanString_letter {e c : Char} (he : escaped? e = some c) (hu : e ≠ 'u')
    (cs : List Char) : scanString ('\\' :: e :: cs) =
      (scanString cs).map fun (ps, rest) => (.char c :: ps, rest) := by
  rw [scanString]
  · rw [he]
    cases scanString cs <;> rfl
  · exact fun _ _ _ _ _ h => absurd h hu

private theorem scanString_unit {n : Nat} (h : n < 0xD800) (cs : List Char) :
    scanString ('\\' :: 'u' :: Hex.digits 4 n ++ cs) =
      (scanString cs).map fun (ps, rest) => (.char (Char.ofNat n) :: ps, rest) := by
  have hread : Hex.number? (Hex.digits 4 n) = some n := by
    rw [Hex.number?_digits, Nat.mod_eq_of_lt]
    exact Nat.lt_trans h (by decide)
  have hunit : Piece.ofUnit n = .char (Char.ofNat n) := by
    have h₁ : ¬ (0xD800 ≤ n ∧ n < 0xDC00) := by omega
    have h₂ : ¬ (0xDC00 ≤ n ∧ n < 0xE000) := by omega
    rw [Piece.ofUnit, if_neg h₁, if_neg h₂]
  obtain ⟨a, b, c, d, habcd⟩ : ∃ a b c d, Hex.digits 4 n = [a, b, c, d] := ⟨_, _, _, _, rfl⟩
  rw [habcd] at hread ⊢
  simp only [List.cons_append, List.nil_append, scanString, hread, hunit, Option.bind_eq_bind,
    Option.bind_some]
  cases scanString cs <;> rfl

private theorem scanString_plain {c : Char} (hq : c ≠ '"') (hb : c ≠ '\\') (hc : ¬ c.toNat < 0x20)
    (cs : List Char) : scanString (c :: cs) =
      (scanString cs).map fun (ps, rest) => (.char c :: ps, rest) := by
  simp [scanString, hb, hc]

/-- A character is read back from its escape. -/
theorem scanString_escape (c : Char) (cs : List Char) :
    scanString (escape c ++ cs) = (scanString cs).map fun (ps, rest) => (.char c :: ps, rest) := by
  unfold escape
  split_ifs with hq hb h8 hf hn hr ht hc
  · subst hq
    exact scanString_letter rfl (by decide) cs
  · subst hb
    exact scanString_letter rfl (by decide) cs
  · subst h8
    exact scanString_letter rfl (by decide) cs
  · subst hf
    exact scanString_letter rfl (by decide) cs
  · subst hn
    exact scanString_letter rfl (by decide) cs
  · subst hr
    exact scanString_letter rfl (by decide) cs
  · subst ht
    exact scanString_letter rfl (by decide) cs
  · have hunit := scanString_unit (Nat.lt_trans hc (by decide)) cs
    rwa [Char.ofNat_toNat] at hunit
  · exact scanString_plain hq hb hc cs

theorem scanString_flatMap (cs rest : List Char) :
    scanString (cs.flatMap escape ++ '"' :: rest) = some (cs.map .char, rest) := by
  induction cs with
  | nil => rfl
  | cons c cs ih =>
    rw [List.flatMap_cons, List.append_assoc, scanString_escape, ih]
    rfl

theorem join_map_char (cs : List Char) : Piece.join (cs.map .char) = some cs := by
  induction cs with
  | nil => rfl
  | cons c cs ih =>
    rw [List.map_cons, Piece.join, ih]
    rfl

theorem stringOf_map_char (s : String) : stringOf (s.toList.map .char) = some s := by
  rw [stringOf, join_map_char, Option.map_some, String.ofList_toList]

/-! ## Numbers -/

/-- Whether a text cannot go on a number that stands before it. -/
def Delimits (cs : List Char) : Prop :=
  ∀ c ∈ cs.head?, c ≠ '.' ∧ c ≠ 'e' ∧ c ≠ 'E' ∧ c.isDigit = false

theorem delimits_nil : Delimits [] := by
  intro c hc
  cases hc

private theorem splitDigits_append {ds rest : List Char} (hds : ∀ c ∈ ds, c.isDigit = true)
    (h : Delimits rest) : Numeral.splitDigits (ds ++ rest) = (ds, rest) := by
  have hrest : rest.takeWhile Char.isDigit = [] ∧ rest.dropWhile Char.isDigit = rest := by
    cases rest with
    | nil => exact ⟨rfl, rfl⟩
    | cons c cs =>
      have hc := (h c rfl).2.2.2
      exact ⟨List.takeWhile_cons_of_neg (by simp [hc]), List.dropWhile_cons_of_neg (by simp [hc])⟩
  rw [Numeral.splitDigits, List.takeWhile_append_of_pos hds, List.dropWhile_append_of_pos hds,
    hrest.1, hrest.2, List.append_nil]

private theorem splitFraction_of_delimits {rest : List Char} (h : Delimits rest) :
    Numeral.splitFraction? rest = some ([], rest) := by
  cases rest with
  | nil => rfl
  | cons c cs =>
    have hc := (h c rfl).1
    rw [Numeral.splitFraction?]
    intro cs' h'
    cases h'
    exact hc rfl

private theorem splitExponent_of_delimits {rest : List Char} (h : Delimits rest) :
    Numeral.splitExponent? rest = some ((false, []), [], rest) := by
  cases rest with
  | nil => rfl
  | cons c cs =>
    obtain ⟨-, he, hE, -⟩ := h c rfl
    simp [Numeral.splitExponent?, he, hE]

theorem eq_zero_of_head?_toDigits {n : Nat} (h : (Nat.toDigits 10 n).head? = some '0') : n = 0 := by
  induction n using Nat.strongRecOn with
  | ind n ih =>
    rw [Nat.toDigits_eq_if (by decide)] at h
    split at h
    · rename_i hlt
      have hdigit : ∀ d : Fin 10, Nat.digitChar d = '0' → d = 0 := by decide
      exact congrArg Fin.val (hdigit ⟨n, hlt⟩ (Option.some.inj h))
    · rename_i hge
      rw [List.head?_append_of_ne_nil _ Nat.toDigits_ne_nil] at h
      have := ih (n / 10) (by omega) h
      omega

/-- A number that is written in digits is cut off in front of what cannot go on it. -/
theorem split?_toDigits (n : Nat) {rest : List Char} (h : Delimits rest) :
    Numeral.split? (Nat.toDigits 10 n ++ rest) = some
      (⟨false, Nat.toDigits 10 n, [], (false, []), Nat.toDigits 10 n⟩, rest) ∧
    Numeral.split? ('-' :: Nat.toDigits 10 n ++ rest) = some
      (⟨true, Nat.toDigits 10 n, [], (false, []), '-' :: Nat.toDigits 10 n⟩, rest) := by
  have hdigits : ∀ c ∈ Nat.toDigits 10 n, c.isDigit = true :=
    fun c hc => Nat.isDigit_of_mem_toDigits (by decide) (by decide) hc
  have hsplit := splitDigits_append hdigits h
  have hzero : (Nat.toDigits 10 n).head? = some '0' → Nat.toDigits 10 n = ['0'] := by
    intro hhead
    rw [eq_zero_of_head?_toDigits hhead, Nat.toDigits_zero]
  have hsign : ∀ cs, Nat.toDigits 10 n ++ rest ≠ '-' :: cs := by
    intro cs hcs
    cases hd : Nat.toDigits 10 n with
    | nil => exact Nat.toDigits_ne_nil hd
    | cons c ds =>
      rw [hd] at hcs hdigits
      cases hcs
      exact absurd (hdigits '-' List.mem_cons_self) (by decide)
  have hfraction := splitFraction_of_delimits h
  have hexponent := splitExponent_of_delimits h
  constructor
  · unfold Numeral.split?
    split
    rename_i hcut
    split at hcut
    · rename_i hminus
      exact absurd hminus (hsign _)
    · cases hcut
      simpa [hsplit, hfraction, hexponent] using hzero
  · simpa [Numeral.split?, hsplit, hfraction, hexponent] using hzero

/-- An integer is read back from its digits. -/
theorem split?_renderInteger (i : Int) {rest : List Char} (h : Delimits rest) :
    ∃ number, Numeral.split? (renderInteger i ++ rest) = some (number, rest) ∧
      ofNumeral number = .integer i := by
  obtain ⟨hpos, hneg⟩ := split?_toDigits i.natAbs h
  have hvalue : Nat.ofDigitChars 10 (Nat.toDigits 10 i.natAbs) 0 = i.natAbs :=
    Nat.ofDigitChars_toDigits (by decide) (by decide)
  unfold renderInteger
  split
  · rename_i hi
    refine ⟨_, hneg, ?_⟩
    have hne : i.natAbs ≠ 0 := by omega
    have habs : -(i.natAbs : Int) = i := by omega
    simp only [ofNumeral, Numeral.integer?, and_self, if_true, hvalue, if_neg hne, habs]
  · rename_i hi
    refine ⟨_, hpos, ?_⟩
    have habs : (i.natAbs : Int) = i := by omega
    simp only [ofNumeral, Numeral.integer?, and_self, if_true, hvalue, Bool.false_eq_true, if_false,
      habs]

/-! ## Values that can be written -/

mutual

/-- Whether the value is whole, its strings are text and its numbers integers. -/
def plain : Json → Bool
  | .array items => items.plain
  | .object fields => fields.plain
  | .string s => s.isSome
  | .null | .bool _ | .integer _ => true
  | .decimal _ | .broken => false

def Items.plain : Items → Bool
  | .closed => true
  | .broken => false
  | .cons j js => j.plain && js.plain

def Fields.plain : Fields → Bool
  | .closed => true
  | .broken | .stray => false
  | .cons k j fs => k.isSome && j.plain && fs.plain

end

/-- Whether a value starts here: no blank, and no bracket that would close a list or an object. -/
def Starts (c : Char) : Prop := isBlank c = false ∧ c ≠ ']' ∧ c ≠ '}'

private theorem ne_of_numeral {c d : Char} (hc : c = '-' ∨ c.isDigit = true)
    (hd : ¬ (d = '-' ∨ d.isDigit = true)) : c ≠ d := by
  rintro rfl
  exact hd hc

theorem starts_of_numeral {c : Char} (h : c = '-' ∨ c.isDigit = true) : Starts c := by
  refine ⟨?_, ne_of_numeral h (by decide), ne_of_numeral h (by decide)⟩
  have hblank := fun d hd => ne_of_numeral (d := d) h hd
  simp [isBlank, hblank ' ' (by decide), hblank '\t' (by decide), hblank '\n' (by decide),
    hblank '\r' (by decide)]

theorem exists_renderInteger (i : Int) :
    ∃ c cs, renderInteger i = c :: cs ∧ (c = '-' ∨ c.isDigit = true) := by
  unfold renderInteger
  split
  · exact ⟨'-', _, rfl, .inl rfl⟩
  · cases hd : Nat.toDigits 10 i.natAbs with
    | nil => exact absurd hd Nat.toDigits_ne_nil
    | cons c cs =>
      have hc : c ∈ Nat.toDigits 10 i.natAbs := hd ▸ List.mem_cons_self
      exact ⟨c, cs, rfl, .inr (Nat.isDigit_of_mem_toDigits (by decide) (by decide) hc)⟩

theorem exists_renderChars {j : Json} (h : j.plain = true) :
    ∃ c cs, j.renderChars = c :: cs ∧ Starts c := by
  cases j with
  | null => exact ⟨'n', _, rfl, by decide, by decide, by decide⟩
  | bool b => cases b <;> exact ⟨_, _, rfl, by decide, by decide, by decide⟩
  | integer i =>
    obtain ⟨c, cs, hcs, hc⟩ := exists_renderInteger i
    exact ⟨c, cs, hcs, starts_of_numeral hc⟩
  | string s =>
    cases s with
    | none => cases h
    | some s => exact ⟨'"', _, rfl, by decide, by decide, by decide⟩
  | array items => exact ⟨'[', _, rfl, by decide, by decide, by decide⟩
  | object fields => exact ⟨'\x7b', _, rfl, by decide, by decide, by decide⟩
  | decimal | broken => cases h

/-! ## Single values -/

section

variable {n : Nat} {c : Char} {cs rest : List Char}

theorem skipBlanks_of_starts (h : Starts c) : skipBlanks (c :: cs) = c :: cs := by
  rw [skipBlanks, List.dropWhile_cons_of_neg (by simp [h.1])]

theorem scanValue_integer (i : Int) (h : Delimits rest) :
    scanValue (n + 1) (renderInteger i ++ rest) = (.integer i, some rest) := by
  obtain ⟨number, hsplit, hvalue⟩ := split?_renderInteger i h
  obtain ⟨c, cs, hcs, hc⟩ := exists_renderInteger i
  rw [hcs, List.cons_append] at hsplit ⊢
  rw [scanValue, skipBlanks_of_starts (starts_of_numeral hc)]
  split
  case h_7 => simp only [hsplit, hvalue]
  all_goals
    rename_i h
    exact absurd (List.cons.inj h).1 (ne_of_numeral hc (by decide))

theorem scanValue_string (s : String) :
    scanValue (n + 1) (renderString (some s) ++ rest) = (.string (some s), some rest) := by
  have hscan := scanString_flatMap s.toList rest
  simp [renderString, scanValue, skipBlanks, isBlank, hscan, stringOf_map_char]

end

/-! ## Elements and fields -/

section

variable {n : Nat} {c : Char} {cs rest : List Char} {first : Bool} {j : Json}

/-- What stands between the element before and the next one. -/
def separator (first : Bool) : List Char := if first then [] else [',']

theorem separator_false : separator false = [','] := rfl

theorem skipBlanks_separator (h : Starts c) :
    skipBlanks (separator first ++ c :: cs) = separator first ++ c :: cs := by
  cases first with
  | true => exact skipBlanks_of_starts h
  | false => exact skipBlanks_of_starts ⟨by decide, by decide, by decide⟩

theorem nextElement?_separator {bracket : Char} (h : Starts c) (hb : c ≠ bracket) :
    nextElement? bracket first (separator first ++ c :: cs) = some (c :: cs) := by
  cases first with
  | true => rfl
  | false => simp [separator, nextElement?, skipBlanks_of_starts h, hb]

/-- An element is read where it stands, then the others. -/
theorem scanItems_element (h : Starts c) (hv : scanValue n (c :: cs) = (j, some rest)) :
    scanItems (n + 1) first (separator first ++ c :: cs) =
      (.cons j (scanItems n false rest).1, (scanItems n false rest).2) := by
  rw [scanItems, skipBlanks_separator h]
  split
  · rename_i hclosed
    cases first with
    | true => exact absurd (List.cons.inj hclosed).1 h.2.1
    | false => exact absurd (List.cons.inj hclosed).1 (by decide)
  · simp only [nextElement?_separator h h.2.1, hv]

/-- A field is read where it stands, then the others. -/
theorem scanFields_field (k : String) (hv : scanValue n cs = (j, some rest)) :
    scanFields (n + 1) first (separator first ++ (renderString (some k) ++ ':' :: cs)) =
      (.cons (some k) j (scanFields n false rest).1, (scanFields n false rest).2) := by
  have hstart : Starts '"' := ⟨by decide, by decide, by decide⟩
  have hscan := scanString_flatMap k.toList (':' :: cs)
  have htext : renderString (some k) ++ ':' :: cs =
      '"' :: (k.toList.flatMap escape ++ '"' :: ':' :: cs) := by
    simp [renderString]
  rw [htext, scanFields, skipBlanks_separator hstart]
  split
  · rename_i hclosed
    cases first with
    | true => exact absurd (List.cons.inj hclosed).1 (by decide)
    | false => exact absurd (List.cons.inj hclosed).1 (by decide)
  · simp only [nextElement?_separator hstart hstart.2.2, skipBlanks_of_starts hstart, hscan,
      stringOf_map_char, skipBlanks_of_starts (c := ':') ⟨by decide, by decide, by decide⟩, hv]

/-! ## Reading what was written -/

theorem length_items_pos {js : Items} (h : js.plain = true) (sep : List Char) :
    0 < (js.renderChars sep).length := by
  cases js with
  | closed => simp [Items.renderChars]
  | cons j js =>
    obtain ⟨hj, -⟩ : j.plain = true ∧ js.plain = true := by simpa [Items.plain] using h
    obtain ⟨c, cs, hcs, -⟩ := exists_renderChars hj
    simp only [Items.renderChars, hcs, List.length_append, List.length_cons]
    omega
  | broken => cases h

theorem length_fields_pos {fs : Fields} (h : fs.plain = true) (sep : List Char) :
    0 < (fs.renderChars sep).length := by
  cases fs with
  | closed => simp [Fields.renderChars]
  | cons k j fs =>
    simp only [Fields.renderChars, List.length_append, List.length_cons]
    omega
  | broken | stray => cases h

theorem delimits_items {js : Items} (h : js.plain = true) :
    Delimits (js.renderChars [','] ++ rest) := by
  cases js with
  | closed => simp [Items.renderChars, Delimits]
  | cons j js => simp [Items.renderChars, Delimits]
  | broken => cases h

theorem delimits_fields {fs : Fields} (h : fs.plain = true) :
    Delimits (fs.renderChars [','] ++ rest) := by
  cases fs with
  | closed => simp [Fields.renderChars, Delimits]
  | cons k j fs => simp [Fields.renderChars, Delimits]
  | broken | stray => cases h

end

mutual

/-- A value is read back from its text, if nothing follows that could go on it. -/
theorem scanValue_renderChars : ∀ {j : Json}, j.plain = true → ∀ {n : Nat} {rest : List Char},
    j.renderChars.length ≤ n → Delimits rest → scanValue n (j.renderChars ++ rest) = (j, some rest)
  | j, hj, 0, rest, hn, _ => by
    obtain ⟨c, cs, hcs, -⟩ := exists_renderChars hj
    simp [hcs] at hn
  | .null, _, n + 1, rest, _, _ => by
    simp [renderChars, scanValue, skipBlanks, isBlank]
  | .bool b, _, n + 1, rest, _, _ => by
    cases b <;> simp [renderChars, scanValue, skipBlanks, isBlank]
  | .integer i, _, n + 1, rest, _, hrest => scanValue_integer i hrest
  | .string (some s), _, n + 1, rest, _, _ => scanValue_string s
  | .array items, hj, n + 1, rest, hn, _ => by
    have hitems : scanItems n true (items.renderChars [] ++ rest) = (items, some rest) := by
      apply scanItems_renderChars hj
      simpa [renderChars, separator] using hn
    simp [renderChars, scanValue, skipBlanks, isBlank, hitems]
  | .object fields, hj, n + 1, rest, hn, _ => by
    have hfields : scanFields n true (fields.renderChars [] ++ rest) = (fields, some rest) := by
      apply scanFields_renderChars hj
      simpa [renderChars, separator] using hn
    simp [renderChars, scanValue, skipBlanks, isBlank, hfields]

theorem scanItems_renderChars : ∀ {js : Items}, js.plain = true → ∀ {n : Nat} {first : Bool}
    {rest : List Char}, (js.renderChars (separator first)).length ≤ n →
    scanItems n first (js.renderChars (separator first) ++ rest) = (js, some rest)
  | js, h, 0, first, rest, hn => by
    have := length_items_pos h (separator first)
    omega
  | .closed, _, n + 1, first, rest, _ => by
    simp [Items.renderChars, scanItems, skipBlanks, isBlank]
  | .cons j js, h, n + 1, first, rest, hn => by
    obtain ⟨hj, hjs⟩ : j.plain = true ∧ js.plain = true := by simpa [Items.plain] using h
    obtain ⟨c, cs, hcs, hstart⟩ := exists_renderChars hj
    have hlength : (separator first).length + j.renderChars.length +
        (js.renderChars [',']).length ≤ n + 1 := by
      simpa [Items.renderChars, Nat.add_assoc] using hn
    have hpos : 0 < j.renderChars.length := by simp [hcs]
    have hpos' := length_items_pos hjs [',']
    have hvalue : scanValue n (j.renderChars ++ (js.renderChars [','] ++ rest)) =
        (j, some (js.renderChars [','] ++ rest)) := by
      refine scanValue_renderChars hj ?_ (delimits_items hjs)
      omega
    have hitems : scanItems n false (js.renderChars [','] ++ rest) = (js, some rest) := by
      apply scanItems_renderChars hjs
      rw [separator_false]
      omega
    rw [hcs, List.cons_append] at hvalue
    have htext : (Items.cons j js).renderChars (separator first) ++ rest =
        separator first ++ c :: (cs ++ (js.renderChars [','] ++ rest)) := by
      simp [Items.renderChars, hcs]
    rw [htext, scanItems_element hstart hvalue, hitems]

theorem scanFields_renderChars : ∀ {fs : Fields}, fs.plain = true → ∀ {n : Nat} {first : Bool}
    {rest : List Char}, (fs.renderChars (separator first)).length ≤ n →
    scanFields n first (fs.renderChars (separator first) ++ rest) = (fs, some rest)
  | fs, h, 0, first, rest, hn => by
    have := length_fields_pos h (separator first)
    omega
  | .closed, _, n + 1, first, rest, _ => by
    simp [Fields.renderChars, scanFields, skipBlanks, isBlank]
  | .cons (some k) j fs, h, n + 1, first, rest, hn => by
    obtain ⟨hj, hfs⟩ : j.plain = true ∧ fs.plain = true := by simpa [Fields.plain] using h
    have hlength : (separator first).length + (renderString (some k)).length + 1 +
        j.renderChars.length + (fs.renderChars [',']).length ≤ n + 1 := by
      simpa [Fields.renderChars, Nat.add_assoc, Nat.add_comm, Nat.add_left_comm] using hn
    have hkey : 0 < (renderString (some k)).length := by simp [renderString]
    have hvalue : scanValue n (j.renderChars ++ (fs.renderChars [','] ++ rest)) =
        (j, some (fs.renderChars [','] ++ rest)) := by
      refine scanValue_renderChars hj ?_ (delimits_fields hfs)
      omega
    have hfields : scanFields n false (fs.renderChars [','] ++ rest) = (fs, some rest) := by
      apply scanFields_renderChars hfs
      rw [separator_false]
      omega
    have htext : (Fields.cons (some k) j fs).renderChars (separator first) ++ rest =
        separator first ++ (renderString (some k) ++
          ':' :: (j.renderChars ++ (fs.renderChars [','] ++ rest))) := by
      simp [Fields.renderChars]
    rw [htext, scanFields_field k hvalue, hfields]

end

/-- A plain value is read back from the text that it is written as. -/
theorem ofString_render {j : Json} (h : j.plain = true) :
    Document.ofString j.render = ⟨j, false⟩ := by
  have hscan : scanValue (2 * j.renderChars.length + 2) (j.renderChars ++ []) = (j, some []) := by
    refine scanValue_renderChars h ?_ delimits_nil
    omega
  rw [List.append_nil] at hscan
  simp [Document.ofString, Document.ofChars, render, hscan, skipBlanks]

end Guildhall.Json
