-- SUMMARY: Base-64 and UTF-8 are read back from what they are written as, and with them the segments of tokens.
import Guildhall.Proofs.JsonText
import Guildhall.Token

/-!
# Encodings, there and back

A JSON value becomes a segment of a token in three steps: it is rendered as text, the text is
written in UTF-8, and the bytes are spelled in base-64. Each step is taken back by its reader, so
reading a segment finds the value again, if it is plain (`Token.document?_segment`).
-/

namespace Guildhall

/-! ## Base-64 -/

namespace Base64

theorem value?_char (n : Nat) : value? (char n) = some (n % 64) := by
  have hall : ∀ m < 64, value? (alphabet.getD m 'A') = some m := by decide +kernel
  exact hall (n % 64) (Nat.mod_lt n (by decide))

theorem mapM_value?_char (ns : List Nat) :
    (ns.map char).mapM value? = some (ns.map (· % 64)) := by
  induction ns with
  | nil => rfl
  | cons n ns ih => simp [value?_char, ih]

/-- The values that spell a list of bytes. -/
def values : List UInt8 → List Nat
  | [] => []
  | [a] => [a.toNat / 4, a.toNat % 4 * 16]
  | [a, b] => [a.toNat / 4, a.toNat % 4 * 16 + b.toNat / 16, b.toNat % 16 * 4]
  | a :: b :: c :: rest =>
    a.toNat / 4 :: (a.toNat % 4 * 16 + b.toNat / 16)
      :: (b.toNat % 16 * 4 + c.toNat / 64) :: (c.toNat % 64) :: values rest

theorem encode_eq_map (bytes : List UInt8) : encode bytes = (values bytes).map char := by
  induction bytes using encode.induct with
  | case1 => rfl
  | case2 a => rfl
  | case3 a b => rfl
  | case4 a b c rest ih => simp [encode, values, ih]

theorem lt_of_mem_values {bytes : List UInt8} {n : Nat} (h : n ∈ values bytes) : n < 64 := by
  induction bytes using values.induct with
  | case1 => simp [values] at h
  | case2 a =>
    have ha := a.toNat_lt
    simp only [values, List.mem_cons, List.not_mem_nil, or_false] at h
    omega
  | case3 a b =>
    have ha := a.toNat_lt
    have hb := b.toNat_lt
    simp only [values, List.mem_cons, List.not_mem_nil, or_false] at h
    omega
  | case4 a b c rest ih =>
    have ha := a.toNat_lt
    have hb := b.toNat_lt
    have hc := c.toNat_lt
    simp only [values, List.mem_cons] at h
    obtain h | h | h | h | h := h
    · omega
    · omega
    · omega
    · omega
    · exact ih h

theorem ofValues?_values (bytes : List UInt8) : ofValues? (values bytes) = some bytes := by
  induction bytes using values.induct with
  | case1 => rfl
  | case2 a =>
    have hzero : a.toNat % 4 * 16 % 16 = 0 := by omega
    have ha : a.toNat / 4 * 4 + a.toNat % 4 * 16 / 16 = a.toNat := by omega
    simp only [values, ofValues?, hzero, ha, if_true, UInt8.ofNat_toNat]
  | case3 a b =>
    have hb' := b.toNat_lt
    have hzero : b.toNat % 16 * 4 % 4 = 0 := by omega
    have ha : a.toNat / 4 * 4 + (a.toNat % 4 * 16 + b.toNat / 16) / 16 = a.toNat := by omega
    have hb : (a.toNat % 4 * 16 + b.toNat / 16) % 16 * 16 + b.toNat % 16 * 4 / 4 = b.toNat := by omega
    simp only [values, ofValues?, hzero, ha, hb, if_true, UInt8.ofNat_toNat]
  | case4 a b c rest ih =>
    have hb' := b.toNat_lt
    have hc' := c.toNat_lt
    have ha : a.toNat / 4 * 4 + (a.toNat % 4 * 16 + b.toNat / 16) / 16 = a.toNat := by omega
    have hb : (a.toNat % 4 * 16 + b.toNat / 16) % 16 * 16 + (b.toNat % 16 * 4 + c.toNat / 64) / 4 =
        b.toNat := by omega
    have hc : (b.toNat % 16 * 4 + c.toNat / 64) % 4 * 64 + c.toNat % 64 = c.toNat := by omega
    simp only [values, ofValues?, ih, ha, hb, hc, Option.map_some, UInt8.ofNat_toNat]

/-- Bytes are read back from the text that spells them. -/
theorem decode?_encode (bytes : List UInt8) : decode? (encode bytes) = some bytes := by
  have hvalues : (values bytes).map (· % 64) = values bytes := by
    conv_rhs => rw [← List.map_id (values bytes)]
    exact List.map_congr_left fun n hn => Nat.mod_eq_of_lt (lt_of_mem_values hn)
  rw [decode?, encode_eq_map, mapM_value?_char, hvalues]
  exact ofValues?_values bytes

end Base64

/-! ## UTF-8 -/

namespace Utf8

theorem char?_toNat {c : Char} {least : Nat} (h : least ≤ c.toNat) : char? c.toNat least = some c := by
  have hvalid : c.toNat.isValidChar := c.valid
  rw [char?, if_pos ⟨h, hvalid⟩, Char.ofNat_toNat]

theorem toNat_ofNat {n : Nat} (h : n < 256) : (UInt8.ofNat n).toNat = n := by
  simp; omega

theorem step_start (b : UInt8) : step .start b = first b := rfl

/-- The first byte of a character tells how many are to come. -/
theorem first_ofNat {n : Nat} (h : n < 256) :
    first (UInt8.ofNat n) =
      if n < 0x80 then ([some (Char.ofNat n)], .start)
      else if 0xC2 ≤ n ∧ n ≤ 0xDF then ([], ⟨1, n - 0xC0, 0x80⟩)
      else if 0xE0 ≤ n ∧ n ≤ 0xEF then ([], ⟨2, n - 0xE0, 0x800⟩)
      else if 0xF0 ≤ n ∧ n ≤ 0xF4 then ([], ⟨3, n - 0xF0, 0x10000⟩)
      else ([none], .start) := by
  simp only [first, UInt8.lt_iff_toNat_lt, UInt8.le_iff_toNat_le, toNat_ofNat h, Bool.and_eq_true,
    decide_eq_true_eq]
  rfl

/-- A byte in the middle of a character adds six bits. -/
theorem step_ofNat {missing least : Nat} (code : Nat) :
    step ⟨missing + 1, code / 64, least⟩ (UInt8.ofNat (code % 64 + 128)) =
      if missing = 0 then ([char? code least], .start) else ([], ⟨missing, code, least⟩) := by
  have hn : (UInt8.ofNat (code % 64 + 128)).toNat = code % 64 + 128 := toNat_ofNat (by omega)
  have hbetween :
      (0x80 ≤ UInt8.ofNat (code % 64 + 128) && UInt8.ofNat (code % 64 + 128) ≤ 0xBF) = true := by
    simp only [UInt8.le_iff_toNat_le, hn, Bool.and_eq_true, decide_eq_true_eq]
    exact ⟨Nat.le_add_left _ _, (by omega : code % 64 + 128 ≤ 191)⟩
  simp only [step, hbetween, if_true, hn, Nat.add_sub_cancel, Nat.div_add_mod']

theorem step_middle {missing least : Nat} (code : Nat) :
    step ⟨missing + 2, code / 64, least⟩ (UInt8.ofNat (code % 64 + 128)) =
      ([], ⟨missing + 1, code, least⟩) := by
  rw [step_ofNat, if_neg (Nat.succ_ne_zero missing)]

theorem step_last {c : Char} {least : Nat} (h : least ≤ c.toNat) :
    step ⟨1, c.toNat / 64, least⟩ (UInt8.ofNat (c.toNat % 64 + 128)) = ([some c], .start) := by
  rw [step_ofNat, if_pos rfl, char?_toNat h]

theorem piecesFrom_cons {p q : Pending} {b : UInt8} {bs : List UInt8} {out : List (Option Char)}
    (h : step p b = (out, q)) : piecesFrom p (b :: bs) = out ++ piecesFrom q bs := by
  simp only [piecesFrom, h]

/-- The bytes of a character are read as this character. -/
theorem piecesFrom_utf8EncodeChar (c : Char) (bytes : List UInt8) :
    piecesFrom .start (String.utf8EncodeChar c ++ bytes) = some c :: piecesFrom .start bytes := by
  have hlt : c.toNat < 0x110000 := by
    have hvalid : c.toNat.isValidChar := c.valid
    rcases hvalid with h | h <;> omega
  have hc : c.val.toNat = c.toNat := rfl
  have hdiv : c.toNat / 4096 = c.toNat / 64 / 64 := by omega
  -- the cases are the lengths of a character in bytes
  by_cases h₁ : c.toNat ≤ 0x7F
  · have hfirst : step .start (UInt8.ofNat c.toNat) = ([some c], .start) := by
      rw [step_start, first_ofNat (by omega), if_pos (by omega), Char.ofNat_toNat]
    simp only [String.utf8EncodeChar, hc, if_pos h₁, List.cons_append, List.nil_append,
      piecesFrom_cons hfirst]
  by_cases h₂ : c.toNat ≤ 0x7FF
  · have hcode : c.toNat / 64 % 32 + 192 - 0xC0 = c.toNat / 64 := by omega
    have hfirst : step .start (UInt8.ofNat (c.toNat / 64 % 32 + 192)) =
        ([], ⟨1, c.toNat / 64, 0x80⟩) := by
      rw [step_start, first_ofNat (by omega), if_neg (by omega), if_pos (by omega), hcode]
    have hleast : 0x80 ≤ c.toNat := by omega
    simp only [String.utf8EncodeChar, hc, if_neg h₁, if_pos h₂, List.cons_append, List.nil_append,
      piecesFrom_cons hfirst, piecesFrom_cons (step_last hleast)]
  by_cases h₃ : c.toNat ≤ 0xFFFF
  · have hcode : c.toNat / 64 / 64 % 16 + 224 - 0xE0 = c.toNat / 64 / 64 := by omega
    have hfirst : step .start (UInt8.ofNat (c.toNat / 64 / 64 % 16 + 224)) =
        ([], ⟨2, c.toNat / 64 / 64, 0x800⟩) := by
      rw [step_start, first_ofNat (by omega), if_neg (by omega), if_neg (by omega),
        if_pos (by omega), hcode]
    have hleast : 0x800 ≤ c.toNat := by omega
    simp only [String.utf8EncodeChar, hc, hdiv, if_neg h₁, if_neg h₂, if_pos h₃, List.cons_append,
      List.nil_append, piecesFrom_cons hfirst, piecesFrom_cons (step_middle _),
      piecesFrom_cons (step_last hleast)]
  · have hcode : c.toNat / 262144 % 8 + 240 - 0xF0 = c.toNat / 64 / 64 / 64 := by omega
    have hfirst : step .start (UInt8.ofNat (c.toNat / 262144 % 8 + 240)) =
        ([], ⟨3, c.toNat / 64 / 64 / 64, 0x10000⟩) := by
      rw [step_start, first_ofNat (by omega), if_neg (by omega), if_neg (by omega),
        if_neg (by omega), if_pos (by omega), hcode]
    have hleast : 0x10000 ≤ c.toNat := by omega
    simp only [String.utf8EncodeChar, hc, hdiv, if_neg h₁, if_neg h₂, if_neg h₃, List.cons_append,
      List.nil_append, piecesFrom_cons hfirst, piecesFrom_cons (step_middle _),
      piecesFrom_cons (step_last hleast)]

/-- A text is read back from its bytes. -/
theorem pieces_encode (s : String) : pieces (encode s) = s.toList.map some := by
  have hbytes : encode s = s.toList.flatMap String.utf8EncodeChar := by
    rw [encode, String.toUTF8_eq_toByteArray, ← String.utf8Encode_toList, List.utf8Encode,
      List.toList_data_toByteArray]
  rw [pieces, hbytes]
  induction s.toList with
  | nil => rfl
  | cons c cs ih => rw [List.flatMap_cons, piecesFrom_utf8EncodeChar, ih, List.map_cons]

end Utf8

/-! ## Segments -/

namespace Token

/-- The value in a segment is read back. -/
theorem document?_segment {j : Json} (h : j.plain = true) :
    document? (segment j) = .ok ⟨j, false⟩ := by
  have htext : textOf (Utf8.encode j.render) = j.render.toList := by
    rw [textOf, Utf8.pieces_encode, List.flatMap_map]
    exact List.flatMap_singleton' j.render.toList
  have hdocument : Json.Document.ofChars j.render.toList = ⟨j, false⟩ := Json.ofString_render h
  simp only [document?, segment, Base64.decode?_encode, htext, hdocument]

end Token

end Guildhall
