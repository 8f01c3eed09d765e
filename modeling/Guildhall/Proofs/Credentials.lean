-- SUMMARY: Tokens signed under the secret of the service authenticate the users they name.
import Guildhall.Service.Gate

/-!
# Credentials

A signed token comes apart again where it was put together, since no segment holds a dot, and
its signature is the one that is looked for. `Token.validate_sign` therefore leaves only the
claims to be checked, and `authenticate_sign` says whom a request with such a token is from.
-/

namespace Guildhall

/-- Outcomes can be compared. -/
instance decidableEqExcept {ε α : Type} [DecidableEq ε] [DecidableEq α] : DecidableEq (Except ε α)
  | .ok a, .ok b => decidable_of_iff (a = b) (by simp)
  | .error d, .error e => decidable_of_iff (d = e) (by simp)
  | .ok _, .error _ => .isFalse (by simp)
  | .error _, .ok _ => .isFalse (by simp)

/-! ## Segments -/

theorem Base64.char_mem_alphabet (n : Nat) : char n ∈ alphabet := by
  have hlt : n % 64 < alphabet.length := by
    have hlen : alphabet.length = 64 := by decide +kernel
    omega
  simp [char, List.getD_eq_getElem?_getD, List.getElem?_eq_getElem hlt]

theorem Base64.mem_alphabet_of_mem_encode {c : Char} {bytes : List UInt8} (h : c ∈ encode bytes) :
    c ∈ alphabet := by
  induction bytes using encode.induct with
  | case1 => simp [encode] at h
  | case2 a =>
    simp only [encode, List.mem_cons, List.not_mem_nil, or_false] at h
    obtain rfl | rfl := h
    · exact char_mem_alphabet _
    · exact char_mem_alphabet _
  | case3 a b =>
    simp only [encode, List.mem_cons, List.not_mem_nil, or_false] at h
    obtain rfl | rfl | rfl := h
    · exact char_mem_alphabet _
    · exact char_mem_alphabet _
    · exact char_mem_alphabet _
  | case4 a b c rest ih =>
    simp only [encode, List.mem_cons] at h
    obtain rfl | rfl | rfl | rfl | h := h
    · exact char_mem_alphabet _
    · exact char_mem_alphabet _
    · exact char_mem_alphabet _
    · exact char_mem_alphabet _
    · exact ih h

namespace Token

theorem dot_not_mem_encode (bytes : List UInt8) : '.' ∉ Base64.encode bytes := by
  intro h
  have hdot : '.' ∉ Base64.alphabet := by decide +kernel
  exact hdot (Base64.mem_alphabet_of_mem_encode h)

/-- A text is cut at its last dot. -/
theorem splitLast?_append {a b : List Char} (h : '.' ∉ b) :
    splitLast? (a ++ '.' :: b) = some (a, b) := by
  have htail : ((a ++ '.' :: b).reverse.takeWhile (· != '.')).reverse = b := by
    have hrev : (a ++ '.' :: b).reverse = b.reverse ++ '.' :: a.reverse := by simp
    have hb : ∀ c ∈ b.reverse, (c != '.') = true := by
      intro c hc
      have hne : c ≠ '.' := fun hdot => h (hdot ▸ List.mem_reverse.1 hc)
      simpa using hne
    rw [hrev, List.takeWhile_append_of_pos hb]
    simp
  have hlen : (a ++ '.' :: b).length - b.length - 1 = a.length := by
    simp only [List.length_append, List.length_cons]
    omega
  have hcut : b.length < (a ++ '.' :: b).length := by
    simp only [List.length_append, List.length_cons]
    omega
  simp only [splitLast?, htail, hlen, if_pos hcut, List.take_left']

/-! ## Signed tokens -/

private theorem algorithm_header : algorithm (segment header) = .ok .hs256 := by decide +kernel

/-- Of a signed token only the claims are left to be checked. -/
theorem validate_sign (secret : String) (now : Int) (c : Claims) :
    validate (sign secret c) secret now = claims now (segment (Claims.codec.write c)) := by
  have houter : splitLast? (sign secret c).toList =
      some (segment header ++ '.' :: segment (Claims.codec.write c),
        signature secret (segment header ++ '.' :: segment (Claims.codec.write c))) := by
    simp only [sign, String.toList_ofList]
    exact splitLast?_append (dot_not_mem_encode _)
  have hinner : splitLast? (segment header ++ '.' :: segment (Claims.codec.write c)) =
      some (segment header, segment (Claims.codec.write c)) :=
    splitLast?_append (dot_not_mem_encode _)
  simp only [validate, houter, hinner, algorithm_header]
  simp [bind, Except.bind]

end Token

/-- A signed token is spelled in characters that a header can carry. -/
private theorem isPlainText_sign (secret : String) (c : Claims) :
    isPlainText ("Bearer " ++ Token.sign secret c) = true := by
  have hsegment : ∀ bytes, ∀ x ∈ Base64.encode bytes,
      ((0x20 ≤ x.toNat && x.toNat < 0x7F) || x == '\t') = true := by
    intro bytes x hx
    have halphabet : Base64.alphabet.all
        (fun x => (0x20 ≤ x.toNat && x.toNat < 0x7F) || x == '\t') = true := by decide +kernel
    exact List.all_eq_true.1 halphabet x (Base64.mem_alphabet_of_mem_encode hx)
  simp only [isPlainText, Token.sign, String.toList_append, String.toList_ofList, List.all_append,
    List.all_cons, Bool.and_eq_true]
  refine ⟨by decide, ⟨?_, by decide, ?_⟩, by decide, ?_⟩
  · exact List.all_eq_true.2 (hsegment _)
  · exact List.all_eq_true.2 (hsegment _)
  · exact List.all_eq_true.2 (hsegment _)

/-- A signed token is found in the header that carries it. -/
theorem bearerToken?_sign {secret : String} {r : Http.Request} {c : Claims}
    (hr : r.header? "authorization" = some ("Bearer " ++ Token.sign secret c)) :
    bearerToken? r = some (Token.sign secret c) := by
  have hpre : bearer.isPrefixOf ("Bearer " ++ Token.sign secret c).toList = true := by
    rw [String.toList_append]
    exact List.isPrefixOf_iff_prefix.2 (List.prefix_append _ _)
  have hdrop : ("Bearer " ++ Token.sign secret c).toList.drop bearer.length =
      (Token.sign secret c).toList := by
    rw [String.toList_append]
    exact List.drop_left' rfl
  simp only [bearerToken?, hr, isPlainText_sign, hpre, Bool.and_self, if_true, hdrop,
    String.ofList_toList]

/-- A request with a token that is signed under the secret is from the user the token names, if
its claims hold at that time. -/
theorem authenticate_sign {secret : String} {now : Int} {r : Http.Request} {c : Claims} {user : Id}
    (hr : r.header? "authorization" = some ("Bearer " ++ Token.sign secret c))
    (hc : Token.claims now (Token.segment (Claims.codec.write c)) = .ok c)
    (ht : c.tokenType = Token.accessType) (hu : c.user? = some user) :
    authenticate secret now r = .ok user := by
  simp [authenticate, bearerToken?_sign hr, tokenUser, Token.validate_sign, hc, ht, hu]

/-! ## An example -/

namespace Example

/-- Claims that hold for user 7. -/
def claims : Claims :=
  { subject := (7 : Id).text, issuedAt := 0, expiresAt := 9000000000,
    tokenType := Token.accessType }

/-- A request by user 7 without a body. -/
def request (method : String) (path : List String) : Http.Request :=
  { method, target := "/api/v1/" ++ "/".intercalate path,
    headers := [("authorization", "Bearer " ++ Token.sign "secret" claims)], body := "" }

/-- A request by user 7 with a JSON body. -/
def submission (method : String) (path : List String) (body : String) : Http.Request :=
  { request method path with
    headers := (request method path).headers ++ [("content-type", "application/json")], body }

private theorem authenticate_of_header {r : Http.Request}
    (hheader : r.header? "authorization" = some ("Bearer " ++ Token.sign "secret" claims)) :
    authenticate "secret" 1 r = .ok 7 := by
  have hclaims : Token.claims 1 (Token.segment (Claims.codec.write claims)) = .ok claims := by
    decide +kernel
  have huser : claims.user? = some 7 := by decide +kernel
  exact authenticate_sign hheader hclaims rfl huser

theorem authenticate_request (method : String) (path : List String) :
    authenticate "secret" 1 (request method path) = .ok 7 := by
  apply authenticate_of_header
  simp [request, Http.Request.header?]

theorem authenticate_submission (method : String) (path : List String) (body : String) :
    authenticate "secret" 1 (submission method path body) = .ok 7 := by
  apply authenticate_of_header
  simp [submission, request, Http.Request.header?]

end Example

end Guildhall
