-- SUMMARY: An issued token authenticates its user, and nobody else, until a minute after it has expired.
import Guildhall.Proofs.Credentials
import Guildhall.Proofs.Encodings
import Guildhall.Proofs.Responses
import Guildhall.Proofs.WireRecords

/-!
# Issued tokens

The claims of an issued token survive their segment, so validation sees what was issued: the
spelling of the user, when the token was issued and when it expires. What is left to decide is the
time. Since the lifetime counts as a signed number, a token can even be issued with an expiry before
the epoch; such a token is never valid, as if it had none.
-/

namespace Guildhall

/-- Whether a time is a signed number of 64 bits. -/
def Claims.InRange (time : Int) : Prop :=
  Int64.minValue.toInt ≤ time ∧ time ≤ Int64.maxValue.toInt

/-- Claims survive if their times are in range. -/
theorem Claims.codec_survives {c : Claims} (hissued : InRange c.issuedAt)
    (hexpires : InRange c.expiresAt) : Claims.codec.Survives c := by
  refine Json.Layout.codec_survives ?_ rfl
  exact ⟨Json.Codec.string_survives c.subject, by decide,
    Json.Codec.integer_survives hissued.1 hissued.2, by decide,
    Json.Codec.integer_survives hexpires.1 hexpires.2, by decide,
    Json.Codec.string_survives c.tokenType, by decide, trivial⟩

namespace Token

/-- When a token with a lifetime in seconds expires; the lifetime counts as a signed number. -/
def expiry (issuedAt : Int) (lifetime : UInt64) : Int := issuedAt + lifetime.toInt64.toInt

/-- What a token says that is issued to a user. -/
def issued (user : Id) (issuedAt : Int) (lifetime : UInt64) : Claims where
  subject := user.text
  issuedAt
  expiresAt := expiry issuedAt lifetime
  tokenType := accessType

section

variable {user : Id} {secret token : String} {issuedAt now : Int} {lifetime : UInt64} {c : Claims}

/-- A token that is issued is signed, and its times are within what claims can hold. -/
theorem issue_eq_some (h : issue user secret issuedAt lifetime.toNat = some token) :
    token = sign secret (issued user issuedAt lifetime) ∧ Claims.InRange issuedAt ∧
      Claims.InRange (expiry issuedAt lifetime) := by
  obtain ⟨e, he, rfl⟩ := Option.map_eq_some_iff.1 h
  have hsigned : Int.bmod lifetime.toNat UInt64.size = lifetime.toInt64.toInt :=
    (BitVec.toInt_eq_toNat_bmod lifetime.toBitVec).symm
  have hlongest : longestLifetime = 9223372036854775 := by decide
  simp only [expiry?, hsigned, hlongest, calendar, Option.ite_none_right_eq_some,
    Option.some.injEq] at he
  obtain ⟨⟨hlifetime, hfirst, hlast⟩, rfl⟩ := he
  simp only [Claims.InRange, expiry, Int64.toInt_minValue, Int64.toInt_maxValue]
  refine ⟨rfl, ?_, ?_⟩
  · omega
  · omega

/-- The checks on an issued token come down to its expiry. -/
theorem checkRegistered_write (now : Int) (c : Claims) :
    checkRegistered now (Claims.codec.write c) =
      if c.expiresAt < 0 then .error (.missingClaim "exp")
      else if c.expiresAt < now - leeway then .error .expired
      else .ok () := by
  have hwrite : Claims.codec.write c = Json.ofFields [("sub", .text c.subject),
      ("iat", .integer c.issuedAt), ("exp", .integer c.expiresAt),
      ("token_type", .text c.tokenType)] := rfl
  rw [hwrite]
  simp [checkRegistered, Json.ofFields, Json.Fields.ofList, registered, claimValues]

/-- The claims of a signed token are read as they were written, and their expiry is checked. -/
theorem validate_sign_of_survives (h : Claims.codec.Survives c) (secret : String) (now : Int) :
    validate (sign secret c) secret now =
      if c.expiresAt < 0 then .error (.missingClaim "exp")
      else if c.expiresAt < now - leeway then .error .expired
      else .ok c := by
  have hread : Claims.codec.readDocument ⟨Claims.codec.write c, false⟩ = .ok c := by
    simp [Json.Codec.readDocument, h.read_extends (.refl _), bind, Except.bind, pure, Except.pure]
  rw [validate_sign, claims, document?_segment h.plain_write]
  simp only [bind, Except.bind, hread, checkRegistered_write]
  by_cases hnegative : c.expiresAt < 0
  · simp only [if_pos hnegative]
  · by_cases hexpired : c.expiresAt < now - leeway
    · simp only [if_neg hnegative, if_pos hexpired]
    · simp only [if_neg hnegative, if_neg hexpired, pure, Except.pure]

end

end Token

/-! ## Requests with a token -/

section

variable {user : Id} {secret token : String} {now : Int} {r : Http.Request} {c : Claims}

/-- A request with a token that is not valid is from nobody. -/
theorem authenticate_of_invalid {why : TokenError}
    (hr : r.header? "authorization" = some ("Bearer " ++ Token.sign secret c))
    (h : Token.validate (Token.sign secret c) secret now = .error why) :
    authenticate secret now r = .error .invalidToken := by
  simp [authenticate, bearerToken?_sign hr, tokenUser, h]

/-- A guarded request whose sender is not known is answered with the reason. -/
theorem Service.respond_of_unknown {v : Service} {t : Moment} {s : Store} {action : Action}
    {why : Refusal} (hs : r.Selects action) (h : authenticate v.secret t.now r = .error why) :
    v.respond t r s = (sent r (response (.error (.refused why))), s) := by
  obtain ⟨endpoint, spelled, hf, ha⟩ := hs
  have henter : v.enter t.now r endpoint spelled action s = .error (.refused why) := by
    simp [enter, h, refusing, Except.mapError, bind, Except.bind]
  rw [respond_of_action hf ha]
  simp only [act, henter]

end

/-! ## An example -/

namespace Example

/-- The token that user 7 gets at second 1000 for an hour, or for a lifetime before the epoch. -/
def pass (lifetime : UInt64) : String := Token.sign "secret" (Token.issued 7 1000 lifetime)

/-- User 7 asks with this token for their permissions in server 1. -/
def passing (lifetime : UInt64) : Http.Request :=
  { request "GET" ["servers", (1 : Id).text, "permissions", "me"] with
    headers := [("authorization", "Bearer " ++ pass lifetime)] }

end Example

namespace Token

/-- An issued token authenticates exactly its user. As long as it has not been expired for more than a
minute it is valid, it says what was issued, and requests with it are from its user and from nobody
else. After that it is expired, and if it expires before the epoch, it counts as a token without an
expiry; then all guarded requests with it are answered with `INVALID_TOKEN` and change nothing. -/
theorem issued_authenticates {user : Id} {secret token : String} {issuedAt : Int} {lifetime : UInt64}
    (h : issue user secret issuedAt lifetime.toNat = some token) (now : Int) :
    (0 ≤ expiry issuedAt lifetime → now - 60 ≤ expiry issuedAt lifetime →
      validate token secret now = .ok (issued user issuedAt lifetime) ∧
      (issued user issuedAt lifetime).user? = some user ∧
      ∀ r : Http.Request, r.header? "authorization" = some ("Bearer " ++ token) →
        ∀ sender, authenticate secret now r = .ok sender ↔ sender = user) ∧
    (0 ≤ expiry issuedAt lifetime → expiry issuedAt lifetime < now - 60 →
      validate token secret now = .error .expired) ∧
    (expiry issuedAt lifetime < 0 → validate token secret now = .error (.missingClaim "exp")) ∧
    (expiry issuedAt lifetime < 0 ∨ expiry issuedAt lifetime < now - 60 →
      ∀ (v : Service) (t : Moment) (r : Http.Request) (action : Action) (s : Store),
        v.secret = secret → t.now = now → r.Selects action →
        r.header? "authorization" = some ("Bearer " ++ token) →
        (v.respond t r s).1.status = 401 ∧
        (r.method ≠ "HEAD" → (v.respond t r s).1.Refuses 401 "INVALID_TOKEN") ∧
        (v.respond t r s).2 = s) := by
  obtain ⟨rfl, hissued, hexpires⟩ := issue_eq_some h
  have hvalidate := validate_sign_of_survives (c := issued user issuedAt lifetime)
    (Claims.codec_survives hissued hexpires) secret now
  have hexp : (issued user issuedAt lifetime).expiresAt = expiry issuedAt lifetime := rfl
  have huser : (issued user issuedAt lifetime).user? = some user := Id.ofString?_text user
  rw [hexp, show leeway = 60 from rfl] at hvalidate
  refine ⟨fun hpositive hlive => ?_, fun hpositive hexpired => ?_, fun hnegative => ?_, ?_⟩
  · have hvalid : validate (sign secret (issued user issuedAt lifetime)) secret now =
        .ok (issued user issuedAt lifetime) := by
      rw [hvalidate, if_neg (by omega), if_neg (by omega)]
    refine ⟨hvalid, huser, fun r hr sender => ?_⟩
    have hauth : authenticate secret now r = .ok user :=
      authenticate_sign hr (by rw [← validate_sign, hvalid]) rfl huser
    rw [hauth, Except.ok.injEq, eq_comm]
  · rw [hvalidate, if_neg (by omega), if_pos hexpired]
  · rw [hvalidate, if_pos hnegative]
  · rintro hinvalid v t r action s rfl rfl hs hr
    obtain ⟨why, hwhy⟩ : ∃ why, validate (sign v.secret (issued user issuedAt lifetime)) v.secret
        t.now = .error why := by
      rw [hvalidate]
      split
      · exact ⟨_, rfl⟩
      · rename_i hpositive
        exact ⟨_, if_pos (hinvalid.resolve_left hpositive)⟩
    have hrespond := Service.respond_of_unknown (s := s) hs (authenticate_of_invalid hr hwhy)
    rw [hrespond, Service.status_sent]
    refine ⟨rfl, fun hhead => ?_, rfl⟩
    exact (Service.refuses_sent_error hhead).2 ⟨_, rfl, rfl, rfl⟩

theorem issued_authenticates_pass :
    authenticate "secret" 4660 (Example.passing 3600) = .ok 7 ∧
      (Service.respond ⟨"secret", .standard⟩ ⟨4661, 0, 40⟩ (Example.passing 3600) ∅).1.Refuses 401
        "INVALID_TOKEN" ∧
      validate (Example.pass (0 - 2000)) "secret" 0 = .error (.missingClaim "exp") := by
  have hissue : ∀ lifetime, expiry? 1000 lifetime.toNat = some (expiry 1000 lifetime) →
      issue 7 "secret" 1000 lifetime.toNat = some (Example.pass lifetime) := by
    intro lifetime hexpiry
    rw [issue, hexpiry]
    rfl
  have hhour := hissue 3600 (by decide)
  have hbefore := hissue (0 - 2000) (by decide)
  have hheader : (Example.passing 3600).header? "authorization" =
      some ("Bearer " ++ Example.pass 3600) := by
    simp [Example.passing, Http.Request.header?]
  have hselects : (Example.passing 3600).Selects .showPermissions := by
    refine ⟨.serverPermissions, [("server_id", (1 : Id).text)], ?_, rfl⟩
    decide +kernel
  obtain ⟨hlive, -, -, -⟩ := issued_authenticates hhour 4660
  obtain ⟨-, -, -, hexpired⟩ := issued_authenticates hhour 4661
  obtain ⟨-, -, hnegative, -⟩ := issued_authenticates hbefore 0
  refine ⟨?_, ?_, hnegative (by decide)⟩
  · exact ((hlive (by decide) (by decide)).2.2 _ hheader 7).2 rfl
  · have hrefused := hexpired (.inr (by decide)) ⟨"secret", .standard⟩ ⟨4661, 0, 40⟩ _ _ ∅ rfl rfl
      hselects hheader
    exact hrefused.2.1 (by decide)

end Token

end Guildhall
