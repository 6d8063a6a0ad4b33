import SlimStarter.Http.Cookie
import SlimStarter.Http.Privilege
import SlimStarter.Search

/-!
# Access tokens

`JwtHelper` over the JWT library, with its settings: `buildToken` signs the claims of an account for
a lifetime, and `verify` is what `claims` makes of a token that is not blank. `AppEnv.withJwt` is
the application with these for what it takes as parameters otherwise.

A token that `buildToken` has signed, raw or after `Bearer`, stands for its account exactly from the
instant it was built at until its lifetime is over, and only where the issuer and the identifier are
the ones it was built with and the secret verifies its signature (`token_round_trip`).
-/

namespace SlimStarter

/-- The claims of a parsed token. One that lacks any of the registered claims has none, for the
constraints refuse it. -/
structure Jwt.Plain where
  identifiedBy : Bytes
  issuedBy : Bytes
  permittedFor : List Bytes
  issuedAt : Int
  canOnlyBeUsedAfter : Int
  expiresAt : Int
  claims : AccessClaims
deriving DecidableEq, Repr

/-- `getToken` is the text of the signed token, by the key, `parse` what the parser reads and
`signedWith` the constraint on the signature; `none` is an exception. -/
structure Jwt where
  getToken : Bytes → Jwt.Plain → Option Bytes
  parse : Bytes → Option Jwt.Plain
  signedWith : Bytes → Bytes → Bool

/-- A signed token parses to its claims, its key verifies it, and its text has visible characters
only. -/
structure Jwt.Lawful (L : Jwt) : Prop where
  parse_getToken : ∀ key plain token, L.getToken key plain = some token → L.parse token = some plain
  signedWith_getToken : ∀ key plain token, L.getToken key plain = some token →
    L.signedWith key token = true
  visible : ∀ key plain token, L.getToken key plain = some token → token ≠ [] ∧ ∀ b ∈ token, 32 < b

/-- `StrictValidAt` without leeway. -/
def Jwt.Plain.strictValidAt (plain : Jwt.Plain) (now : Int) : Bool :=
  plain.issuedAt ≤ now && plain.canOnlyBeUsedAfter ≤ now && now < plain.expiresAt

/-- The library, `DateTimeImmutable::modify` and the settings, `none` where they are no string. -/
structure JwtEnv extends Jwt where
  modify : Bytes → Int → Option Int
  jwtSecret : Option Bytes
  appBaseUrl : Option Bytes
  jwtIdentifier : Option Bytes
  jwtTtl : Option Bytes
  jwtAccessTtl : Option Bytes

namespace JwtHelper

variable (J : JwtEnv)

def defaultTokenId : Bytes := ascii "4f1g23a12aa"
def defaultTtl : Bytes := ascii "+7 day"
def defaultAccessTtl : Bytes := ascii "+15 minute"
def minSecretLength : ℕ := 32

def secretKey : Except Failure Bytes :=
  match J.jwtSecret.filter (· ≠ []) with
  | none => .error (.runtime "JWT_SECRET is not configured.")
  | some secret =>
    if secret.length < minSecretLength then
      .error (.runtime s!"JWT_SECRET must be at least {minSecretLength} bytes for HS256.")
    else .ok secret

/-- The message of the exception that `secretKey` throws, if it does. -/
def secretError : Option String :=
  match secretKey J with
  | .error (.runtime message) => some message
  | _ => none

def issuer : Except Failure Bytes :=
  match J.appBaseUrl.filter (· ≠ []) with
  | none => .error (.runtime "APP_BASE_URL is not configured.")
  | some baseUrl => .ok baseUrl

def tokenId : Bytes := (J.jwtIdentifier.filter (· ≠ [])).getD defaultTokenId

def ttl : Bytes := (J.jwtTtl.filter (· ≠ [])).getD defaultTtl

def accessTtl : Bytes := (J.jwtAccessTtl.filter (· ≠ [])).getD defaultAccessTtl

def buildToken (claims : AccessClaims) (ttl : Option Bytes) (now : Int) : Except Failure Bytes := do
  let secret ← secretKey J
  let issuer ← issuer J
  match J.modify (ttl.getD (JwtHelper.ttl J)) now with
  | none => .error (.runtime "The lifetime could not be parsed.")
  | some expiresAt =>
    match J.getToken secret ⟨tokenId J, issuer, [issuer], now, now, expiresAt, claims⟩ with
    | none => .error (.runtime "The claims could not be encoded.")
    | some token => pure token

/-- The constraints that `claims` validates. -/
def validate (secret issuer token : Bytes) (plain : Jwt.Plain) (now : Int) : Bool :=
  plain.identifiedBy = tokenId J && plain.issuedBy = issuer && issuer ∈ plain.permittedFor
    && J.signedWith secret token && plain.strictValidAt now

/-- `claims` past its check for a blank token. The secret is read outside of the `try`, the issuer
inside. -/
def verify (token : Bytes) (now : Int) : Except Failure (Option AccessClaims) := do
  let secret ← secretKey J
  match J.parse token, issuer J with
  | some plain, .ok issuer =>
    pure (if validate J secret issuer token plain now then some plain.claims else none)
  | _, _ => pure none

end JwtHelper

/-- The application with the tokens of `JwtHelper`. A token that cannot be built stands for a
statement that fails: it is the empty text here, which is no token of anyone. -/
def AppEnv.withJwt (E : AppEnv) (J : JwtEnv) : AppEnv :=
  { E with
    verify := fun token now => (JwtHelper.verify J token now).toOption.join
    secretError := JwtHelper.secretError J
    auth := { E.auth with
      buildToken := fun claims now =>
        (JwtHelper.buildToken J claims (some (JwtHelper.accessTtl J)) now).toOption.getD [] } }

/-- The header presents the token, raw or after `Bearer` in any case and white space. -/
def Carries (header token : Bytes) : Prop :=
  trim header = token ∨ ∃ scheme gap, strtolower scheme = ascii "bearer" ∧ gap ≠ []
    ∧ (∀ b ∈ gap, JwtHelper.isSpace b = true) ∧ trim header = scheme ++ gap ++ token

namespace JwtHelper

variable {J : JwtEnv} {token : Bytes}

theorem not_isSpace_of_visible {b : UInt8} (h : 32 < b) : isSpace b = false :=
  forall_byte (P := fun b => 32 < b → isSpace b = false) (by decide +kernel) b h

theorem trim_eq_self_of_visible (h : ∀ b ∈ token, 32 < b) : trim token = token := by
  have hbyte : ∀ b ∈ token, ¬ isTrimByte b = true := fun b hb =>
    forall_byte (P := fun b => 32 < b → ¬ isTrimByte b = true) (by decide +kernel) b (h b hb)
  have hhead : token.dropWhile isTrimByte = token :=
    List.dropWhile_eq_self_iff.mpr fun hpos => hbyte _ (List.getElem_mem hpos)
  unfold trim
  rw [hhead]
  exact List.rdropWhile_eq_self_iff.mpr fun hne => hbyte _ (List.getLast_mem hne)

theorem takeWhile_gap {gap : Bytes} (hgap : ∀ b ∈ gap, isSpace b = true)
    (htoken : ∀ b ∈ token, 32 < b) : (gap ++ token).takeWhile isSpace = gap := by
  rw [List.takeWhile_append_of_pos hgap]
  cases token with
  | nil => simp
  | cons b token => simp [not_isSpace_of_visible (htoken b List.mem_cons_self)]

/-- A token is no `Bearer` header of its own. -/
theorem bearer_eq_none (htoken : ∀ b ∈ token, 32 < b) : bearer token = none := by
  have hgap : (token.drop 6).takeWhile isSpace = [] := by
    have h : ([] ++ token.drop 6).takeWhile isSpace = [] :=
      takeWhile_gap (by simp) fun b hb => htoken b (List.mem_of_mem_drop hb)
    simpa using h
  unfold bearer
  simp [hgap]

theorem bearer_append {scheme gap : Bytes} (hscheme : strtolower scheme = ascii "bearer")
    (hne : gap ≠ []) (hgap : ∀ b ∈ gap, isSpace b = true) (hsome : token ≠ [])
    (htoken : ∀ b ∈ token, 32 < b) : bearer (scheme ++ gap ++ token) = some token := by
  have hlength : scheme.length = 6 := by
    have h := congrArg List.length hscheme
    simpa [strtolower, ascii] using h
  have htake : (scheme ++ gap ++ token).take 6 = scheme := by
    rw [List.append_assoc, ← hlength, List.take_left]
  have hdrop : (scheme ++ gap ++ token).drop 6 = gap ++ token := by
    rw [List.append_assoc, ← hlength, List.drop_left]
  have hpos : 0 < gap.length := List.length_pos_iff.mpr hne
  have hpos' : 0 < token.length := List.length_pos_iff.mpr hsome
  have hmin : min gap.length ((gap ++ token).length - 1) = gap.length := by
    rw [List.length_append]
    omega
  have hline : (10 : UInt8) ∉ token := fun h => absurd (htoken 10 h) (by decide)
  unfold bearer
  simp only [htake, hdrop, takeWhile_gap hgap htoken, hscheme, hmin, List.drop_left]
  simp [hpos, hline]

/-- `Bearer`, white space and the token make a header that presents it. -/
theorem carries_bearer {scheme gap : Bytes} (hscheme : strtolower scheme = ascii "bearer")
    (hne : gap ≠ []) (hgap : ∀ b ∈ gap, isSpace b = true) (hsome : token ≠ [])
    (htoken : ∀ b ∈ token, 32 < b) : Carries (scheme ++ gap ++ token) token := by
  refine .inr ⟨scheme, gap, hscheme, hne, hgap, ?_⟩
  have hvisible : ∀ b : UInt8, 32 < b → ¬ isTrimByte b = true :=
    forall_byte (by decide +kernel)
  have hhead : (scheme ++ gap ++ token).dropWhile isTrimByte = scheme ++ gap ++ token := by
    cases scheme with
    | nil => cases hscheme
    | cons b scheme =>
      have hb : (if 65 ≤ b ∧ b ≤ 90 then b + 32 else b) = 98 := (List.cons_eq_cons.mp hscheme).1
      have htrim : isTrimByte b = false := forall_byte (P := fun b =>
        (if 65 ≤ b ∧ b ≤ 90 then b + 32 else b) = 98 → isTrimByte b = false)
        (by decide +kernel) b hb
      simp [htrim]
  unfold trim
  rw [hhead]
  refine List.rdropWhile_eq_self_iff.mpr fun hne' => ?_
  rw [List.getLast_append_of_ne_nil hne' hsome]
  exact hvisible _ (htoken _ (List.getLast_mem hsome))

theorem presented_eq {request : Request} (hsome : token ≠ []) (htoken : ∀ b ∈ token, 32 < b)
    (hheader : Carries request.authorization token) : presented request = token := by
  unfold presented
  rcases hheader with hraw | ⟨scheme, gap, hscheme, hne, hgap, hheader⟩
  · simp [hraw, bearer_eq_none htoken]
  · have hbearer := bearer_append hscheme hne hgap hsome htoken
    simp only [hheader, hbearer, Option.map_some, Option.getD_some]
    exact trim_eq_self_of_visible htoken

theorem authorization_ne_nil {request : Request} (hsome : token ≠ [])
    (hheader : Carries request.authorization token) : trim request.authorization ≠ [] := by
  rcases hheader with hraw | ⟨scheme, gap, -, -, -, hheader⟩
  · rw [hraw]
    exact hsome
  · rw [hheader]
    simp [hsome]

/-! ## What a signed token is good for -/

theorem buildToken_eq_ok {claims : AccessClaims} {ttl : Option Bytes} {now : Int}
    (h : buildToken J claims ttl now = .ok token) : ∃ secret baseUrl expiresAt,
      secretKey J = .ok secret ∧ issuer J = .ok baseUrl
        ∧ J.modify (ttl.getD (JwtHelper.ttl J)) now = some expiresAt
        ∧ J.getToken secret ⟨tokenId J, baseUrl, [baseUrl], now, now, expiresAt, claims⟩
          = some token := by
  unfold buildToken at h
  cases hsecret : secretKey J with
  | error e =>
    rw [hsecret] at h
    cases h
  | ok secret =>
    cases hissuer : issuer J with
    | error e =>
      rw [hsecret, hissuer] at h
      cases h
    | ok baseUrl =>
      simp only [hsecret, hissuer, bind, Except.bind] at h
      cases hmodify : J.modify (ttl.getD (JwtHelper.ttl J)) now with
      | none =>
        rw [hmodify] at h
        cases h
      | some expiresAt =>
        simp only [hmodify] at h
        cases htoken : J.getToken secret
            ⟨tokenId J, baseUrl, [baseUrl], now, now, expiresAt, claims⟩ with
        | none =>
          rw [htoken] at h
          cases h
        | some token' =>
          rw [htoken] at h
          exact ⟨secret, baseUrl, expiresAt, rfl, rfl, rfl, htoken.trans (by cases h; rfl)⟩

/-- The claims that come out of a token are those of its text, under the constraints. -/
theorem verify_eq_some {now : Int} {claims : AccessClaims} :
    (verify J token now).toOption.join = some claims ↔ ∃ secret baseUrl plain,
      secretKey J = .ok secret ∧ issuer J = .ok baseUrl ∧ J.parse token = some plain
        ∧ validate J secret baseUrl token plain now = true ∧ plain.claims = claims := by
  unfold verify
  cases secretKey J with
  | error e => simp [bind, Except.bind, Except.toOption]
  | ok secret =>
    cases J.parse token with
    | none => simp [bind, Except.bind, Except.toOption, pure, Except.pure]
    | some plain =>
      cases issuer J with
      | error e => simp [bind, Except.bind, Except.toOption, pure, Except.pure]
      | ok baseUrl => simp [bind, Except.bind, Except.toOption, pure, Except.pure]

/-- Where the secret is missing or short, no token verifies. -/
theorem verify_of_secretError (h : (secretError J).isSome = true) (now : Int) :
    (verify J token now).toOption.join = none := by
  unfold verify
  cases hsecret : secretKey J with
  | error e => simp [bind, Except.bind, Except.toOption]
  | ok secret => simp [secretError, hsecret] at h

/-- What a request is taken for that presents this token. -/
theorem requestUser_withJwt (E : AppEnv) {request : Request} (hsome : token ≠ [])
    (htoken : ∀ b ∈ token, 32 < b) (hheader : Carries request.authorization token) (now : Int)
    (user : RequestUser) : requestUser (E.withJwt J) request now = some user ↔
      ∃ claims, (verify J token now).toOption.join = some claims ∧ claims.id ≠ 0
        ∧ userFromClaims claims = user := by
  unfold requestUser JwtHelper.claims
  rw [if_neg (authorization_ne_nil hsome hheader), presented_eq hsome htoken hheader,
    trim_eq_self_of_visible htoken]
  have hclaims : (if token = [] ∨ (E.withJwt J).secretError.isSome = true then none
      else (E.withJwt J).verify token now) = (verify J token now).toOption.join := by
    split_ifs with hnone
    · exact (verify_of_secretError (hnone.resolve_left hsome) now).symm
    · rfl
  rw [hclaims]
  simp [Option.map_eq_some_iff, Option.filter_eq_some_iff, and_assoc]

end JwtHelper

open JwtHelper in
/-- A token that was built at an instant `issued` is good, under any settings of the same library,
for its account from then on until its lifetime is over, where the settings have the issuer and the
identifier it was built with and a secret that verifies it, such as its own. -/
theorem token_round_trip (E : AppEnv) {J J' : JwtEnv} (hlawful : J.Lawful)
    (hlibrary : J'.toJwt = J.toJwt) {claims : AccessClaims} {ttl : Option Bytes} {issued : Int}
    {token : Bytes} (hbuild : buildToken J claims ttl issued = .ok token) {request : Request}
    (hheader : Carries request.authorization token) (now : Int) (user : RequestUser) :
    requestUser (E.withJwt J') request now = some user ↔
      claims.id ≠ 0 ∧ user = userFromClaims claims
        ∧ issuer J' = issuer J ∧ tokenId J' = tokenId J
        ∧ (∃ secret, secretKey J' = .ok secret
          ∧ (secretKey J = .ok secret ∨ J.signedWith secret token = true))
        ∧ issued ≤ now
        ∧ ∃ expiresAt, J.modify (ttl.getD (JwtHelper.ttl J)) issued = some expiresAt
          ∧ now < expiresAt := by
  obtain ⟨secret, baseUrl, expiresAt, hsecret, hissuer, hmodify, hsigned⟩ := buildToken_eq_ok hbuild
  obtain ⟨hsome, hvisible⟩ := hlawful.visible _ _ _ hsigned
  have hparse : J'.parse token = _ := hlibrary ▸ hlawful.parse_getToken _ _ _ hsigned
  have hverifies : ∀ secret', J'.signedWith secret' token = J.signedWith secret' token := by
    intro secret'
    rw [hlibrary]
  rw [requestUser_withJwt E hsome hvisible hheader]
  simp only [verify_eq_some, hparse, hissuer, hsecret, hmodify]
  constructor
  · rintro ⟨claims', ⟨secret', baseUrl', plain, hsecret', hissuer', hplain, hvalid, rfl⟩, hid, rfl⟩
    obtain rfl := Option.some.inj hplain
    simp only [validate, Jwt.Plain.strictValidAt, Bool.and_eq_true, decide_eq_true_eq,
      hverifies] at hvalid
    obtain ⟨⟨⟨⟨hidentifier, rfl⟩, -⟩, hkey⟩, ⟨hissued, -⟩, hexpires⟩ := hvalid
    exact ⟨hid, rfl, hissuer', hidentifier.symm, ⟨secret', hsecret', .inr hkey⟩, hissued, expiresAt,
      rfl, hexpires⟩
  · rintro ⟨hid, rfl, hissuer', hidentifier, ⟨secret', hsecret', hkey⟩, hissued, expiresAt',
      hexpires', hexpires⟩
    obtain rfl := Option.some.inj hexpires'
    have hkey : J.signedWith secret' token = true := by
      refine hkey.elim (fun hsame => ?_) id
      obtain rfl := Except.ok.inj hsame
      exact hlawful.signedWith_getToken _ _ _ hsigned
    refine ⟨claims, ⟨secret', baseUrl, _, hsecret', hissuer', rfl, ?_, rfl⟩, hid, rfl⟩
    simp [validate, Jwt.Plain.strictValidAt, hidentifier, hverifies, hkey, hissued, hexpires]

/-! ## A sample library -/

namespace JwtSample

open RefreshCookie (rawurlencode rawurldecode)

/-- The integer that a text denotes. -/
def integer (s : Bytes) : Int :=
  if s.head? = some 45 then -digitsValue (s.drop 1) else digitsValue s

def fields (key : Bytes) (plain : Jwt.Plain) : List Bytes :=
  [key, plain.identifiedBy, plain.issuedBy, intString plain.issuedAt,
    intString plain.canOnlyBeUsedAfter, intString plain.expiresAt, natString plain.claims.id,
    plain.claims.email, plain.claims.name, plain.claims.type] ++ plain.permittedFor

def ofFields : List Bytes → Option Jwt.Plain
  | _ :: identifiedBy :: issuedBy :: issuedAt :: canOnlyBeUsedAfter :: expiresAt :: id :: email ::
      name :: type :: permittedFor =>
    some ⟨identifiedBy, issuedBy, permittedFor, integer issuedAt, integer canOnlyBeUsedAfter,
      integer expiresAt, ⟨digitsValue id, email, name, type⟩⟩
  | _ => none

/-- A token has its key and its claims, encoded, and `&` between them. -/
def library : Jwt where
  getToken key plain := some (implode [38] ((fields key plain).map rawurlencode))
  parse token := ofFields ((Split.split [38] token).map rawurldecode)
  signedWith key token := (Split.split [38] token).head? = some (rawurlencode key)

theorem integer_intString (n : Int) : integer (intString n) = n := by
  have hdigits : ∀ m : ℕ, (natString m).head? ≠ some 45 := by
    intro m hm
    have hdigit := isDigit_natString (List.mem_of_mem_head? hm)
    exact absurd hdigit (by decide)
  cases n with
  | ofNat n => simp [integer, intString, hdigits n]
  | negSucc n =>
    simp only [integer, intString, List.head?_cons, if_true, List.drop_succ_cons, List.drop_zero,
      digitsValue_natString]
    omega

theorem visible_rawurlencode (s : Bytes) : ∀ b ∈ rawurlencode s, 32 < b ∧ b ≠ 38 := by
  intro b hb
  obtain ⟨b', -, hb'⟩ := List.mem_flatMap.mp hb
  have hall : ∀ b', (RefreshCookie.encodeByte b').all (fun b => 32 < b && b != 38) = true :=
    forall_byte (by decide +kernel)
  have hvisible := List.all_eq_true.mp (hall b') b
    (by simpa [RefreshCookie.encodeByte, rawurlencode] using hb')
  simpa using hvisible

theorem split_token {key token : Bytes} {plain : Jwt.Plain}
    (h : library.getToken key plain = some token) :
    Split.split [38] token = (fields key plain).map rawurlencode := by
  obtain rfl := Option.some.inj h
  refine @Split.split_intercalate UInt8 _ 38 [] _ (fun part hpart hmem => ?_) (by simp [fields])
  obtain ⟨field, -, rfl⟩ := List.mem_map.mp hpart
  exact (visible_rawurlencode field 38 hmem).2 rfl

theorem library_lawful : library.Lawful where
  parse_getToken := by
    intro key plain token h
    have hfields : ((fields key plain).map rawurlencode).map rawurldecode = fields key plain := by
      rw [List.map_map]
      exact (List.map_congr_left fun s _ => RefreshCookie.rawurldecode_rawurlencode s).trans
        (List.map_id _)
    show ofFields ((Split.split [38] token).map rawurldecode) = some plain
    rw [split_token h, hfields]
    simp [fields, ofFields, integer_intString]
  signedWith_getToken := by
    intro key plain token h
    show decide ((Split.split [38] token).head? = some (rawurlencode key)) = true
    rw [split_token h]
    exact decide_eq_true rfl
  visible := by
    intro key plain token h
    obtain rfl := Option.some.inj h
    have hmem : ∀ b ∈ implode [38] ((fields key plain).map rawurlencode), 32 < b := by
      intro b hb
      rcases BaseModel.mem_implode hb with hb | ⟨part, hpart, hb⟩
      · obtain rfl := List.mem_singleton.mp hb
        decide
      · obtain ⟨field, -, rfl⟩ := List.mem_map.mp hpart
        exact (visible_rawurlencode field b hb).1
    refine ⟨fun hempty => ?_, hmem⟩
    have hsplit := split_token h
    rw [hempty] at hsplit
    simpa [fields, Split.split, Split.splitFrom] using congrArg List.length hsplit

/-- The default settings, with lifetimes of as many seconds as the text says. -/
def env : JwtEnv :=
  { library with
    modify := fun modifier now =>
      if modifier = JwtHelper.defaultAccessTtl then some (now + 900)
      else if modifier = JwtHelper.defaultTtl then some (now + 604800)
      else none
    jwtSecret := some (ascii "0123456789abcdef0123456789abcdef")
    appBaseUrl := some (ascii "http://localhost:8080")
    jwtIdentifier := none
    jwtTtl := none
    jwtAccessTtl := none }

end JwtSample

open JwtSample JwtHelper in
/-- A token of a quarter of an hour is good in its last second, and not after it. -/
theorem token_round_trip_sample : ∃ token, ∃ request : Request,
    buildToken env AppSample.claims (some (accessTtl env)) 1000 = .ok token
      ∧ request.authorization = ascii "bearer  " ++ token
      ∧ requestUser (AppSample.env.withJwt env) request 1899 =
        some (userFromClaims AppSample.claims)
      ∧ requestUser (AppSample.env.withJwt env) request 1900 ≠
        some (userFromClaims AppSample.claims) := by
  obtain ⟨token, hbuild⟩ : ∃ token,
      buildToken env AppSample.claims (some (accessTtl env)) 1000 = .ok token := ⟨_, rfl⟩
  obtain ⟨_, _, _, -, -, -, hsigned⟩ := buildToken_eq_ok hbuild
  obtain ⟨hsome, hvisible⟩ := library_lawful.visible _ _ _ hsigned
  obtain ⟨request, hrequest⟩ : ∃ request : Request,
      request.authorization = ascii "bearer  " ++ token := ⟨AppSample.post "/customer" _ [], rfl⟩
  have hheader : Carries (ascii "bearer" ++ ascii "  " ++ token) token :=
    carries_bearer (by decide) (by decide) (List.all_eq_true.mp rfl) hsome hvisible
  have hgood := fun now => token_round_trip AppSample.env library_lawful rfl hbuild
    (hrequest ▸ hheader) now (userFromClaims AppSample.claims)
  refine ⟨token, request, hbuild, hrequest, (hgood 1899).mpr ?_, fun h => ?_⟩
  · exact ⟨by decide, rfl, rfl, rfl, ⟨_, rfl, .inl rfl⟩, by decide, 1900, rfl, by decide⟩
  · obtain ⟨-, -, -, -, -, -, expiresAt, hmodify, hexpires⟩ := (hgood 1900).mp h
    obtain rfl : 1900 = expiresAt := Option.some.inj hmodify
    exact absurd hexpires (by decide)

end SlimStarter
