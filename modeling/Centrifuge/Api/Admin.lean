import Centrifuge.Api.Handler

/-!
# `AdminHandler`: the admin endpoints

`NewAdminHandler` builds a mux: `/admin/auth` hands out a token for the admin password,
`/admin/api` is an `APIHandler` built with `Insecure: true` behind
`adminSecureTokenAuth`, and `/` serves the web application when one is configured. The
token is a `securecookie` value under the admin secret, checked by
`checkSecureAdminToken`.

The `securecookie` package is not in the source: its `Encode` and `Decode` are the
parameter `SecureCookie`. The payoff is

> `api_auth_guards`: with `Insecure` off, `APIHandler.ServeHTTP` answers 401 and handles
> no command unless a key is set and `Authorization` is `apikey <key>` as two fields;
> and a request reaches the admin mux's inner `APIHandler`, which checks nothing, only
> at `/admin/api`, with a secret set and `Authorization` two fields, `token` and a token
> `checkSecureAdminToken` accepts.

Mirroring notes vs the Go source:
- The mux matches `/admin/auth` and `/admin/api` exactly and sends every other path to
  `/`; the redirect `http.ServeMux` answers for a path that is not clean reaches no
  handler and is left out.
- The JSON body of `authHandler`'s answer is its token.
-/

namespace Centrifuge.Api

/-- The fields of `AdminConfig` the admin handlers read. -/
structure AdminConfig where
  webPath : String
  /-- `c.WebFS != nil`. -/
  webFS : Bool
  password : String
  secret : String
  insecure : Bool
deriving DecidableEq, Repr

/-- `securecookie.New([]byte(secret), nil)`'s `Encode(name, value)` and `Decode(name,
value, &dst)`: the value, or `none` on an error. -/
structure SecureCookie where
  encode : String → String → String → Option String
  decode : String → String → String → Option String

/-- `securecookie` reads back what it wrote: `Decode` of an `Encode`d value, under the same
secret and name, is that value. -/
def SecureCookie.RoundTrips (sc : SecureCookie) : Prop :=
  ∀ secret name value token, sc.encode secret name value = some token →
    sc.decode secret name token = some value

/-- `secureAdminTokenKey`. -/
def secureAdminTokenKey : String := "token"

/-- `secureAdminTokenValue`. -/
def secureAdminTokenValue : String := "authorized"

/-- `generateSecureAdminToken(secret)`. -/
def generateSecureAdminToken (sc : SecureCookie) (secret : String) : Option String :=
  sc.encode secret secureAdminTokenKey secureAdminTokenValue

/-- `checkSecureAdminToken(secret, token)`. -/
def checkSecureAdminToken (sc : SecureCookie) (secret token : String) : Bool :=
  match sc.decode secret secureAdminTokenKey token with
  | none => false
  | some val => val = secureAdminTokenValue

/-- What a request to the admin mux ends in. -/
inductive AdminRun
  /-- The inner `APIHandler` served it. -/
  | api (run : ApiRun)
  /-- An admin handler answered it. -/
  | response (r : Response)
  /-- `authHandler` answered `{"token": token}`. -/
  | token (token : String)
  /-- The web application's file server served it. -/
  | web
  /-- No pattern matched: `404`. -/
  | notFound

variable {Req Res : Type} (env : ApiEnv Req Res) (sc : SecureCookie)

/-- `adminSecureTokenAuth(h)` around a handler `h`. -/
def adminSecureTokenAuth (config : AdminConfig) (h : Request → AdminRun) (r : Request) :
    AdminRun :=
  if config.insecure then h r
  else if config.secret = "" then .response (.status 401)
  else
    match fields (r.header "Authorization") with
    | [authMethod, token] =>
      if env.toLower authMethod ≠ "token" ∨ !checkSecureAdminToken sc config.secret token then
        .response (.status 401)
      else h r
    | _ => .response (.status 401)

/-- `AdminHandler.authHandler`. -/
def authHandler (config : AdminConfig) (r : Request) : AdminRun :=
  if config.insecure then .token "insecure"
  else if config.password = "" ∨ config.secret = "" then .response (.error 400 "Bad Request")
  else if r.form "password" = config.password then
    match generateSecureAdminToken sc config.secret with
    | none => .response (.error 500 "Internal Server Error")
    | some token => .token token
  else .response (.error 400 "Bad Request")

/-- `AdminHandler.ServeHTTP`: the mux `NewAdminHandler` builds. -/
def AdminHandler.serveHTTP (config : AdminConfig) (r : Request) : AdminRun :=
  if r.path = "/admin/auth" then authHandler sc config r
  else if r.path = "/admin/api" then
    adminSecureTokenAuth env sc config (fun r => .api (APIHandler.serveHTTP env ⟨"", true⟩ r)) r
  else if config.webPath ≠ "" ∨ config.webFS then .web
  else .notFound

/-- The inner `APIHandler` is built with `Insecure: true`: it checks nothing. -/
theorem checkAuth_insecure {toLower : String → String} {config : APIConfig} (r : Request)
    (hs : config.insecure = true) : checkAuth toLower config r = true := by
  simp [checkAuth, hs]

/-- With `Insecure` off, the guard lets a request through only with a secret set and an
`Authorization` of two fields, `token` in any case and a token the secret accepts. -/
theorem adminSecureTokenAuth_passes {config : AdminConfig} {h : Request → AdminRun}
    {r : Request} (hs : config.insecure = false)
    (hp : adminSecureTokenAuth env sc config h r ≠ .response (.status 401)) :
    config.secret ≠ "" ∧ ∃ authMethod token, fields (r.header "Authorization") = [authMethod, token] ∧
      env.toLower authMethod = "token" ∧ checkSecureAdminToken sc config.secret token = true ∧
      adminSecureTokenAuth env sc config h r = h r := by
  unfold adminSecureTokenAuth at hp ⊢
  simp only [hs, Bool.false_eq_true, ↓reduceIte] at hp ⊢
  split at hp
  · exact absurd rfl hp
  rename_i hsec
  split at hp
  · rename_i authMethod token hf
    split at hp
    · exact absurd rfl hp
    · rename_i hok
      simp only [not_or, Bool.not_eq_true', Bool.not_eq_false, not_not] at hok
      exact ⟨hsec, authMethod, token, hf, hok.1, hok.2, by simp [hsec, hf, hok]⟩
  · exact absurd rfl hp

theorem authHandler_ne_api (config : AdminConfig) (r : Request) (run : ApiRun) :
    authHandler sc config r ≠ .api run := by
  unfold authHandler
  split_ifs <;> try split
  all_goals exact fun h => AdminRun.noConfusion h

theorem adminSecureTokenAuth_ne_token {config : AdminConfig} {r : Request} {t : String}
    (f : Request → ApiRun) : adminSecureTokenAuth env sc config (fun r => .api (f r)) r ≠ .token t := by
  unfold adminSecureTokenAuth
  split_ifs <;> try split
  all_goals (try split_ifs) <;> exact fun h => AdminRun.noConfusion h

/-- With `Insecure` off, the mux hands out a token only from `authHandler`, with a secret
set, and the token is the one `generateSecureAdminToken` made. -/
theorem serveHTTP_token {config : AdminConfig} {r : Request} {t : String}
    (hs : config.insecure = false) (h : AdminHandler.serveHTTP env sc config r = .token t) :
    config.secret ≠ "" ∧ generateSecureAdminToken sc config.secret = some t := by
  unfold AdminHandler.serveHTTP at h
  split_ifs at h
  · unfold authHandler at h
    rw [if_neg (by simp [hs])] at h
    split_ifs at h with hps
    split at h
    · exact AdminRun.noConfusion h
    · cases h
      exact ⟨fun he => hps (.inr he), ‹_›⟩
  · exact absurd h (adminSecureTokenAuth_ne_token env sc _)

/-- For every environment, `securecookie` behaviour, configuration and request: with
`Insecure` off, `APIHandler.ServeHTTP` answers 401 and handles no command unless a key is
set and `Authorization` is two fields, `apikey` in any case and the key; and with the
admin `Insecure` off, a request reaches the admin mux's inner `APIHandler` only at
`/admin/api`, with a secret set and `Authorization` two fields, `token` in any case and a
token `checkSecureAdminToken` accepts. -/
theorem api_auth_guards :
    (∀ (config : APIConfig) (r : Request), config.insecure = false →
      ¬ (config.key ≠ "" ∧ ∃ authMethod, fields (r.header "Authorization") =
        [authMethod, config.key] ∧ env.toLower authMethod = "apikey") →
      APIHandler.serveHTTP env config r = ⟨.status 401, []⟩) ∧
    ∀ (config : AdminConfig) (r : Request) (run : ApiRun), config.insecure = false →
      AdminHandler.serveHTTP env sc config r = .api run →
      r.path = "/admin/api" ∧ config.secret ≠ "" ∧ ∃ authMethod token,
        fields (r.header "Authorization") = [authMethod, token] ∧
        env.toLower authMethod = "token" ∧ checkSecureAdminToken sc config.secret token = true := by
  refine ⟨fun config r hs hno => ?_, fun config r run hs h => ?_⟩
  · have hc : checkAuth env.toLower config r = false := by
      simpa using mt (checkAuth_secure r hs).1 hno
    simp [APIHandler.serveHTTP, hc]
  · unfold AdminHandler.serveHTTP at h
    split_ifs at h with hauth hapi hweb
    · exact absurd h (authHandler_ne_api sc config r run)
    · obtain ⟨hsec, authMethod, token, hf, hl, hc, -⟩ :=
        adminSecureTokenAuth_passes env sc hs (by rw [h]; exact fun h' => AdminRun.noConfusion h')
      exact ⟨hapi, hsec, authMethod, token, hf, hl, hc⟩

/-- A request without `Authorization` to a keyed `APIHandler` is refused; one with a
token the secret accepts reaches the admin API. -/
theorem api_auth_guards_requests :
    let env : ApiEnv Unit Unit := ⟨fun s => ⟨s.data.map Char.toLower⟩, fun _ _ => ([], true),
      fun _ _ _ => none, fun _ _ _ => ⟨none, none⟩, fun _ _ _ => none, fun _ _ => some [],
      fun _ _ => [], ⟨1, "bad request"⟩, ⟨2, "method not found"⟩⟩
    let sc : SecureCookie := ⟨fun _ _ _ => none, fun _ _ _ => some "authorized"⟩
    let r : Request := ⟨fun _ => "Token abc", "/admin/api", some [1], fun _ => ""⟩
    APIHandler.serveHTTP env ⟨"key", false⟩ { r with header := fun _ => "" } =
      ⟨.status 401, []⟩ ∧
    (r.path = "/admin/api" ∧ "secret" ≠ "" ∧ ∃ authMethod token,
      fields (r.header "Authorization") = [authMethod, token] ∧ env.toLower authMethod = "token" ∧
      checkSecureAdminToken sc "secret" token = true) := by
  intro env sc r
  exact ⟨(api_auth_guards env sc).1 ⟨"key", false⟩ _ rfl (by simp [fields, fieldsLoop]),
    (api_auth_guards env sc).2 ⟨"", false, "", "secret", false⟩ r _ rfl rfl⟩

/-- The credentials each guard asks for are let through. An `Authorization` of a method
word that lowers to `apikey`, a space and the key makes `APIHandler` behave as with the
check off; and with `Insecure` off and a `securecookie` that reads back what it wrote, a
token `/admin/auth` handed out, sent back as `token <t>` to `/admin/api`, reaches the inner
`APIHandler`. -/
theorem auth_accepts_credentials :
    (∀ (config : APIConfig) (r : Request) (authMethod : String), IsWord authMethod →
      IsWord config.key → env.toLower authMethod = "apikey" →
      r.header "Authorization" = authMethod ++ " " ++ config.key →
      APIHandler.serveHTTP env config r = APIHandler.serveHTTP env ⟨config.key, true⟩ r) ∧
    ∀ (config : AdminConfig) (r₁ r₂ : Request) (t : String), config.insecure = false →
      sc.RoundTrips → env.toLower "token" = "token" →
      AdminHandler.serveHTTP env sc config r₁ = .token t → IsWord t →
      r₂.path = "/admin/api" → r₂.header "Authorization" = "token" ++ " " ++ t →
      AdminHandler.serveHTTP env sc config r₂ = .api (APIHandler.serveHTTP env ⟨"", true⟩ r₂) := by
  refine ⟨fun config r m hm hk hl hr => ?_, fun config r₁ r₂ t hs hsc hl h₁ ht hp hr => ?_⟩
  · have hc : checkAuth env.toLower config r = true := by
      cases hs : config.insecure
      · refine (checkAuth_secure r hs).2 ⟨fun he => hk.1 (by rw [he]; rfl), m, ?_, hl⟩
        rw [hr, fields_two_words hm hk]
      · exact checkAuth_insecure r hs
    simp only [APIHandler.serveHTTP, hc, checkAuth_insecure r (rfl : (⟨config.key, true⟩ : APIConfig).insecure = true)]
  · obtain ⟨hsec, hgen⟩ := serveHTTP_token env sc hs h₁
    have hcheck : checkSecureAdminToken sc config.secret t = true := by
      simp [checkSecureAdminToken, hsc _ _ _ _ hgen]
    unfold AdminHandler.serveHTTP adminSecureTokenAuth
    rw [if_neg (by rw [hp]; decide), if_pos hp, if_neg (by simp [hs]), if_neg hsec, hr,
      fields_two_words (by decide) ht]
    simp [hl, hcheck]

/-- A key sent as `ApiKey key` is let through, and so is the token an identity
`securecookie` hands out for the password `pw`. -/
theorem auth_accepts_credentials_login :
    let env : ApiEnv Unit Unit := ⟨fun s => ⟨s.data.map Char.toLower⟩, fun _ _ => ([], true),
      fun _ _ _ => none, fun _ _ _ => ⟨none, none⟩, fun _ _ _ => none, fun _ _ => some [],
      fun _ _ => [], ⟨1, "bad request"⟩, ⟨2, "method not found"⟩⟩
    let sc : SecureCookie := ⟨fun _ _ v => some v, fun _ _ t => some t⟩
    let config : AdminConfig := ⟨"", false, "pw", "secret", false⟩
    let r₀ : Request := ⟨fun _ => "ApiKey key", "/api", some [1], fun _ => ""⟩
    let r₁ : Request := ⟨fun _ => "", "/admin/auth", none, fun _ => "pw"⟩
    let r₂ : Request := ⟨fun _ => "token authorized", "/admin/api", some [1], fun _ => ""⟩
    APIHandler.serveHTTP env ⟨"key", false⟩ r₀ = APIHandler.serveHTTP env ⟨"key", true⟩ r₀ ∧
    AdminHandler.serveHTTP env sc config r₁ = .token "authorized" ∧
    AdminHandler.serveHTTP env sc config r₂ = .api (APIHandler.serveHTTP env ⟨"", true⟩ r₂) := by
  intro env sc config r₀ r₁ r₂
  have h₁ : AdminHandler.serveHTTP env sc config r₁ = .token "authorized" := rfl
  exact ⟨(auth_accepts_credentials env sc).1 ⟨"key", false⟩ r₀ "ApiKey" (by decide) (by decide)
      (by decide) rfl, h₁,
    (auth_accepts_credentials env sc).2 config r₁ r₂ "authorized" rfl
      (fun _ _ _ _ h => by cases h; rfl) (by decide) h₁ (by decide) rfl rfl⟩

end Centrifuge.Api
