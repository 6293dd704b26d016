import JobTrail.Proofs.Settings
import JobTrail.Proofs.Settings.Lifetimes
import JobTrail.Startup

/-!
# Which settings are accepted, and what they are

Ten variables have to be spelled as their type asks for. They are looked at in a fixed order, and the first that
is set to something else decides the answer whatever the rest says. Once all of them are in order, the secret of
a production set-up is looked at; and settings that pass have every field from its own variable, or from the
defaults of the environment where that is not set.
-/

namespace JobTrail.Settings

variable {α β : Type} {vars : Variables} {base s : Settings} {raw key : String} {limit n : Nat}

/-! ## Values as they are spelled -/

def SpellsNat (limit : Nat) (raw : String) (n : Nat) : Prop :=
  ∃ number, InBlanks number raw ∧ SpellsWhole number n ∧ n ≤ limit

def SpellsFlag (raw : String) (b : Bool) : Prop := InBlanks (if b then "true" else "false").toList raw

/-- A lifetime that is accepted: at least a second, with a place in 64 bits. -/
def SpellsSeconds (raw : String) (n : Int) : Prop := SpellsLifetime raw n ∧ 0 < n ∧ n ≤ 9223372036854775807

theorem parseNat_eq_some_iff : parseNat limit raw = some n ↔ SpellsNat limit raw n := by
  rw [parseNat, readUpTo?_eq_some_iff]
  constructor
  · rintro ⟨hnumber, hlimit⟩
    exact ⟨_, inBlanks_trimChars raw, hnumber, hlimit⟩
  · rintro ⟨number, hraw, hnumber, hlimit⟩
    rw [(inBlanks_iff (isBlank_of_spellsWhole hnumber)).mp hraw]
    exact ⟨hnumber, hlimit⟩

theorem parseBool_eq_some_iff {b : Bool} : parseBool raw = some b ↔ SpellsFlag raw b := by
  have hword : ∀ c ∈ (if b then "true" else "false").toList, isBlank c = false := by
    cases b <;> simp [isBlank]
  have hspells : SpellsFlag raw b ↔ trimBlank raw = if b then "true" else "false" := inBlanks_toList_iff hword
  rw [hspells, parseBool]
  split
  · rename_i htrue
    rw [htrue]
    cases b <;> simp
  · rename_i hfalse
    rw [hfalse]
    cases b <;> simp
  · rename_i htrue hfalse
    cases b with
    | true => exact iff_of_false (by simp) htrue
    | false => exact iff_of_false (by simp) hfalse

/-! ## Variables in order -/

/-- A variable and how it may be spelled if it is set. -/
structure Expectation where
  key : String
  Allows : String → Prop

def Expectation.Holds (vars : Variables) (p : Expectation) : Prop := ∀ raw, vars p.key = some raw → p.Allows raw

def Expectation.nat (key : String) (limit : Nat) : Expectation := ⟨key, fun raw => ∃ n, SpellsNat limit raw n⟩

def Expectation.flag (key : String) : Expectation := ⟨key, fun raw => ∃ b, SpellsFlag raw b⟩

def Expectation.seconds (key : String) : Expectation := ⟨key, fun raw => ∃ n, SpellsSeconds raw n⟩

/-- The variables that can be refused, in the order in which they are looked at. -/
def expectations : List Expectation :=
  [.nat "PORT" limit16, .nat "DB_PORT" limit16, .nat "DATABASE_MAX_CONNECTIONS" limit32,
    .nat "DATABASE_CONNECTION_TIMEOUT_MS" limit64, .nat "DATABASE_IDLE_TIMEOUT_SECS" limit64,
    .flag "DATABASE_ENABLE_QUERY_LOGGING", .nat "DATABASE_SLOW_QUERY_THRESHOLD_MS" limit64,
    .flag "API_ENABLE_REQUEST_LOGGING", .nat "API_MAX_REQUEST_SIZE_BYTES" limit64, .seconds "JWT_EXPIRES_IN"]

/-- The variable has this text and may not have it, and all before it are in order. -/
def FirstRefused (vars : Variables) (list : List Expectation) (key raw : String) : Prop :=
  ∃ before p after, list = before ++ p :: after ∧ (∀ q ∈ before, q.Holds vars)
    ∧ p.key = key ∧ vars key = some raw ∧ ¬ p.Allows raw

theorem not_firstRefused_nil : ¬ FirstRefused vars [] key raw := by
  rintro ⟨before, p, after, hlist, -⟩
  cases before <;> cases hlist

theorem firstRefused_cons_iff {p : Expectation} {rest : List Expectation} :
    FirstRefused vars (p :: rest) key raw ↔
      (p.key = key ∧ vars key = some raw ∧ ¬ p.Allows raw) ∨ (p.Holds vars ∧ FirstRefused vars rest key raw) := by
  constructor
  · rintro ⟨before, q, after, hlist, hbefore, hq⟩
    cases before with
    | nil =>
      cases hlist
      exact .inl hq
    | cons d before =>
      cases hlist
      obtain ⟨hd, hbefore⟩ := List.forall_mem_cons.mp hbefore
      exact .inr ⟨hd, before, q, after, rfl, hbefore, hq⟩
  · rintro (hp | ⟨hp, before, q, after, rfl, hbefore, hq⟩)
    · exact ⟨[], p, rest, rfl, nofun, hp⟩
    · exact ⟨p :: before, q, after, rfl, List.forall_mem_cons.mpr ⟨hp, hbefore⟩, hq⟩

theorem exists_firstRefused_iff {list : List Expectation} :
    (∃ key raw, FirstRefused vars list key raw) ↔ ¬ ∀ p ∈ list, p.Holds vars := by
  induction list with
  | nil => simp [not_firstRefused_nil]
  | cons p rest ih =>
    simp only [firstRefused_cons_iff, List.forall_mem_cons]
    by_cases hp : p.Holds vars
    · rw [and_iff_right hp, ← ih]
      constructor
      · rintro ⟨key, raw, ⟨rfl, hset, hrefused⟩ | ⟨-, hlater⟩⟩
        · exact absurd (hp raw hset) hrefused
        · exact ⟨key, raw, hlater⟩
      · rintro ⟨key, raw, hlater⟩
        exact ⟨key, raw, .inr ⟨hp, hlater⟩⟩
    · obtain ⟨raw, hraw⟩ := not_forall.mp hp
      obtain ⟨hset, hrefused⟩ := Classical.not_imp.mp hraw
      exact iff_of_true ⟨p.key, raw, .inl ⟨rfl, hset, hrefused⟩⟩ fun h => hp h.1

/-- A computation that fails with the first refused variable of a list and in no other way. -/
def Reads (vars : Variables) (list : List Expectation) (m : Except SettingsError α) : Prop :=
  ∀ e, m = .error e ↔ ∃ key raw, FirstRefused vars list key raw ∧ e = .invalidValue key raw

theorem reads_ok (a : α) : Reads vars [] (.ok a) := by
  intro e
  constructor
  · intro h
    cases h
  · rintro ⟨key, raw, hrefused, -⟩
    exact absurd hrefused not_firstRefused_nil

/-- What a variable and its default make of a setting. -/
def Chosen (Spells : String → α → Prop) (set? : Option String) (default v : α) : Prop :=
  match set? with
  | none => v = default
  | some raw => Spells raw v

theorem override_eq_ok_iff_chosen {parse : String → Option α} {Spells : String → α → Prop} {default v : α}
    (hparse : ∀ raw v, parse raw = some v ↔ Spells raw v) :
    override vars key parse default = .ok v ↔ Chosen Spells (vars key) default v := by
  rw [override_eq_ok_iff]
  cases vars key with
  | none => simp [Chosen]
  | some raw => simp [Chosen, hparse]

/-- A variable that is set has a readable text, or it is refused with the text as it is. -/
theorem override_cases {parse : String → Option α} {Spells : String → α → Prop}
    (hparse : ∀ raw v, parse raw = some v ↔ Spells raw v) (vars : Variables) (key : String) (default : α) :
    (Expectation.Holds vars ⟨key, fun raw => ∃ v, Spells raw v⟩ ∧ ∃ v, override vars key parse default = .ok v)
      ∨ ∃ raw, vars key = some raw ∧ (¬ ∃ v, Spells raw v)
        ∧ override vars key parse default = .error (.invalidValue key raw) := by
  unfold override Expectation.Holds
  cases hset : vars key with
  | none => exact .inl ⟨nofun, default, rfl⟩
  | some raw =>
    cases hread : parse raw with
    | none =>
      refine .inr ⟨raw, rfl, fun ⟨v, hv⟩ => ?_, by simp only [hread]⟩
      exact absurd (hread.symm.trans ((hparse raw v).mpr hv)) nofun
    | some v =>
      refine .inl ⟨fun text htext => ⟨v, ?_⟩, v, by simp only [hread]⟩
      cases htext
      exact (hparse raw v).mp hread

/-- One more variable in front. -/
theorem Reads.override {parse : String → Option α} {Spells : String → α → Prop} {default : α}
    {next : α → Except SettingsError β} {rest : List Expectation}
    (hparse : ∀ raw v, parse raw = some v ↔ Spells raw v) (h : ∀ a, Reads vars rest (next a)) :
    Reads vars (⟨key, fun raw => ∃ v, Spells raw v⟩ :: rest) (Settings.override vars key parse default >>= next) := by
  intro e
  simp only [firstRefused_cons_iff]
  rcases override_cases hparse vars key default with ⟨hholds, v, hv⟩ | ⟨raw, hset, hrefused, hfail⟩
  · rw [hv]
    refine (h v e).trans ⟨?_, ?_⟩
    · rintro ⟨k, text, hlater, he⟩
      exact ⟨k, text, .inr ⟨hholds, hlater⟩, he⟩
    · rintro ⟨k, text, ⟨rfl, hset, hrefused⟩ | ⟨-, hlater⟩, he⟩
      · exact absurd (hholds text hset) hrefused
      · exact ⟨k, text, hlater, he⟩
  · rw [hfail]
    constructor
    · intro he
      cases he
      exact ⟨key, raw, .inl ⟨rfl, hset, hrefused⟩, rfl⟩
    · rintro ⟨k, text, ⟨rfl, htext, -⟩ | ⟨hholds, -⟩, rfl⟩
      · rw [Option.some.inj (hset.symm.trans htext)]
        rfl
      · exact absurd (hholds raw hset) hrefused

/-! ## All settings -/

/-- Each setting is what its variable spells, or the default if that is not set. -/
structure Follows (vars : Variables) (base s : Settings) : Prop where
  environment : s.environment = base.environment
  host : s.server.host = (vars "HOST").getD base.server.host
  port : Chosen (SpellsNat limit16) (vars "PORT") base.server.port s.server.port
  databaseUrl : s.database.url = (vars "DATABASE_URL").or base.database.url
  databaseHost : s.database.host = (vars "DB_HOST").getD base.database.host
  databasePort : Chosen (SpellsNat limit16) (vars "DB_PORT") base.database.port s.database.port
  databaseName : s.database.name = (vars "DB_NAME").getD base.database.name
  databaseUser : s.database.user = (vars "DB_USER").getD base.database.user
  databasePassword : s.database.password = (vars "DB_PASSWORD").getD base.database.password
  tlsOfUrl : (vars "DATABASE_URL").isSome → (s.database.ssl = true ↔ vars "DB_SSL" ≠ some "false")
  tlsOfName : vars "DATABASE_URL" = none →
    Chosen (fun raw on => on = true ↔ raw = "true") (vars "DB_SSL") base.database.ssl s.database.ssl
  maxConnections :
    Chosen (SpellsNat limit32) (vars "DATABASE_MAX_CONNECTIONS") base.database.maxConnections s.database.maxConnections
  connectionTimeout :
    Chosen (SpellsNat limit64) (vars "DATABASE_CONNECTION_TIMEOUT_MS") base.database.connectionTimeoutMs
      s.database.connectionTimeoutMs
  idleTimeout :
    Chosen (SpellsNat limit64) (vars "DATABASE_IDLE_TIMEOUT_SECS") base.database.idleTimeoutSecs
      s.database.idleTimeoutSecs
  queryLogging :
    Chosen SpellsFlag (vars "DATABASE_ENABLE_QUERY_LOGGING") base.database.queryLogging s.database.queryLogging
  slowQuery :
    Chosen (SpellsNat limit64) (vars "DATABASE_SLOW_QUERY_THRESHOLD_MS") base.database.slowQueryMs
      s.database.slowQueryMs
  requestLogging :
    Chosen SpellsFlag (vars "API_ENABLE_REQUEST_LOGGING") base.api.requestLogging s.api.requestLogging
  maxRequest :
    Chosen (SpellsNat limit64) (vars "API_MAX_REQUEST_SIZE_BYTES") base.api.maxRequestBytes s.api.maxRequestBytes
  secret : s.security.secret = (vars "JWT_SECRET").getD base.security.secret
  lifetime : Chosen SpellsSeconds (vars "JWT_EXPIRES_IN") base.security.lifetimeSecs s.security.lifetimeSecs
  origins : s.security.origins = ((vars "SECURITY_CORS_ORIGINS").map parseOrigins).getD base.security.origins
  uploadsDir : s.uploads.dir = (vars "UPLOADS_DIR").getD base.uploads.dir
  publicPath : s.uploads.publicPath = base.uploads.publicPath

theorem tls_eq_iff {default on : Bool} :
    on = tls vars default ↔
      ((vars "DATABASE_URL").isSome → (on = true ↔ vars "DB_SSL" ≠ some "false"))
      ∧ (vars "DATABASE_URL" = none →
          Chosen (fun raw on => on = true ↔ raw = "true") (vars "DB_SSL") default on) := by
  rw [tls]
  cases vars "DATABASE_URL" with
  | some url => cases on <;> simp
  | none => cases vars "DB_SSL" <;> cases on <;> simp [Chosen]

theorem parse_seconds (raw : String) (n : Int) : parseLifetime? raw = some n ↔ SpellsSeconds raw n :=
  parseLifetime?_iff_spells

theorem reads_withOverrides (vars : Variables) (base : Settings) :
    Reads vars expectations (withOverrides vars base) := by
  have hnat : ∀ limit raw n, parseNat limit raw = some n ↔ SpellsNat limit raw n :=
    fun _ _ _ => parseNat_eq_some_iff
  have hflag : ∀ raw b, parseBool raw = some b ↔ SpellsFlag raw b := fun _ _ => parseBool_eq_some_iff
  exact .override (hnat _) fun _ => .override (hnat _) fun _ => .override (hnat _) fun _ =>
    .override (hnat _) fun _ => .override (hnat _) fun _ => .override hflag fun _ =>
      .override (hnat _) fun _ => .override hflag fun _ => .override (hnat _) fun _ =>
        .override parse_seconds fun _ => reads_ok _

theorem withOverrides_eq_error_iff :
    withOverrides vars base = .error (.invalidValue key raw) ↔ FirstRefused vars expectations key raw := by
  rw [reads_withOverrides vars base]
  constructor
  · rintro ⟨k, text, hrefused, he⟩
    cases he
    exact hrefused
  · intro hrefused
    exact ⟨key, raw, hrefused, rfl⟩

theorem exists_withOverrides_iff :
    (∃ s, withOverrides vars base = .ok s) ↔ ∀ p ∈ expectations, p.Holds vars := by
  rw [← not_iff_not, ← exists_firstRefused_iff]
  cases hresult : withOverrides vars base with
  | ok s =>
    simp only [← @withOverrides_eq_error_iff _ base, hresult]
    simp
  | error e =>
    obtain ⟨key, raw, hrefused, -⟩ := (reads_withOverrides vars base e).mp hresult
    exact iff_of_true (by simp) ⟨key, raw, hrefused⟩

theorem withOverrides_eq_ok_iff : withOverrides vars base = .ok s ↔ Follows vars base s := by
  simp only [withOverrides, bind_eq_ok, override_eq_ok_iff_chosen (fun _ _ => parseNat_eq_some_iff),
    override_eq_ok_iff_chosen (fun _ _ => parseBool_eq_some_iff), override_eq_ok_iff_chosen parse_seconds]
  constructor
  · rintro ⟨port, hport, dbPort, hdbPort, maxConnections, hmaxConnections, timeout, htimeout, idle, hidle,
      queryLogging, hqueryLogging, slow, hslow, requestLogging, hrequestLogging, maxRequest, hmaxRequest,
      lifetime, hlifetime, hs⟩
    cases hs
    have htls := tls_eq_iff.mp (rfl : tls vars base.database.ssl = _)
    exact {
      environment := rfl, host := rfl, port := hport, databaseUrl := rfl, databaseHost := rfl
      databasePort := hdbPort, databaseName := rfl, databaseUser := rfl, databasePassword := rfl
      tlsOfUrl := htls.1, tlsOfName := htls.2, maxConnections := hmaxConnections, connectionTimeout := htimeout
      idleTimeout := hidle, queryLogging := hqueryLogging, slowQuery := hslow, requestLogging := hrequestLogging
      maxRequest := hmaxRequest, secret := rfl, lifetime := hlifetime, origins := rfl, uploadsDir := rfl
      publicPath := rfl }
  · intro h
    refine ⟨_, h.port, _, h.databasePort, _, h.maxConnections, _, h.connectionTimeout, _, h.idleTimeout,
      _, h.queryLogging, _, h.slowQuery, _, h.requestLogging, _, h.maxRequest, _, h.lifetime, ?_⟩
    rw [← h.environment, ← h.host, ← h.databaseUrl, ← h.databaseHost, ← h.databaseName, ← h.databaseUser,
      ← h.databasePassword, ← tls_eq_iff.mpr ⟨h.tlsOfUrl, h.tlsOfName⟩, ← h.secret, ← h.origins, ← h.uploadsDir,
      ← h.publicPath]

/-! ## The secret -/

/-- A production set-up that would sign with the secret of a development one. -/
def Insecure (vars : Variables) : Prop :=
  Environment.ofName (vars "APP_ENV") = .production
    ∧ (vars "JWT_SECRET").getD (defaults (Environment.ofName (vars "APP_ENV"))).security.secret = developmentSecret

instance (vars : Variables) : Decidable (Insecure vars) := inferInstanceAs (Decidable (_ ∧ _))

theorem environment_defaults (env : Environment) : (defaults env).environment = env := by
  cases env <;> rfl

theorem Follows.insecure_iff (h : Follows vars (defaults (Environment.ofName (vars "APP_ENV"))) s) :
    Insecure vars ↔ s.environment = .production ∧ s.security.secret = developmentSecret := by
  rw [Insecure, h.environment, environment_defaults, h.secret]

theorem ofVariables_of_error {e : SettingsError}
    (h : withOverrides vars (defaults (Environment.ofName (vars "APP_ENV"))) = .error e) :
    ofVariables vars = .error e := by
  rw [ofVariables, h]
  rfl

/-- What is answered once every variable can be read. -/
theorem ofVariables_of_ok (h : withOverrides vars (defaults (Environment.ofName (vars "APP_ENV"))) = .ok s) :
    ofVariables vars = if Insecure vars then .error .insecureSecret else .ok s := by
  rw [if_congr (withOverrides_eq_ok_iff.mp h).insecure_iff rfl rfl, ofVariables, h]
  rfl

theorem ofVariables_eq_invalidValue_iff :
    ofVariables vars = .error (.invalidValue key raw) ↔ FirstRefused vars expectations key raw := by
  rw [← withOverrides_eq_error_iff]
  cases h : withOverrides vars (defaults (Environment.ofName (vars "APP_ENV"))) with
  | error e => rw [ofVariables_of_error h]
  | ok s =>
    rw [ofVariables_of_ok h]
    by_cases hinsecure : Insecure vars <;> simp [hinsecure]

theorem ofVariables_eq_insecureSecret_iff :
    ofVariables vars = .error .insecureSecret ↔ (∀ p ∈ expectations, p.Holds vars) ∧ Insecure vars := by
  rw [← exists_withOverrides_iff]
  cases h : withOverrides vars (defaults (Environment.ofName (vars "APP_ENV"))) with
  | error e =>
    obtain ⟨key, raw, -, rfl⟩ := (reads_withOverrides vars _ e).mp h
    rw [ofVariables_of_error h]
    simp
  | ok s =>
    rw [ofVariables_of_ok h]
    by_cases hinsecure : Insecure vars <;> simp [hinsecure]

theorem ofVariables_eq_ok_iff :
    ofVariables vars = .ok s ↔
      ¬ Insecure vars ∧ Follows vars (defaults (Environment.ofName (vars "APP_ENV"))) s := by
  rw [← withOverrides_eq_ok_iff]
  cases h : withOverrides vars (defaults (Environment.ofName (vars "APP_ENV"))) with
  | error e =>
    rw [ofVariables_of_error h]
    simp
  | ok s' =>
    rw [ofVariables_of_ok h]
    by_cases hinsecure : Insecure vars <;> simp [hinsecure]

theorem exists_ofVariables_iff :
    (∃ s, ofVariables vars = .ok s) ↔ (∀ p ∈ expectations, p.Holds vars) ∧ ¬ Insecure vars := by
  simp only [ofVariables_eq_ok_iff, exists_and_left, ← withOverrides_eq_ok_iff, exists_withOverrides_iff]
  exact and_comm

theorem secret_of_ofVariables (h : ofVariables vars = .ok s) (hproduction : s.environment = .production) :
    s.security.secret ≠ developmentSecret := by
  obtain ⟨hsecure, hfollows⟩ := ofVariables_eq_ok_iff.mp h
  intro hsecret
  exact hsecure (hfollows.insecure_iff.mpr ⟨hproduction, hsecret⟩)

theorem keys_of_startup {user : String} {st : Startup} (h : Startup.ofVariables user vars = .ok st) :
    ofVariables vars = .ok st.settings ∧ st.keys.secret = st.settings.security.secret := by
  rw [Startup.ofVariables] at h
  split at h
  · cases h
  rename_i settings hsettings
  split at h
  · cases h
  split at h
  · cases h
  rename_i keys hkeys
  cases h
  rw [TokenKeys.ofSecret] at hkeys
  split at hkeys
  · cases hkeys
  · cases hkeys
    exact ⟨hsettings, rfl⟩

/--
Bad settings are told in one order, and an unsafe secret never runs. The first variable that cannot be read is the
error; if all can be read, a production set-up with the development secret is the error; and otherwise there are
settings, each what its variable spells or the default of the environment. A service that has started signs with a
secret that is not empty, and in production not with the development one.
-/
theorem settings_or_first_error :
    (∀ vars key raw, ofVariables vars = .error (.invalidValue key raw) ↔ FirstRefused vars expectations key raw)
    ∧ (∀ vars, ofVariables vars = .error .insecureSecret ↔ (∀ p ∈ expectations, p.Holds vars) ∧ Insecure vars)
    ∧ (∀ vars, (∃ s, ofVariables vars = .ok s) ↔ (∀ p ∈ expectations, p.Holds vars) ∧ ¬ Insecure vars)
    ∧ (∀ vars s, ofVariables vars = .ok s ↔
        ¬ Insecure vars ∧ Follows vars (defaults (Environment.ofName (vars "APP_ENV"))) s)
    ∧ ∀ user vars st, Startup.ofVariables user vars = .ok st →
        ofVariables vars = .ok st.settings
          ∧ st.keys.secret = st.settings.security.secret
          ∧ st.keys.secret ≠ ""
          ∧ (st.settings.environment = .production → st.keys.secret ≠ developmentSecret) := by
  refine ⟨fun _ _ _ => ofVariables_eq_invalidValue_iff, fun _ => ofVariables_eq_insecureSecret_iff,
    fun _ => exists_ofVariables_iff, fun _ _ => ofVariables_eq_ok_iff, fun user vars st h => ?_⟩
  obtain ⟨hsettings, hkeys⟩ := keys_of_startup h
  refine ⟨hsettings, hkeys, st.keys.secret_ne, fun hproduction => ?_⟩
  rw [hkeys]
  exact secret_of_ofVariables hsettings hproduction

end JobTrail.Settings
