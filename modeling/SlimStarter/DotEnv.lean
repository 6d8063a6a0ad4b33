import Mathlib.Logic.Equiv.List
import SlimStarter.Lib.Template
import SlimStarter.Exceptions
import SlimStarter.Php

/-!
# `DotEnv.php`

The bootstrap reads `.env` or, while the file has the modification time and the size of the last
time, the values that an earlier process parsed. That process resolved `${NAME}` in its own
environment. So the cache agrees with the file in every process exactly if no line that counts
refers to a variable (`env_cache_exact_iff`).

Symfony's `Dotenv` and the JSON functions are fields of `DotEnvSetting`.
-/

namespace SlimStarter

open Template

/-- The variables of a process, `$_ENV` and `$_SERVER` alike. -/
abbrev Environment : Type := Bytes → Option Bytes

abbrev EnvValues : Type := List (Bytes × Bytes)

/-- A line `NAME=value` of `.env`. -/
abbrev EnvLine : Type := Assignment Bytes UInt8

/-- What is in `storage/cache/env.cache.json`. -/
structure EnvCache where
  mtime : Int
  size : ℕ
  values : EnvValues
deriving DecidableEq, Repr

inductive EnvFile where
  | missing
  | unreadable
  | readable (contents : Bytes) (mtime : Int)
deriving DecidableEq, Repr

/-- `.env` and the cache file, `none` where that is not readable. -/
structure EnvFiles where
  envFile : EnvFile
  cacheFile : Option Bytes
  cacheDirWritable : Bool
deriving DecidableEq, Repr

/-- `lines` are the lines as the parser of Symfony reads them, or its exception. `jsonEncode` is
`none` where it throws, `jsonDecode` where the text is not an array with these entries. -/
structure DotEnvSetting where
  envFile : String
  lines : Bytes → Except Failure (List EnvLine)
  parse : Environment → Bytes → Except Failure EnvValues
  populate : Environment → EnvValues → Environment
  jsonEncode : EnvCache → Option Bytes
  jsonDecode : Bytes → Option EnvCache

namespace DotEnv

/-- The variable in which Symfony keeps the names it has set. -/
def marker : Bytes := ascii "SYMFONY_DOTENV_VARS"

/-- A valid UTF-8 text. -/
def Utf8 (s : Bytes) : Prop := ∃ chars : List Char, s = chars.flatMap String.utf8EncodeChar

def isLetter (b : UInt8) : Bool := (65 ≤ b && b ≤ 90) || (97 ≤ b && b ≤ 122)

/-- `_?[A-Z][A-Z0-9_]*` of either case, the names that Symfony takes. -/
def isName (s : Bytes) : Bool :=
  match if s.head? = some 95 then s.tail else s with
  | [] => false
  | b :: rest => isLetter b && rest.all fun b => isLetter b || isDigit b || b == 95

end DotEnv

open DotEnv (marker Utf8 isName)

/-- What `parse` returns: an array, so of one value for each name. -/
structure EnvValues.IsArray (values : EnvValues) : Prop where
  nodup : (values.map Prod.fst).Nodup
  names : ∀ name ∈ values.map Prod.fst, isName name = true

/-- The variables of a process are UTF-8 texts. -/
def Environment.Utf8 (env : Environment) : Prop := ∀ name, ∀ s ∈ env name, DotEnv.Utf8 s

/-- What Symfony documents: a reference is to the environment first and to an earlier line next,
and no variable is overridden that it has not set itself. The marker is of the names it has set. -/
structure DotEnvSetting.Documented (D : DotEnvSetting) : Prop where
  parse : ∀ env contents, D.parse env contents = (D.lines contents).map (resolve env)
  names : ∀ contents lines, D.lines contents = .ok lines →
    ∀ line ∈ lines, isName line.name = true
  populate : ∀ (env : Environment) (values : EnvValues) name, values.IsArray → env marker = none →
    name ≠ marker → D.populate env values name = (env name).or (get values name)
  marker : ∀ (env : Environment) (values values' : EnvValues), values.IsArray → values'.IsArray →
    env marker = none → values.map Prod.fst = values'.map Prod.fst →
    D.populate env values marker = D.populate env values' marker
  utf8 : ∀ contents lines, Utf8 contents → D.lines contents = .ok lines →
    ∀ line ∈ lines, ∀ s, .literal s ∈ line.value → Utf8 s

/-- JSON takes arrays of UTF-8 texts, and what it has encoded it decodes. -/
structure DotEnvSetting.Json (D : DotEnvSetting) : Prop where
  decode : ∀ (cache : EnvCache) raw, cache.values.IsArray → D.jsonEncode cache = some raw →
    D.jsonDecode raw = some cache
  encode : ∀ cache : EnvCache, cache.values.IsArray → (∀ entry ∈ cache.values, Utf8 entry.2) →
    (D.jsonEncode cache).isSome = true

namespace DotEnv

variable (D : DotEnvSetting)

/-- `$populate`: forget what was set earlier in the process, so that nothing is overridden. -/
def populate (env : Environment) (values : EnvValues) : Environment :=
  D.populate (Function.update env marker none) values

/-- The values of the cache where it is of this file. -/
def cachedValues (contents : Bytes) (mtime : Int) (cacheFile : Option Bytes) :
    Option EnvValues := do
  let raw ← cacheFile
  let cached ← D.jsonDecode raw
  if cached.mtime = mtime ∧ cached.size = contents.length then some cached.values else none

def store (files : EnvFiles) (cache : EnvCache) : EnvFiles :=
  if files.cacheDirWritable then
    match D.jsonEncode cache with
    | some raw => { files with cacheFile := some raw }
    | none => files
  else files

/-- The environment after the bootstrap, and the files. -/
def load (env : Environment) (files : EnvFiles) : Except Failure (Environment × EnvFiles) :=
  match files.envFile with
  | .missing => .ok (env, files)
  | .unreadable => .error (.runtime s!"Environment file is not readable: {D.envFile}")
  | .readable contents mtime =>
    match cachedValues D contents mtime files.cacheFile with
    | some values => .ok (populate D env values, files)
    | none => do
      let values ← D.parse env contents
      pure (populate D env values, store D files ⟨mtime, contents.length, values⟩)

/-- The files after a bootstrap. -/
def afterLoad (files : EnvFiles) (env : Environment) : EnvFiles :=
  match load D env files with
  | .ok (_, files') => files'
  | .error _ => files

/-- The files after the bootstraps of processes with these environments. -/
def boots (files : EnvFiles) (processes : List Environment) : EnvFiles :=
  processes.foldl (afterLoad D) files

/-- The environment of a process is the same with the cache and without it. -/
def Agrees (files : EnvFiles) (env : Environment) : Prop :=
  (load D env files).map Prod.fst = (load D env { files with cacheFile := none }).map Prod.fst

/-- A process with this environment can cache what it has parsed. -/
def Encodable (contents : Bytes) (mtime : Int) (lines : List EnvLine) (env : Environment) : Prop :=
  (D.jsonEncode ⟨mtime, contents.length, resolve env lines⟩).isSome = true

/-- No line refers to a variable, of those that are the last for their name. -/
def plain (lines : List EnvLine) : Bool :=
  (effective lines).all fun line => line.name = marker || line.value.all Piece.isLiteral

variable {D} {env : Environment} {values values' : EnvValues} {contents : Bytes} {mtime : Int}
variable {files : EnvFiles} {lines : List EnvLine} {processes : List Environment}

theorem isArray_resolve (hD : D.Documented) (hlines : D.lines contents = .ok lines) :
    EnvValues.IsArray (resolve env lines) where
  nodup := nodup_keys_resolve
  names := by
    intro name hname
    obtain ⟨line, hline, rfl⟩ := List.mem_map.mp (mem_keys_resolve hname)
    exact hD.names contents lines hlines line hline

theorem populate_apply (hD : D.Documented) (hvalues : values.IsArray) {name : Bytes}
    (hname : name ≠ marker) : populate D env values name = (env name).or (get values name) := by
  unfold populate
  rw [hD.populate _ _ _ hvalues (Function.update_self ..) hname, Function.update_of_ne hname]

theorem populate_congr (hD : D.Documented) (hvalues : values.IsArray) (hvalues' : values'.IsArray)
    (hkeys : values.map Prod.fst = values'.map Prod.fst)
    (h : ∀ name ≠ marker, get values name = get values' name) :
    populate D env values = populate D env values' := by
  funext name
  by_cases hname : name = marker
  · subst hname
    exact hD.marker _ _ _ hvalues hvalues' (Function.update_self ..) hkeys
  · rw [populate_apply hD hvalues hname, populate_apply hD hvalues' hname, h name hname]

/-- The cache is of no use, or has what one of the processes parsed. -/
def CacheFrom (D : DotEnvSetting) (contents : Bytes) (mtime : Int) (processes : List Environment)
    (files : EnvFiles) : Prop :=
  files.envFile = .readable contents mtime
    ∧ ∀ values ∈ cachedValues D contents mtime files.cacheFile,
      ∃ env ∈ processes, D.parse env contents = .ok values

theorem CacheFrom.mono {processes' : List Environment}
    (h : CacheFrom D contents mtime processes files) (hsub : ∀ env ∈ processes, env ∈ processes') :
    CacheFrom D contents mtime processes' files := by
  refine ⟨h.1, fun values hvalues => ?_⟩
  obtain ⟨env, henv, hparse⟩ := h.2 values hvalues
  exact ⟨env, hsub env henv, hparse⟩

theorem cachedValues_store (hJ : D.Json)
    (hnone : cachedValues D contents mtime files.cacheFile = none) {parsed : EnvValues}
    (hparsed : parsed.IsArray) (h : values ∈ cachedValues D contents mtime
      (store D files ⟨mtime, contents.length, parsed⟩).cacheFile) : values = parsed := by
  unfold store at h
  split_ifs at h
  · split at h
    · next raw hraw => simpa [cachedValues, hJ.decode _ _ hparsed hraw] using h.symm
    · simp [hnone] at h
  · simp [hnone] at h

/-- A bootstrap keeps the cache, or writes what it has parsed. -/
theorem cacheFrom_afterLoad (hD : D.Documented) (hJ : D.Json)
    (hlines : D.lines contents = .ok lines) (h : CacheFrom D contents mtime processes files) :
    CacheFrom D contents mtime (env :: processes) (afterLoad D files env) := by
  have hkept : CacheFrom D contents mtime (env :: processes) files :=
    h.mono fun _ => List.mem_cons_of_mem _
  unfold afterLoad load
  simp only [h.1]
  cases hcached : cachedValues D contents mtime files.cacheFile with
  | some values => exact hkept
  | none =>
    have hparse : D.parse env contents = .ok (resolve env lines) := by rw [hD.parse, hlines]; rfl
    rw [hparse]
    refine ⟨?_, fun values hvalues => ?_⟩
    · show (store D files _).envFile = _
      unfold store
      split_ifs
      · split <;> exact h.1
      · exact h.1
    · obtain rfl := cachedValues_store hJ hcached (isArray_resolve hD hlines) hvalues
      exact ⟨env, List.mem_cons_self, hparse⟩

theorem cacheFrom_boots (hD : D.Documented) (hJ : D.Json)
    (hlines : D.lines contents = .ok lines) {done : List Environment}
    (h : CacheFrom D contents mtime done files) :
    CacheFrom D contents mtime (processes.reverse ++ done) (boots D files processes) := by
  induction processes generalizing files done with
  | nil => exact h
  | cons env processes ih =>
    have hnext : CacheFrom D contents mtime (env :: done) (afterLoad D files env) :=
      cacheFrom_afterLoad hD hJ hlines h
    simpa [boots] using ih hnext

/-- Where the processes parse the same, or what populates the same, the cache agrees. -/
theorem agrees_of_cacheFrom (hD : D.Documented) (hlines : D.lines contents = .ok lines)
    (h : CacheFrom D contents mtime processes files)
    (hsame : ∀ other ∈ processes,
      populate D env (resolve other lines) = populate D env (resolve env lines)) :
    Agrees D files env := by
  unfold Agrees load
  simp only [h.1]
  have hparse : D.parse env contents = .ok (resolve env lines) := by rw [hD.parse, hlines]; rfl
  have hempty : cachedValues D contents mtime none = none := rfl
  rw [hempty, hparse]
  cases hcached : cachedValues D contents mtime files.cacheFile with
  | none => rfl
  | some values =>
    obtain ⟨other, hother, hvalues⟩ := h.2 values hcached
    rw [hD.parse, hlines] at hvalues
    obtain rfl := Except.ok.inj hvalues
    exact congrArg Except.ok (hsame other hother)

/-! ## Plain files -/

theorem plain_iff : plain lines = true ↔
    ∀ line ∈ effective lines, line.name ≠ marker → line.value.all Piece.isLiteral = true := by
  simp only [plain, List.all_eq_true, Bool.or_eq_true, decide_eq_true_eq]
  exact forall₂_congr fun line _ => Decidable.or_iff_not_imp_left

theorem populate_resolve_of_plain (hD : D.Documented) (hlines : D.lines contents = .ok lines)
    (h : plain lines = true) (other : Environment) :
    populate D env (resolve other lines) = populate D env (resolve env lines) :=
  populate_congr hD (isArray_resolve hD hlines) (isArray_resolve hD hlines) keys_resolve
    fun _ hname => get_resolve_of_literal fun line hline hx =>
      plain_iff.mp h line hline (hx ▸ hname)

theorem utf8_replicate (n : ℕ) : Utf8 (List.replicate n 97) := by
  refine ⟨List.replicate n 'a', ?_⟩
  induction n with
  | zero => rfl
  | succ n ih =>
    rw [List.replicate_succ, List.replicate_succ, List.flatMap_cons, ← ih]
    rfl

theorem utf8_append {s t : Bytes} : Utf8 s → Utf8 t → Utf8 (s ++ t) := by
  rintro ⟨chars, rfl⟩ ⟨chars', rfl⟩
  exact ⟨chars ++ chars', by simp⟩

/-- Of a UTF-8 file JSON can encode what a process with UTF-8 variables has parsed. -/
theorem encodable_of_utf8 (hD : D.Documented) (hJ : D.Json) (hcontents : Utf8 contents)
    (hlines : D.lines contents = .ok lines) (henv : env.Utf8) :
    Encodable D contents mtime lines env :=
  hJ.encode _ (isArray_resolve hD hlines) (forall_resolve ⟨[], rfl⟩ (fun _ _ => utf8_append) henv
    (hD.utf8 _ _ hcontents hlines))

/-- What a first process that can encode its values leaves in the cache. -/
theorem boots_first (hD : D.Documented) (hJ : D.Json) (hlines : D.lines contents = .ok lines)
    (hencodable : Encodable D contents mtime lines env) :
    ∃ raw, boots D ⟨.readable contents mtime, none, true⟩ [env] =
        ⟨.readable contents mtime, some raw, true⟩
      ∧ cachedValues D contents mtime (some raw) = some (resolve env lines) := by
  have hparse : D.parse env contents = .ok (resolve env lines) := by rw [hD.parse, hlines]; rfl
  obtain ⟨raw, hraw⟩ := Option.isSome_iff_exists.mp hencodable
  refine ⟨raw, ?_, ?_⟩
  · have hempty : cachedValues D contents mtime none = none := rfl
    simp only [boots, List.foldl_cons, List.foldl_nil, afterLoad, load, hempty, hparse, store]
    simp [Except.bind, bind, pure, Except.pure, hraw]
  · simp [cachedValues, hJ.decode _ _ (isArray_resolve hD hlines) hraw]

/-- A process in which a variable referred to is long enough leaves a value that another one,
without variables, would not have parsed. -/
theorem exists_disagreeing (hD : D.Documented) (hJ : D.Json)
    (hlines : D.lines contents = .ok lines)
    (hencodable : ∀ env : Environment, env.Utf8 → Encodable D contents mtime lines env)
    (h : ¬ plain lines = true) :
    ∃ other, ¬ Agrees D (boots D ⟨.readable contents mtime, none, true⟩ [other])
      fun _ => none := by
  simp only [plain_iff, not_forall, List.all_eq_true] at h
  obtain ⟨line, hline, hname, piece, hpiece, hreference⟩ := h
  cases piece with
  | literal s => simp [Piece.isLiteral] at hreference
  | reference referred =>
    obtain ⟨n, hne⟩ := @exists_get_ne _ _ _ (fun _ => none) _ _ _ hline hpiece (97 : UInt8)
    let other : Environment := fun name =>
      if name = referred then some (List.replicate n 97) else none
    have hutf8 : other.Utf8 := by
      intro name s hs
      simp only [other] at hs
      split_ifs at hs
      · obtain rfl := Option.some.inj hs
        exact utf8_replicate _
      · simp at hs
    obtain ⟨raw, hboots, hcached⟩ := boots_first hD hJ hlines (hencodable other hutf8)
    refine ⟨other, fun hagrees => hne ?_⟩
    have hparse : D.parse (fun _ => none) contents = .ok (resolve (fun _ => none) lines) := by
      rw [hD.parse, hlines]
      rfl
    have hempty : cachedValues D contents mtime none = none := rfl
    simp only [hboots, Agrees, load, hcached, hempty, hparse] at hagrees
    have hpopulate : populate D (fun _ => none) (resolve other lines) =
        populate D (fun _ => none) (resolve (fun _ => none) lines) := Except.ok.inj hagrees
    have hget := congrFun hpopulate line.name
    rwa [populate_apply hD (isArray_resolve hD hlines) hname,
      populate_apply hD (isArray_resolve hD hlines) hname, Option.none_or, Option.none_or] at hget

end DotEnv

open DotEnv in
/-- For a `.env` that is parsed: processes that read the variables it refers to alike agree with
the cache that one of them has written. All processes do where no line that counts refers to a
variable, and only there if JSON can encode what processes with UTF-8 variables parse, as it can of
a UTF-8 file. -/
theorem env_cache_exact_iff {D : DotEnvSetting} (hD : D.Documented) (hJ : D.Json) :
    ∀ (contents : Bytes) (mtime : Int) (lines : List EnvLine), D.lines contents = .ok lines →
      let agrees := fun (earlier : List Environment) (env : Environment) =>
        ∀ files, files.envFile = .readable contents mtime →
          cachedValues D contents mtime files.cacheFile = none →
          Agrees D (boots D files earlier) env
      let encodable := ∀ env : Environment, env.Utf8 → Encodable D contents mtime lines env
      (∀ earlier env, (∀ other ∈ earlier, ∀ name ∈ references lines, other name = env name) →
          agrees earlier env)
        ∧ (plain lines = true → ∀ earlier env, agrees earlier env)
        ∧ (encodable → (∀ earlier env, agrees earlier env) → plain lines = true)
        ∧ (Utf8 contents → encodable) := by
  intro contents mtime lines hlines agrees encodable
  have hrun : ∀ earlier files, files.envFile = .readable contents mtime →
      cachedValues D contents mtime files.cacheFile = none →
      CacheFrom D contents mtime earlier (boots D files earlier) := by
    intro earlier files hfile hnone
    have hstart : CacheFrom D contents mtime [] files := ⟨hfile, by simp [hnone]⟩
    exact (cacheFrom_boots hD hJ hlines hstart).mono (by simp)
  refine ⟨fun earlier env halike files hfile hnone => ?_, fun hplain earlier env files hfile hnone
    => ?_, fun hencodable hall => ?_, fun hcontents env henv => ?_⟩
  · refine agrees_of_cacheFrom hD hlines (hrun earlier files hfile hnone) fun other hother => ?_
    rw [resolve_congr (halike other hother)]
  · exact agrees_of_cacheFrom hD hlines (hrun earlier files hfile hnone) fun other _ =>
      populate_resolve_of_plain hD hlines hplain other
  · by_contra hplain
    obtain ⟨other, hother⟩ := exists_disagreeing hD hJ hlines hencodable hplain
    exact hother (hall [other] (fun _ => none) _ rfl rfl)
  · exact encodable_of_utf8 hD hJ hcontents hlines henv

/-! ## A sample file -/

namespace DotEnvSample

/-- `HOST=db` and `URL=http://${HOST}`. -/
def contents : Bytes := ascii "HOST=db\nURL=http://$\x7bHOST\x7d\n"

def lines : List EnvLine :=
  [⟨ascii "HOST", [.literal (ascii "db")]⟩,
    ⟨ascii "URL", [.literal (ascii "http://"), .reference (ascii "HOST")]⟩]

/-- A process in which `HOST` is `dev`. -/
def dev : Environment := fun name => if name = ascii "HOST" then some (ascii "dev") else none

def files : EnvFiles := ⟨.readable contents 0, none, true⟩

/-- What that process caches. -/
def cache : EnvCache := ⟨0, 27, resolve dev lines⟩

def json : Bytes :=
  ascii "\x7b\"mtime\":0,\"size\":27,\"values\":" ++
    ascii "\x7b\"HOST\":\"db\",\"URL\":\"http:\\/\\/dev\"\x7d\x7d"

/-- Numbers for the other caches. -/
def number (c : EnvCache) : ℕ :=
  Encodable.encode (c.mtime, c.size, c.values.map fun entry =>
    (entry.1.map UInt8.toNat, entry.2.map UInt8.toNat))

def ofNumber (n : ℕ) : Option EnvCache :=
  (Encodable.decode (α := Int × ℕ × List (List ℕ × List ℕ)) n).map fun c =>
    ⟨c.1, c.2.1, c.2.2.map fun entry => (entry.1.map UInt8.ofNat, entry.2.map UInt8.ofNat)⟩

theorem ofNumber_number (c : EnvCache) : ofNumber (number c) = some c := by
  have hbytes : ∀ s : Bytes, (s.map UInt8.toNat).map UInt8.ofNat = s := by
    intro s
    simp [Function.comp_def]
  unfold ofNumber number
  rw [Encodable.encodek, Option.map_some, List.map_map,
    List.map_id'' fun entry => Prod.ext (hbytes entry.1) (hbytes entry.2)]

/-- Of the files this one is parsed, and of the caches that one is encoded as PHP does. -/
def setting : DotEnvSetting where
  envFile := "/app/.env"
  lines s := if s = contents then .ok lines else .error (.runtime "Format error")
  parse env s := (if s = contents then .ok lines else .error (.runtime "Format error") :
    Except Failure (List EnvLine)).map (resolve env)
  populate env values := fun name =>
    if name = marker then
      some (implode (ascii ",") ((values.map Prod.fst).filter fun name => (env name).isNone))
    else (env name).or (get values name)
  jsonEncode c := if c = cache then some json else some (List.replicate (number c) 0)
  jsonDecode raw := if raw = json then some cache else ofNumber raw.length

theorem setting_documented : setting.Documented where
  parse _ _ := rfl
  names := by
    intro s lines' h
    simp only [setting] at h
    split_ifs at h
    · obtain rfl := Except.ok.inj h
      decide
  populate env values name _ _ hname := if_neg hname
  marker env values values' _ _ _ h := by simp only [setting, if_pos, h]
  utf8 := by
    intro s lines' _ h line hline t ht
    simp only [setting] at h
    split_ifs at h
    · obtain rfl := Except.ok.inj h
      simp only [lines, List.mem_cons, List.not_mem_nil, or_false] at hline
      rcases hline with rfl | rfl
      · obtain rfl : t = ascii "db" := by simpa using ht
        exact ⟨['d', 'b'], by decide⟩
      · obtain rfl : t = ascii "http://" := by simpa using ht
        exact ⟨"http://".toList, by decide⟩

theorem setting_json : setting.Json where
  decode := by
    intro c raw _ h
    simp only [setting] at h ⊢
    split_ifs at h with hc
    · obtain rfl := Option.some.inj h
      simp [hc]
    · obtain rfl := Option.some.inj h
      have hne : List.replicate (number c) 0 ≠ json := by
        intro heq
        have hmem : (123 : UInt8) ∈ json := by decide
        rw [← heq, List.mem_replicate] at hmem
        exact absurd hmem.2 (by decide)
      simp [hne, ofNumber_number]
  encode := by
    intro c _ _
    simp only [setting]
    split_ifs <;> rfl

end DotEnvSample

open DotEnv DotEnvSample in
theorem env_cache_exact_sample :
    let agrees := fun (earlier : List Environment) (env : Environment) =>
      ∀ files, files.envFile = .readable contents 0 →
        cachedValues setting contents 0 files.cacheFile = none →
        Agrees setting (boots setting files earlier) env
    let encodable := ∀ env : Environment, env.Utf8 → Encodable setting contents 0 lines env
    (∀ earlier env, (∀ other ∈ earlier, ∀ name ∈ references lines, other name = env name) →
        agrees earlier env)
      ∧ (plain lines = true → ∀ earlier env, agrees earlier env)
      ∧ (encodable → (∀ earlier env, agrees earlier env) → plain lines = true)
      ∧ (Utf8 contents → encodable) :=
  env_cache_exact_iff setting_documented setting_json contents 0 lines rfl

open DotEnv DotEnvSample in
/-- What a process with another `HOST` has cached gives the URL of that host, the file that of its
own. -/
theorem cached_url_of_other_host :
    cachedValues setting contents 0 files.cacheFile = none
      ∧ (boots setting files [dev]).envFile = files.envFile
      ∧ (cachedValues setting contents 0 (boots setting files [dev]).cacheFile).isSome = true
      ∧ (load setting (fun _ => none) (boots setting files [dev])).toOption.bind
          (fun after => after.1 (ascii "URL")) = some (ascii "http://dev")
      ∧ (load setting (fun _ => none) files).toOption.bind
          (fun after => after.1 (ascii "URL")) = some (ascii "http://db") := by
  decide +kernel

end SlimStarter
