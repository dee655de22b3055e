import SecurityScan.Config.Load
import SecurityScan.Proofs.Overlay
import Mathlib.Data.List.Induction

namespace SecurityScan

open Setting

/-!
# Layers of a configuration

The value of a field is what the last source says about it.

* `ConfigField.said?` and `ConfigField.given?` — what a source says about a field, and what of it
  counts: all but an empty table for a field that can be written as a table;
* `ConfigField.LeftWhole` — no source puts a setting at an index of the field;
* `ConfigField.Overrides` — how the setting of a field after a source stands to that before it and
  to what the source says; `Overrides.assign` is the step, `overrides_overlay` the run;
* `ConfigField.Follows` — a value is that of the last source, or the field's own where none says
  anything; `follows_of_layered` and `setting?_layered` are the run over all sources;
* `Config.load_layered` — loaded configurations follow their sources and keep the rules, and one
  that breaks a rule is refused for the first section that does.
-/

/-- The step is a key. -/
def Setting.Step.isKey : Step → Bool
  | .key _ => true
  | .index _ => false

namespace ConfigField

variable (f : ConfigField)

/-- What a source says about the field. -/
def said? (src : Settings) : Option Setting := f.setting? (Settings.overlay [] src)

/-- The setting decides what the field is read as.  The format can be written as a table with its
    word as the only key, and an empty table leaves such a table as it is. -/
def Counts : ConfigField → Setting → Bool
  | .format, .table [] => false
  | _, _ => true

/-- What a source says about the field, if it counts. -/
def given? (src : Settings) : Option Setting := (f.said? src).filter f.Counts

/-- The place is no index of the field. -/
def leavesWhole : List Step → Bool
  | .key part :: .key key :: .index _ :: _ => !(part == f.part && key == f.key)
  | _ => true

/-- A place without indices is none. -/
theorem leavesWhole_of_isKey {path : List Step} (h : path.all Step.isKey = true) :
    f.leavesWhole path = true := by
  unfold leavesWhole
  split
  · simp [Step.isKey] at h
  · rfl

/-- No source puts a setting at an index of the field. -/
def LeftWhole (sources : List Settings) : Prop :=
  ∀ src ∈ sources, ∀ p ∈ src, f.leavesWhole (path p.1) = true

/-- The value that a setting is read as, or the value the field has where there is none. -/
def reading : Option Setting → Option f.Value
  | some v => f.read? v
  | none => some (f.get {})

variable {f} in
/-- The only field that may be read from a table is the format.  The table has one key, and what is
    under it does not matter. -/
theorem read?_table {es : Settings} {x : f.Value} (h : f.read? (.table es) = some x) :
    f = .format ∧ ∃ k v, es = [(k, v)] ∧ ∀ w, f.read? (.table [(k, w)]) = some x := by
  cases f with
  | format =>
    match es, h with
    | [(k, v)], h => exact ⟨rfl, k, v, rfl, fun _ => h⟩
  | _ => cases h

/-- The setting of a field after a source, given that before it and what the source says. -/
inductive Overrides (before : Option Setting) : Option Setting → Option Setting → Prop
  /-- The source says nothing. -/
  | nothing : Overrides before none before
  /-- The source says that the field is a table, which may have had more in it.  If the source puts
      nothing in it, it has only what it had. -/
  | table {said now : Settings} (hnodup : said.keys.Nodup) (hsub : said.keys ⊆ now.keys)
    (hrest : said = [] → now = [] ∨ before = some (.table now)) :
    Overrides before (some (.table said)) (some (.table now))
  /-- The source says something else. -/
  | value {v : Setting} (hv : v.isTable = false) : Overrides before (some v) (some v)

namespace Overrides

variable {before said now : Option Setting}

/-- What the source has put in the field is there. -/
theorem entries_subset (h : Overrides before said now) :
    Settings.keys ((said.map entries).getD []) ⊆ Settings.keys ((now.map entries).getD []) := by
  cases h with
  | nothing => exact List.nil_subset _
  | table _ hsub _ => exact hsub
  | value _ => exact List.Subset.refl _

theorem nodup_entries (h : Overrides before said now) :
    (Settings.keys ((said.map entries).getD [])).Nodup := by
  cases h with
  | nothing => exact List.nodup_nil
  | table hnodup _ _ => exact hnodup
  | @value v hv =>
    show (Settings.keys v.entries).Nodup
    rw [entries_of_not_isTable hv]
    exact List.nodup_nil

/-- If the source has put nothing in the field, there is only what was there. -/
theorem entries_eq_nil_or (h : Overrides before said now) (hsaid : (said.map entries).getD [] = []) :
    (now.map entries).getD [] = [] ∨ before = some (.table ((now.map entries).getD [])) := by
  cases h with
  | nothing =>
    match before with
    | none => exact .inl rfl
    | some v =>
      cases htable : v.isTable with
      | false => exact .inl (entries_of_not_isTable htable)
      | true => exact .inr (congrArg some (eq_table_of_isTable htable))
  | table _ _ hrest => exact hrest hsaid
  | value hv => exact .inl (entries_of_not_isTable hv)

/-- **One step.** An assignment that leaves the field whole. -/
theorem assign (h : Overrides before said now) {path : List Step} (v : Setting)
    (hpath : ∀ i rest, path ≠ .index i :: rest) :
    Overrides before (ConfigField.assign said (path, v)) (ConfigField.assign now (path, v)) := by
  match path with
  | [] =>
    show Overrides before (some (layOver said v)) (some (layOver now v))
    cases htable : v.isTable with
    | false =>
      rw [layOver_of_not_isTable htable, layOver_of_not_isTable htable]
      exact .value htable
    | true =>
      rw [eq_table_of_isTable htable, layOver_table, layOver_table]
      refine .table (nodup_keys_layEntriesOver h.nodup_entries) (fun k hk => ?_) fun hnil => ?_
      · exact mem_keys_layEntriesOver.mpr
          ((mem_keys_layEntriesOver.mp hk).imp_left (h.entries_subset ·))
      · obtain ⟨hsaid, hes⟩ := layEntriesOver_eq_nil_iff.mp hnil
        rw [hes, layEntriesOver]
        exact h.entries_eq_nil_or hsaid
  | .key k :: rest =>
    refine .table (nodup_keys_put h.nodup_entries k _) (fun k' hk => ?_) fun hnil => ?_
    · exact mem_keys_put.mpr ((mem_keys_put.mp hk).imp_right (h.entries_subset ·))
    · exact absurd hnil (Settings.ne_nil_of_mem_keys (mem_keys_put.mpr (.inl rfl)))
  | .index i :: rest => exact absurd rfl (hpath i rest)

/-- **The run.** Any number of them. -/
theorem foldl (h : Overrides before said now) {as : List (List Step × Setting)}
    (has : ∀ a ∈ as, ∀ i rest, a.1 ≠ .index i :: rest) :
    Overrides before (as.foldl ConfigField.assign said) (as.foldl ConfigField.assign now) := by
  induction as generalizing said now with
  | nil => exact h
  | cons a as ih =>
    obtain ⟨ha, has⟩ := List.forall_mem_cons.mp has
    exact ih (h.assign a.2 ha) has

variable {f} in
/-- What a source says decides what the field is read as if it counts; otherwise the reading is what
    it was. -/
theorem reading_eq {x : f.Value} (h : Overrides before said now) (hx : f.reading now = some x) :
    match said.filter f.Counts with
    | some v => f.read? v = some x
    | none => f.reading before = some x := by
  cases h with
  | nothing => exact hx
  | @table said now hnodup hsub hrest =>
    -- the table has the one key that is read, so the source can have put no other in it
    obtain ⟨rfl, k, v, rfl, hread⟩ := read?_table hx
    match said with
    | [] =>
      obtain hnil | rfl := hrest rfl
      · cases hnil
      · exact hx
    | [(l, w)] =>
      have hl : l = k := List.mem_singleton.mp (hsub List.mem_cons_self)
      subst hl
      exact hread w
    | (l, w) :: (m, u) :: es =>
      have hl : l = k := List.mem_singleton.mp (hsub List.mem_cons_self)
      have hm : m = k := List.mem_singleton.mp (hsub (List.mem_cons_of_mem _ List.mem_cons_self))
      have hnot := (List.nodup_cons.mp hnodup).1
      exact absurd (by rw [hl, hm]; exact List.mem_cons_self) hnot
  | @value v hv =>
    have hcounts : f.Counts v = true := by
      unfold Counts
      split
      · cases hv
      · rfl
    rw [Option.filter_some_pos hcounts]
    exact hx

/-- A source that does not say that the field is a table replaces what there was. -/
theorem eq_or (h : Overrides before said now) (hplain : ∀ v ∈ said, v.isTable = false) :
    now = said.or before := by
  cases h with
  | nothing => rfl
  | table => cases hplain _ rfl
  | value => rfl

end Overrides

theorem ne_index_of_mem_assignments {path : List Step} {v : Setting} {a : List Step × Setting}
    (hpath : f.leavesWhole path = true) (ha : a ∈ f.assignments path v) (i : Int)
    (rest : List Step) : a.1 ≠ .index i :: rest := by
  unfold assignments at ha
  split at ha
  · split at ha
    · obtain ⟨p, -, rfl⟩ := List.mem_map.mp ha
      exact (List.cons_ne_nil _ _).symm
    · cases ha
  · split at ha
    · next hfield =>
      rw [List.mem_singleton.mp ha]
      rintro rfl
      simp [leavesWhole, hfield] at hpath
    · cases ha
  · cases ha

/-- A source over earlier ones. -/
theorem overrides_overlay {es src : Settings} (hes : es.HasSections) (hsrc : src.SetsTables)
    (hwhole : ∀ p ∈ src, f.leavesWhole (path p.1) = true) :
    Overrides (f.setting? es) (f.said? src) (f.setting? (es.overlay src)) := by
  have hempty : Settings.HasSections [] := fun _ _ _ h => nomatch h
  rw [said?, (f.setting?_overlay hempty hsrc).2, (f.setting?_overlay hes hsrc).2]
  refine Overrides.foldl .nothing fun a ha => ?_
  obtain ⟨p, hp, ha⟩ := List.mem_flatMap.mp ha
  exact f.ne_index_of_mem_assignments (hwhole p hp) ha

end ConfigField

/-! ### All sources -/

/-- The settings that sources make up, each laid over those before it. -/
def Settings.layered (sources : List Settings) : Settings := sources.foldl Settings.overlay []

theorem Settings.layered_concat (sources : List Settings) (src : Settings) :
    layered (sources ++ [src]) = (layered sources).overlay src := by
  rw [layered, List.foldl_append]
  rfl

theorem Settings.hasSections_layered {sources : List Settings}
    (h : ∀ src ∈ sources, src.SetsTables) : (layered sources).HasSections := by
  induction sources using List.reverseRecOn with
  | nil => exact fun _ _ _ h => nomatch h
  | append_singleton sources src ih =>
    obtain ⟨hsources, hsrc⟩ := List.forall_mem_append.mp h
    rw [layered_concat]
    -- any field will do
    exact (ConfigField.host.setting?_overlay (ih hsources) (hsrc src List.mem_cons_self)).1

namespace ConfigField

variable {f : ConfigField}

/-- The value is what the last source that says something about the field is read as, or the field's
    own if none does; what a source says is up to `saying`. -/
def Follows (f : ConfigField) (saying : Settings → Option Setting) (sources : List Settings)
    (x : f.Value) : Prop :=
  match (sources.filterMap saying).getLast? with
  | some v => f.read? v = some x
  | none => x = f.get {}

instance (f : ConfigField) : DecidableEq f.Value :=
  match f with
  | .host | .level | .model => inferInstanceAs (DecidableEq String)
  | .port => inferInstanceAs (DecidableEq UInt16)
  | .requestTimeout | .bodyLimit | .reviewTimeout => inferInstanceAs (DecidableEq UInt64)
  | .allowedOrigins | .enabledAnalyzers | .excludePaths =>
    inferInstanceAs (DecidableEq (List String))
  | .format => inferInstanceAs (DecidableEq LogFormat)
  | .endpoint | .apiKey => inferInstanceAs (DecidableEq (Option String))

instance (saying : Settings → Option Setting) (sources : List Settings) (x : f.Value) :
    Decidable (f.Follows saying sources x) :=
  match h : (sources.filterMap saying).getLast? with
  | some v => decidable_of_iff (f.read? v = some x) (by rw [Follows, h])
  | none => decidable_of_iff (x = f.get {}) (by rw [Follows, h])

/-- One more source. -/
theorem LeftWhole.overrides {sources : List Settings} {src : Settings}
    (hwhole : f.LeftWhole (sources ++ [src])) (htables : ∀ s ∈ sources ++ [src], s.SetsTables) :
    Overrides (f.setting? (.layered sources)) (f.said? src)
      (f.setting? (.layered (sources ++ [src]))) := by
  have hmem : src ∈ sources ++ [src] := List.mem_append_right _ List.mem_cons_self
  rw [Settings.layered_concat]
  exact f.overrides_overlay
    (Settings.hasSections_layered fun s hs => htables s (List.mem_append_left _ hs))
    (htables src hmem) (hwhole src hmem)

/-- **The last source counts.** The value that the layered settings are read as follows the
    sources. -/
theorem follows_of_layered {sources : List Settings} (hwhole : f.LeftWhole sources)
    (htables : ∀ src ∈ sources, src.SetsTables) {x : f.Value}
    (hx : f.of? (.layered sources) = some x) : f.Follows f.given? sources x := by
  induction sources using List.reverseRecOn with
  | nil => exact (Option.some.inj hx).symm
  | append_singleton sources src ih =>
    have hread := (hwhole.overrides htables).reading_eq hx
    rw [← given?] at hread
    cases hgiven : f.given? src with
    | some v =>
      rw [hgiven] at hread
      simpa [Follows, hgiven] using hread
    | none =>
      rw [hgiven] at hread
      have hfollows := ih (fun s hs => hwhole s (List.mem_append_left _ hs))
        (fun s hs => htables s (List.mem_append_left _ hs)) hread
      simpa [Follows, hgiven] using hfollows

/-- If no source gives the field a table, its setting is exactly that of the last source that gives
    it one. -/
theorem setting?_layered {sources : List Settings} (hwhole : f.LeftWhole sources)
    (htables : ∀ src ∈ sources, src.SetsTables)
    (hplain : ∀ src ∈ sources, ∀ v ∈ f.said? src, v.isTable = false) :
    f.setting? (.layered sources) = (sources.filterMap f.said?).getLast? := by
  induction sources using List.reverseRecOn with
  | nil => rfl
  | append_singleton sources src ih =>
    have hearlier := ih (fun s hs => hwhole s (List.mem_append_left _ hs))
      (fun s hs => htables s (List.mem_append_left _ hs))
      fun s hs => hplain s (List.mem_append_left _ hs)
    rw [(hwhole.overrides htables).eq_or (hplain src (List.mem_append_right _ List.mem_cons_self)),
      hearlier, List.filterMap_append, List.getLast?_append]
    cases hsaid : f.said? src <;> simp [hsaid]

end ConfigField

/-! ### Loading -/

/-- The sources in their order: the defaults, the deployment if the environment names one, the local
    changes, and the environment. -/
theorem configSources?_eq_some_iff {files : ConfigFiles} {env : Environment}
    {sources : List Settings} :
    configSources? files env = some sources ↔ ∃ base deployment changes,
      files.settings? "default" = some base ∧
      (env.lookup "ENV").mapM files.settings? = some deployment ∧
      files.settings? "local" = some changes ∧
      sources = base :: (deployment.toList ++ [changes, env.settings]) := by
  unfold configSources? configNames
  cases env.lookup "ENV" with
  | none => simp [Option.bind_eq_some_iff, @eq_comm _ sources]
  | some name => simp [Option.bind_eq_some_iff, @eq_comm _ sources, and_assoc]

section

variable {files : ConfigFiles} {env : Environment} {sources : List Settings} {c : Config}

/-- What is loaded is read from the layered settings and keeps the rules. -/
theorem Config.of_load_eq_ok (hsources : configSources? files env = some sources)
    (hload : load files env = .ok c) :
    Config.ofSettings? (.layered sources) = some c ∧ c.check = .ok () := by
  unfold load at hload
  rw [hsources] at hload
  dsimp only at hload
  split at hload
  · cases hload
  · next c' hread =>
    split at hload
    · next hcheck =>
      cases hload
      exact ⟨hread, hcheck⟩
    · cases hload

/-- Settings that fit their fields but break a rule are refused for that rule. -/
theorem Config.load_eq_invalid {v : ConfigViolation}
    (hsources : configSources? files env = some sources)
    (hread : Config.ofSettings? (.layered sources) = some c) (hcheck : c.check = .error v) :
    load files env = .error (.invalid v) := by
  unfold load
  rw [hsources]
  rw [Settings.layered] at hread
  simp only [hread, hcheck]

end

/-- **Layers.** In a configuration that loads, every field that no source reaches into by an index
    has the value that the last source gives it, in the order of defaults, deployment, local changes
    and environment, or its own value if none does; and the configuration keeps the rules.  If the
    layered settings fit the fields but break a rule, the first section that does is the reason for
    which nothing is loaded.  The layered setting of a field to which no source gives a table is
    exactly that of the last source. -/
theorem Config.load_layered {files : ConfigFiles} {env : Environment} {sources : List Settings}
    (hsources : configSources? files env = some sources)
    (htables : ∀ src ∈ sources, src.SetsTables) :
    (∃ base deployment changes,
      files.settings? "default" = some base ∧
      (env.lookup "ENV").mapM files.settings? = some deployment ∧
      files.settings? "local" = some changes ∧
      sources = base :: (deployment.toList ++ [changes, env.settings])) ∧
    (∀ c, load files env = .ok c →
      (∀ f : ConfigField, f.LeftWhole sources → f.Follows f.given? sources (f.get c)) ∧
        c.check = .ok ()) ∧
    (∀ c v, (∀ f : ConfigField, f.of? (.layered sources) = some (f.get c)) → c.check = .error v →
      load files env = .error (.invalid v) ∧
        (c.server.check = .error v ∨
          c.server.check = .ok () ∧ c.logging.check = .error v ∨
          c.server.check = .ok () ∧ c.logging.check = .ok () ∧ c.reviewer.check = .error v)) ∧
    ∀ f : ConfigField, f.LeftWhole sources →
      (∀ src ∈ sources, ∀ v ∈ f.said? src, v.isTable = false) →
      f.setting? (.layered sources) = (sources.filterMap f.said?).getLast? := by
  have hsections := Settings.hasSections_layered htables
  refine ⟨configSources?_eq_some_iff.mp hsources, fun c hload => ?_, fun c v hfits hcheck => ?_,
    fun f hwhole hplain => ConfigField.setting?_layered hwhole htables hplain⟩
  · obtain ⟨hread, hcheck⟩ := of_load_eq_ok hsources hload
    have hfields := (ofSettings?_eq_some_iff hsections).mp hread
    exact ⟨fun f hwhole => ConfigField.follows_of_layered hwhole htables (hfields f), hcheck⟩
  · have hread := (ofSettings?_eq_some_iff hsections).mpr hfits
    exact ⟨load_eq_invalid hsources hread hcheck, check_eq_error_iff.mp hcheck⟩

/-! ### Sources at work -/

/-- The sources of files and an environment; none if a file is malformed. -/
def sourcesOf (files : ConfigFiles) (env : Environment) : List Settings :=
  (configSources? files env).getD []

theorem configSources?_eq_some_sourcesOf {files : ConfigFiles} {env : Environment}
    (h : (configSources? files env).isSome = true) :
    configSources? files env = some (sourcesOf files env) := by
  obtain ⟨sources, hsources⟩ := Option.isSome_iff_exists.mp h
  rw [sourcesOf, hsources, Option.getD_some]

/-- A file for all occasions and one for staging. -/
def stagingFiles : ConfigFiles :=
  [("default.toml", "[server]\nport = 1\nhost = \"a\"\n"),
    ("staging.toml", "[server]\nport = \"2\"\n")]

/-- An environment that names the deployment and a level. -/
def stagingEnvironment : Environment := [("ENV", "staging"), ("SCANLAB__LOGGING__LEVEL", "warn")]

/-- The port is that of the deployment, the host that of the defaults, the level that of the
    environment, and all else is as it is by default. -/
theorem Config.load_layered_staging :
    ∃ c, load stagingFiles stagingEnvironment = .ok c ∧
      c = { server := { port := 2, host := "a" }, logging := { level := "warn" } } ∧
      c.check = .ok () ∧ ∀ f : ConfigField,
        f.Follows f.given? (sourcesOf stagingFiles stagingEnvironment) (f.get c) := by
  have hsources := configSources?_eq_some_sourcesOf
    (show (configSources? stagingFiles stagingEnvironment).isSome = true by decide +kernel)
  have hentries : ∀ src ∈ sourcesOf stagingFiles stagingEnvironment, ∀ p ∈ src,
      setsTable (path p.1) p.2 = true ∧ (path p.1).all Step.isKey = true := by
    decide +kernel
  have htables : ∀ src ∈ sourcesOf stagingFiles stagingEnvironment, src.SetsTables :=
    fun src hsrc p hp => (hentries src hsrc p hp).1
  have hload : load stagingFiles stagingEnvironment =
      .ok { server := { port := 2, host := "a" }, logging := { level := "warn" } } := by
    decide +kernel
  obtain ⟨hfollows, hcheck⟩ := (load_layered hsources htables).2.1 _ hload
  refine ⟨_, hload, rfl, hcheck, fun f => hfollows f fun src hsrc p hp => ?_⟩
  exact f.leavesWhole_of_isKey (hentries src hsrc p hp).2

/-- Two ways in which a field does not have the value that the last source gives it.  An index in a
    name changes one item of a list and leaves the others; and an empty table for the format leaves
    the table with its word. -/
theorem Config.load_departs :
    (∃ (files : ConfigFiles) (env : Environment) (sources : List Settings) (c : Config),
      configSources? files env = some sources ∧ (∀ src ∈ sources, src.SetsTables) ∧
      load files env = .ok c ∧ c.server.allowedOrigins = ["x", "b"] ∧
      ¬ ConfigField.allowedOrigins.Follows ConfigField.allowedOrigins.said? sources
        (ConfigField.allowedOrigins.get c)) ∧
    ∃ (files : ConfigFiles) (env : Environment) (sources : List Settings) (c : Config),
      configSources? files env = some sources ∧ (∀ src ∈ sources, src.SetsTables) ∧
      load files env = .ok c ∧ c.logging.format = .json ∧
      ¬ ConfigField.format.Follows ConfigField.format.said? sources (ConfigField.format.get c) := by
  constructor
  · exact ⟨[("default.toml", "[server]\nallowed_origins = [\"a\", \"b\"]\n")],
      [("SCANLAB__SERVER__ALLOWED_ORIGINS[0]", "x")], sourcesOf _ _,
      { server := { allowedOrigins := ["x", "b"] } },
      configSources?_eq_some_sourcesOf (by decide +kernel), by decide +kernel, by decide +kernel,
      rfl, by decide +kernel⟩
  · exact ⟨[("default.toml", "[logging.format]\njson = 1\n"), ("local.toml", "[logging.format]\n")],
      [], sourcesOf _ _, { logging := { format := .json } },
      configSources?_eq_some_sourcesOf (by decide +kernel), by decide +kernel, by decide +kernel,
      rfl, by decide +kernel⟩

end SecurityScan
