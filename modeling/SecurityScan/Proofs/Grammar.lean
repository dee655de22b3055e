import SecurityScan.Proofs.Listing
import SecurityScan.Proofs.Occurrence
import SecurityScan.Proofs.Pointer

namespace SecurityScan.Specification

/-!
# What the validator accepts

The documents of the older versions that are valid, and what is wrong with each of the others, said
without the checks.

* `States` — the version that a document states;
* `Grammar` — what makes a document of an older version valid: it is an object, states its version,
  has the information and the paths it needs, and its references lead to places inside it;
* `VersionViolation`, `InfoViolation`, `PathsViolation` and `ReferenceViolation` — the ways in which
  a document can miss each of these;
* `FirstViolation` — a violation of one part while the parts before it are met;
* `Decides` — a check passes exactly as one statement says and fails exactly as another one says;
* `versionOf_decides`, `checkInfo_decides`, `checkPaths_decides` and `checkReferences_decides` — each
  check is decided by its part of the grammar and the violations of that part;
* `validate_iff_grammar` — the validator accepts the grammar, and reports the first violation of
  everything else.
-/

/-! ### The grammar -/

/-- No string stands there. -/
def NoString (v : Option Json) : Prop := ∀ s, v ≠ some (.str s)

/-- A document states a version: under `swagger` or, if no string stands there, as the start of the
    string under `openapi`. -/
inductive States (doc : Json) : Version → Prop where
  | swagger2 : doc.get? "swagger" = some (.str "2.0") → States doc .swagger2
  | openApi30 {v : String} : NoString (doc.get? "swagger") →
      doc.get? "openapi" = some (.str v) → "3.0.".toList <+: v.toList → States doc .openApi30
  | openApi31 {v : String} : NoString (doc.get? "swagger") →
      doc.get? "openapi" = some (.str v) → "3.1.".toList <+: v.toList → States doc .openApi31

/-- The document states one of the versions without a model. -/
def StatesOlder (doc : Json) : Prop := States doc .swagger2 ∨ States doc .openApi30

/-- There is information with a title and a version. -/
def HasInfo (doc : Json) : Prop :=
  ∃ (info : Members) (title version : String), doc.get? "info" = some (.obj info) ∧
    info.get? "title" = some (.str title) ∧ info.get? "version" = some (.str version)

/-- A path starts with a slash and leads to an object. -/
def IsPathItem (e : String × Json) : Prop := "/".toList <+: e.1.toList ∧ ∃ item, e.2 = .obj item

/-- There is an object of paths, each of them as it should be. -/
def HasPaths (doc : Json) : Prop :=
  ∃ ms : Members, doc.get? "paths" = some (.obj ms) ∧ ∀ e ∈ ms, IsPathItem e

/-- A reference leads to a place in its document: it is a hash sign and a pointer that locates
    something. -/
def LeadsInside (doc : Json) (r : String) : Prop :=
  ∃ text target, r.toList = '#' :: text ∧ Locates doc text target

/-- The valid documents of the older versions. -/
structure Grammar (doc : Json) : Prop where
  root : ∃ ms, doc = .obj ms
  version : StatesOlder doc
  info : HasInfo doc
  paths : HasPaths doc
  /-- Wherever a reference stands, whatever stands beside it and above it. -/
  references : ∀ place r, RefAt doc place r → LeadsInside doc r

/-! ### Violations -/

/-- The document states no supported version. -/
inductive VersionViolation (doc : Json) : Violation → Prop where
  | swagger {v : String} : doc.get? "swagger" = some (.str v) → v ≠ "2.0" →
      VersionViolation doc (.unsupportedSwagger v)
  | missing : NoString (doc.get? "swagger") → doc.get? "openapi" = none →
      VersionViolation doc .noVersion
  | openApi {v : String} : NoString (doc.get? "swagger") → doc.get? "openapi" = some (.str v) →
      ¬ "3.0.".toList <+: v.toList → ¬ "3.1.".toList <+: v.toList →
      VersionViolation doc (.unsupportedOpenApi v)
  | notString {v : Json} : NoString (doc.get? "swagger") → doc.get? "openapi" = some v →
      (∀ s, v ≠ .str s) → VersionViolation doc .versionNotString

/-- The information or one of its fields is missing, the title before the version. -/
inductive InfoViolation (doc : Json) : Violation → Prop where
  | info : (∀ ms, doc.get? "info" ≠ some (.obj ms)) → InfoViolation doc .noInfo
  | title {info : Members} : doc.get? "info" = some (.obj info) → NoString (info.get? "title") →
      InfoViolation doc (.noInfoField "title")
  | version {info : Members} {title : String} : doc.get? "info" = some (.obj info) →
      info.get? "title" = some (.str title) → NoString (info.get? "version") →
      InfoViolation doc (.noInfoField "version")

/-- What is wrong with a path: its slash comes before its item. -/
inductive EntryViolation : String × Json → Violation → Prop where
  | slash {path : String} {item : Json} : ¬ "/".toList <+: path.toList →
      EntryViolation (path, item) (.pathWithoutSlash path)
  | object {path : String} {item : Json} : "/".toList <+: path.toList → (∀ ms, item ≠ .obj ms) →
      EntryViolation (path, item) (.pathItemNotObject path)

/-- There is no object of paths, or something is wrong with the first path that is not as it
    should be. -/
inductive PathsViolation (doc : Json) : Violation → Prop where
  | missing : doc.get? "paths" = none → PathsViolation doc .noPaths
  | shape {v : Json} : doc.get? "paths" = some v → (∀ ms, v ≠ .obj ms) →
      PathsViolation doc .pathsNotObject
  | entry {ms : Members} {front back : List (String × Json)} {e : String × Json} {v : Violation} :
      doc.get? "paths" = some (.obj ms) → (Json.obj ms).entries = front ++ e :: back →
      (∀ e' ∈ front, IsPathItem e') → EntryViolation e v → PathsViolation doc v

/-- Why a reference does not lead to a place in its document. -/
inductive Broken (doc : Json) (r : String) : BrokenReference → Prop where
  | external : (∀ text, r.toList ≠ '#' :: text) → Broken doc r .external
  | dangling {text : List Char} : r.toList = '#' :: text → (∀ target, ¬ Locates doc text target) →
      Broken doc r .dangling

/-- The reference at the least place of those that are broken. -/
inductive ReferenceViolation (doc : Json) : Violation → Prop where
  | first {place : List Nat} {r : String} {why : BrokenReference} : RefAt doc place r →
      Broken doc r why →
      (∀ place' r', RefAt doc place' r' → place' < place → LeadsInside doc r') →
      ReferenceViolation doc (.brokenReference r why)

/-- A violation of one part of the grammar in a document that meets the parts before it. -/
inductive FirstViolation (doc : Json) : Violation → Prop where
  | root : (∀ ms, doc ≠ .obj ms) → FirstViolation doc .rootNotObject
  | version {ms : Members} {v : Violation} : doc = .obj ms → VersionViolation doc v →
      FirstViolation doc v
  | info {ms : Members} {v : Violation} : doc = .obj ms → StatesOlder doc → InfoViolation doc v →
      FirstViolation doc v
  | paths {ms : Members} {v : Violation} : doc = .obj ms → StatesOlder doc → HasInfo doc →
      PathsViolation doc v → FirstViolation doc v
  | references {ms : Members} {v : Violation} : doc = .obj ms → StatesOlder doc → HasInfo doc →
      HasPaths doc → ReferenceViolation doc v → FirstViolation doc v

/-! ### Checks that are decided by statements -/

section

variable {ε α β : Type} {x : Except ε α} {P : α → Prop} {B : ε → Prop}

/-- A check gives exactly the results that `P` says and fails in exactly the ways that `B` says. -/
structure Decides (x : Except ε α) (P : α → Prop) (B : ε → Prop) : Prop where
  ok_iff : ∀ {a}, x = .ok a ↔ P a
  error_iff : ∀ {e}, x = .error e ↔ B e

/-- It is enough that the check does as the statements say, if one of them says something. -/
theorem Decides.of_total (hok : ∀ a, P a → x = .ok a) (herror : ∀ e, B e → x = .error e)
    (htotal : (∃ a, P a) ∨ ∃ e, B e) : Decides x P B := by
  constructor
  · refine fun {a} => ⟨fun hx => ?_, hok a⟩
    rcases htotal with ⟨b, hb⟩ | ⟨e, he⟩
    · rw [hok b hb, Except.ok.injEq] at hx
      exact hx ▸ hb
    · rw [herror e he] at hx
      cases hx
  · refine fun {e} => ⟨fun hx => ?_, herror e⟩
    rcases htotal with ⟨b, hb⟩ | ⟨e', he⟩
    · rw [hok b hb] at hx
      cases hx
    · rw [herror e' he, Except.error.injEq] at hx
      exact hx ▸ he

/-- One check after the other fails as the first one or, after its result, as the second one. -/
theorem Decides.bind {f : α → Except ε β} {Q : β → Prop} {C : ε → Prop} (hx : Decides x P B)
    (hf : ∀ a, P a → Decides (f a) Q C) :
    Decides (x >>= f) (fun b => (∃ a, P a) ∧ Q b) (fun e => B e ∨ (∃ a, P a) ∧ C e) := by
  cases x with
  | ok a =>
    -- the first check cannot have failed, so all rests with the second one
    have hP : P a := hx.ok_iff.mp rfl
    have hB : ∀ e, ¬ B e := fun e he => nomatch hx.error_iff.mpr he
    constructor
    · intro b
      exact (hf a hP).ok_iff.trans ⟨fun h => ⟨⟨a, hP⟩, h⟩, fun h => h.2⟩
    · intro e
      refine (hf a hP).error_iff.trans ⟨fun h => .inr ⟨⟨a, hP⟩, h⟩, fun h => ?_⟩
      exact (h.resolve_left (hB e)).2
  | error e =>
    -- the second check is not made
    have hB : B e := hx.error_iff.mp rfl
    have hP : ¬ ∃ a, P a := fun ⟨a, ha⟩ => nomatch hx.ok_iff.mpr ha
    constructor
    · intro b
      exact ⟨fun h => (nomatch h), fun h => absurd h.1 hP⟩
    · intro e'
      have hsame : ((Except.error e : Except ε α) >>= f) = .error e' ↔
          (Except.error e : Except ε α) = .error e' := by
        simp [Bind.bind, Except.bind]
      rw [hsame, hx.error_iff]
      exact ⟨.inl, fun h => h.resolve_right fun h => hP h.1⟩

end

/-! ### The version -/

theorem isObj_iff {v : Json} : v.isObj = true ↔ ∃ ms, v = .obj ms := by
  cases v <;> simp [Json.isObj]

theorem bind_asStr?_eq_some_iff {v : Option Json} {s : String} :
    v.bind Json.asStr? = some s ↔ v = some (.str s) := by
  cases v with
  | none => simp
  | some v => cases v <;> simp [Json.asStr?]

theorem bind_asStr?_eq_none_iff {v : Option Json} : v.bind Json.asStr? = none ↔ NoString v := by
  unfold NoString
  rw [Option.eq_none_iff_forall_ne_some]
  exact forall_congr' fun s => not_congr bind_asStr?_eq_some_iff

/-- Something stands there as a string, or no string stands there. -/
theorem exists_string_or_noString (v : Option Json) : (∃ s, v = some (.str s)) ∨ NoString v := by
  cases h : v.bind Json.asStr? with
  | some s => exact .inl ⟨s, bind_asStr?_eq_some_iff.mp h⟩
  | none => exact .inr (bind_asStr?_eq_none_iff.mp h)

theorem versionOf_of_string {doc : Json} {v : String} (h : doc.get? "swagger" = some (.str v)) :
    versionOf doc = if v = "2.0" then .ok .swagger2 else .error (.unsupportedSwagger v) := by
  rw [versionOf, bind_asStr?_eq_some_iff.mpr h]

theorem versionOf_of_openApi {doc : Json} {v : String} (hno : NoString (doc.get? "swagger"))
    (h : doc.get? "openapi" = some (.str v)) :
    versionOf doc = if v.startsWith "3.0." then .ok .openApi30
      else if v.startsWith "3.1." then .ok .openApi31
      else .error (.unsupportedOpenApi v) := by
  rw [versionOf, bind_asStr?_eq_none_iff.mpr hno, h]

theorem versionOf_of_states {doc : Json} {version : Version} (h : States doc version) :
    versionOf doc = .ok version := by
  cases h with
  | swagger2 h => rw [versionOf_of_string h, if_pos rfl]
  | openApi30 hno hopen h30 =>
    rw [versionOf_of_openApi hno hopen, if_pos (String.startsWith_string_iff.mpr h30)]
  | openApi31 hno hopen h31 =>
    -- no text starts in both ways
    have h30 : ¬ "3.0.".toList <+: _ := fun h30 => by
      have hsame := List.prefix_of_prefix_length_le h30 h31 (by decide)
      revert hsame
      decide
    rw [versionOf_of_openApi hno hopen, if_neg (fun h => h30 (String.startsWith_string_iff.mp h)),
      if_pos (String.startsWith_string_iff.mpr h31)]

theorem versionOf_of_violation {doc : Json} {v : Violation} (h : VersionViolation doc v) :
    versionOf doc = .error v := by
  cases h with
  | swagger h hne => rw [versionOf_of_string h, if_neg hne]
  | missing hno hopen => rw [versionOf, bind_asStr?_eq_none_iff.mpr hno, hopen]
  | openApi hno hopen h30 h31 =>
    rw [versionOf_of_openApi hno hopen, if_neg (fun h => h30 (String.startsWith_string_iff.mp h)),
      if_neg (fun h => h31 (String.startsWith_string_iff.mp h))]
  | @notString w hno hopen hne =>
    rw [versionOf, bind_asStr?_eq_none_iff.mpr hno, hopen]
    cases w with
    | str s => exact absurd rfl (hne s)
    | null | bool | num | arr | obj => rfl

/-- A version is stated or missed. -/
theorem states_or_violation (doc : Json) :
    (∃ version, States doc version) ∨ ∃ v, VersionViolation doc v := by
  rcases exists_string_or_noString (doc.get? "swagger") with ⟨v, hv⟩ | hno
  · by_cases h2 : v = "2.0"
    · exact .inl ⟨_, .swagger2 (h2 ▸ hv)⟩
    · exact .inr ⟨_, .swagger hv h2⟩
  · rcases exists_string_or_noString (doc.get? "openapi") with ⟨v, hv⟩ | hnone
    · by_cases h30 : "3.0.".toList <+: v.toList
      · exact .inl ⟨_, .openApi30 hno hv h30⟩
      · by_cases h31 : "3.1.".toList <+: v.toList
        · exact .inl ⟨_, .openApi31 hno hv h31⟩
        · exact .inr ⟨_, .openApi hno hv h30 h31⟩
    · cases hopen : doc.get? "openapi" with
      | none => exact .inr ⟨_, .missing hno hopen⟩
      | some w => exact .inr ⟨_, .notString hno hopen fun s h => hnone s (by rw [hopen, h])⟩

theorem versionOf_decides (doc : Json) :
    Decides (versionOf doc) (States doc) (VersionViolation doc) :=
  .of_total (fun _ => versionOf_of_states) (fun _ => versionOf_of_violation)
    (states_or_violation doc)

/-! ### The information -/

theorem checkInfo_of_hasInfo {doc : Json} (h : HasInfo doc) : checkInfo doc = .ok () := by
  obtain ⟨info, title, version, hinfo, htitle, hversion⟩ := h
  have ht : ((Json.obj info).get? "title").bind Json.asStr? = some title :=
    bind_asStr?_eq_some_iff.mpr htitle
  have hv : ((Json.obj info).get? "version").bind Json.asStr? = some version :=
    bind_asStr?_eq_some_iff.mpr hversion
  rw [checkInfo, hinfo]
  simp [Json.isObj, ht, hv]

theorem checkInfo_of_violation {doc : Json} {v : Violation} (h : InfoViolation doc v) :
    checkInfo doc = .error v := by
  cases h with
  | info h =>
    rw [checkInfo]
    cases hinfo : doc.get? "info" with
    | none => rfl
    | some info =>
      cases info with
      | obj ms => exact absurd hinfo (h ms)
      | null | bool | num | str | arr => rfl
  | @title info hinfo htitle =>
    have ht : ((Json.obj info).get? "title").bind Json.asStr? = none :=
      bind_asStr?_eq_none_iff.mpr htitle
    rw [checkInfo, hinfo]
    simp [Json.isObj, ht]
  | @version info title hinfo htitle hversion =>
    have ht : ((Json.obj info).get? "title").bind Json.asStr? = some title :=
      bind_asStr?_eq_some_iff.mpr htitle
    have hv : ((Json.obj info).get? "version").bind Json.asStr? = none :=
      bind_asStr?_eq_none_iff.mpr hversion
    rw [checkInfo, hinfo]
    simp [Json.isObj, ht, hv]

/-- The information is there or misses something. -/
theorem hasInfo_or_violation (doc : Json) : HasInfo doc ∨ ∃ v, InfoViolation doc v := by
  by_cases hinfo : ∃ info, doc.get? "info" = some (.obj info)
  · obtain ⟨info, hinfo⟩ := hinfo
    rcases exists_string_or_noString (Members.get? info "title") with ⟨title, htitle⟩ | hno
    · rcases exists_string_or_noString (Members.get? info "version") with ⟨version, hversion⟩ | hno
      · exact .inl ⟨info, title, version, hinfo, htitle, hversion⟩
      · exact .inr ⟨_, .version hinfo htitle hno⟩
    · exact .inr ⟨_, .title hinfo hno⟩
  · exact .inr ⟨_, .info fun ms h => hinfo ⟨ms, h⟩⟩

theorem checkInfo_decides (doc : Json) :
    Decides (checkInfo doc) (fun _ => HasInfo doc) (InfoViolation doc) :=
  .of_total (fun _ => checkInfo_of_hasInfo) (fun _ => checkInfo_of_violation)
    ((hasInfo_or_violation doc).imp_left fun h => ⟨(), h⟩)

/-! ### The paths -/

theorem isPathItem_iff {e : String × Json} :
    IsPathItem e ↔ e.1.startsWith "/" = true ∧ e.2.isObj = true := by
  rw [IsPathItem, String.startsWith_string_iff, isObj_iff]

/-- Something is wrong with what is not as it should be. -/
theorem exists_entryViolation {e : String × Json} (h : ¬ IsPathItem e) :
    ∃ v, EntryViolation e v := by
  obtain ⟨path, item⟩ := e
  by_cases hslash : "/".toList <+: path.toList
  · exact ⟨_, .object hslash fun ms hitem => h ⟨hslash, ms, hitem⟩⟩
  · exact ⟨_, .slash hslash⟩

theorem checkPathItems_cons_of_violation {e : String × Json} {v : Violation}
    (h : EntryViolation e v) (es : List (String × Json)) : checkPathItems (e :: es) = .error v := by
  cases h with
  | slash hslash =>
    rw [checkPathItems, if_pos]
    simpa using hslash
  | @object path item hslash hobj =>
    have hstart : path.startsWith "/" = true := String.startsWith_string_iff.mpr hslash
    have hitem : item.isObj = false :=
      Bool.eq_false_iff.mpr fun h => by
        obtain ⟨ms, hms⟩ := isObj_iff.mp h
        exact hobj ms hms
    rw [checkPathItems, hstart, hitem]
    rfl

theorem checkPathItems_append {front : List (String × Json)} (h : ∀ e ∈ front, IsPathItem e)
    (es : List (String × Json)) : checkPathItems (front ++ es) = checkPathItems es := by
  induction front with
  | nil => rfl
  | cons e front ih =>
    obtain ⟨he, hfront⟩ := List.forall_mem_cons.mp h
    obtain ⟨hslash, hobj⟩ := isPathItem_iff.mp he
    rw [List.cons_append, checkPathItems, hslash, hobj]
    exact ih hfront

theorem checkPaths_of_hasPaths {doc : Json} (version : Version) (h : HasPaths doc) :
    checkPaths doc version = .ok () := by
  obtain ⟨ms, hpaths, hitems⟩ := h
  rw [checkPaths, hpaths]
  exact checkPathItems_eq_ok_iff.mpr fun e he =>
    isPathItem_iff.mp (hitems e (Json.mem_entries.mp he))

theorem checkPaths_of_violation {doc : Json} {version : Version} (hversion : version ≠ .openApi31)
    {v : Violation} (h : PathsViolation doc v) : checkPaths doc version = .error v := by
  cases h with
  | missing hpaths =>
    rw [checkPaths, hpaths]
    exact if_neg hversion
  | @shape w hpaths hne =>
    rw [checkPaths, hpaths]
    cases w with
    | obj ms => exact absurd rfl (hne ms)
    | null | bool | num | str | arr => rfl
  | entry hpaths hentries hfront hentry =>
    rw [checkPaths, hpaths]
    show checkPathItems (Json.obj _).entries = _
    rw [hentries, checkPathItems_append hfront, checkPathItems_cons_of_violation hentry]

/-- The paths are there or something is wrong with the first one that is not as it should be. -/
theorem hasPaths_or_violation (doc : Json) : HasPaths doc ∨ ∃ v, PathsViolation doc v := by
  classical
  cases hpaths : doc.get? "paths" with
  | none => exact .inr ⟨_, .missing hpaths⟩
  | some w =>
    by_cases hobj : ∃ ms, w = .obj ms
    · obtain ⟨ms, rfl⟩ := hobj
      cases hfind : (Json.obj ms).entries.find? fun e => !decide (IsPathItem e) with
      | none =>
        refine .inl ⟨ms, hpaths, fun e he => ?_⟩
        simpa using List.find?_eq_none.mp hfind e (Json.mem_entries.mpr he)
      | some e =>
        obtain ⟨hbad, front, back, hentries, hfront⟩ := List.find?_eq_some_iff_append.mp hfind
        obtain ⟨v, hv⟩ := exists_entryViolation (e := e) (by simpa using hbad)
        refine .inr ⟨v, .entry hpaths hentries (fun e' he' => ?_) hv⟩
        simpa using hfront e' he'
    · exact .inr ⟨_, .shape hpaths fun ms h => hobj ⟨ms, h⟩⟩

theorem checkPaths_decides (doc : Json) {version : Version} (hversion : version ≠ .openApi31) :
    Decides (checkPaths doc version) (fun _ => HasPaths doc) (PathsViolation doc) :=
  .of_total (fun _ => checkPaths_of_hasPaths version)
    (fun _ => checkPaths_of_violation hversion)
    ((hasPaths_or_violation doc).imp_left fun h => ⟨(), h⟩)

/-! ### The references -/

/-- A pointer into the document, and what it locates. -/
theorem pointer?_ofList_eq_some_iff {doc target : Json} {text : List Char} :
    doc.pointer? (String.ofList text) = some target ↔ Locates doc text target := by
  rw [pointer?_eq_some_iff, String.toList_ofList]

theorem targetOf_of_locates {doc target : Json} {r : String} {text : List Char}
    (hr : r.toList = '#' :: text) (h : Locates doc text target) :
    targetOf doc r = .ok target := by
  have hpointer := pointer?_ofList_eq_some_iff.mpr h
  simp only [targetOf, hr, hpointer]

theorem targetOf_of_broken {doc : Json} {r : String} {why : BrokenReference}
    (h : Broken doc r why) : targetOf doc r = .error why := by
  cases h with
  | external hr =>
    unfold targetOf
    split
    · next text heq => exact absurd heq (hr text)
    · rfl
  | @dangling text hr hnone =>
    have hpointer : doc.pointer? (String.ofList text) = none :=
      Option.eq_none_iff_forall_ne_some.mpr fun target h =>
        hnone target (pointer?_ofList_eq_some_iff.mp h)
    simp only [targetOf, hr, hpointer]

/-- A reference leads to a place in the document or is broken. -/
theorem leadsInside_or_broken (doc : Json) (r : String) :
    LeadsInside doc r ∨ ∃ why, Broken doc r why := by
  by_cases hr : ∃ text, r.toList = '#' :: text
  · obtain ⟨text, hr⟩ := hr
    by_cases h : ∃ target, Locates doc text target
    · obtain ⟨target, h⟩ := h
      exact .inl ⟨text, target, hr, h⟩
    · exact .inr ⟨_, .dangling hr fun target hat => h ⟨target, hat⟩⟩
  · exact .inr ⟨_, .external fun text htext => hr ⟨text, htext⟩⟩

theorem targetOf_decides (doc : Json) (r : String) :
    Decides (targetOf doc r)
      (fun target => ∃ text, r.toList = '#' :: text ∧ Locates doc text target)
      (Broken doc r) := by
  refine .of_total (fun _ ⟨_, hr, h⟩ => targetOf_of_locates hr h) (fun _ => targetOf_of_broken) ?_
  refine (leadsInside_or_broken doc r).imp_left ?_
  rintro ⟨text, target, hr, h⟩
  exact ⟨target, text, hr, h⟩

theorem exists_targetOf_iff {doc : Json} {r : String} :
    (∃ target, targetOf doc r = .ok target) ↔ LeadsInside doc r := by
  constructor
  · rintro ⟨target, h⟩
    obtain ⟨text, hr, hat⟩ := (targetOf_decides doc r).ok_iff.mp h
    exact ⟨text, target, hr, hat⟩
  · rintro ⟨text, target, hr, hat⟩
    exact ⟨target, targetOf_of_locates hr hat⟩

/-- The check reports the first reference that leads nowhere. -/
theorem checkReferences_eq_error_iff {doc : Json} {rs : List String} {v : Violation} :
    checkReferences doc rs = .error v ↔
      ∃ r why, rs.find? (fun r => !(targetOf doc r).isOk) = some r ∧ targetOf doc r = .error why ∧
        v = .brokenReference r why := by
  induction rs with
  | nil => simp [checkReferences]
  | cons r rs ih =>
    rw [checkReferences]
    cases ht : targetOf doc r with
    | ok target =>
      rw [List.find?_cons_of_neg (by simp [ht, Except.isOk, Except.toBool])]
      exact ih
    | error why =>
      rw [List.find?_cons_of_pos (by simp [ht, Except.isOk, Except.toBool])]
      constructor
      · intro h
        exact ⟨r, why, rfl, ht, (Except.error.inj h).symm⟩
      · rintro ⟨_, _, hr, ht', rfl⟩
        rw [← Option.some.inj hr, ht] at ht'
        rw [← Option.some.inj hr, Except.error.inj ht']

theorem isOk_targetOf_iff {doc : Json} {r : String} :
    (targetOf doc r).isOk = true ↔ LeadsInside doc r := by
  rw [← exists_targetOf_iff]
  cases targetOf doc r <;> simp [Except.isOk, Except.toBool]

theorem checkReferences_decides (doc : Json) :
    Decides (checkReferences doc (references doc))
      (fun _ => ∀ place r, RefAt doc place r → LeadsInside doc r) (ReferenceViolation doc) := by
  constructor
  · rintro ⟨⟩
    rw [checkReferences_eq_ok_iff]
    constructor
    · intro h place r hr
      exact exists_targetOf_iff.mp (h r (mem_references_iff.mpr ⟨place, hr⟩))
    · intro h r hr
      obtain ⟨place, hplace⟩ := mem_references_iff.mp hr
      exact exists_targetOf_iff.mpr (h place r hplace)
  · intro v
    rw [checkReferences_eq_error_iff]
    -- the references are listed in the order of their places
    constructor
    · rintro ⟨r, why, hfind, ht, rfl⟩
      obtain ⟨place, hplace, -, hleast⟩ := find?_references_iff.mp hfind
      refine .first hplace ((targetOf_decides doc r).error_iff.mp ht) fun place' r' hr' hlt => ?_
      exact isOk_targetOf_iff.mp (by simpa using hleast place' r' hr' hlt)
    · rintro @⟨place, r, why, hplace, hbroken, hleast⟩
      have ht := targetOf_of_broken hbroken
      refine ⟨r, why, find?_references_iff.mpr ⟨place, hplace, ?_, fun place' r' hr' hlt => ?_⟩,
        ht, rfl⟩
      · simp [ht, Except.isOk, Except.toBool]
      · simpa using isOk_targetOf_iff.mpr (hleast place' r' hr' hlt)

/-! ### The validator -/

theorem validate_of_not_obj {doc : Json} (h : ∀ ms, doc ≠ .obj ms) :
    validate doc = .error .rootNotObject := by
  cases doc with
  | obj ms => exact absurd rfl (h ms)
  | null | bool | num | str | arr => rfl

/-- The checks of an object, one after the other. -/
theorem validate_obj (ms : Members) :
    validate (.obj ms) = versionOf (.obj ms) >>= fun version =>
      checkInfo (.obj ms) >>= fun _ => checkPaths (.obj ms) version >>= fun _ =>
        checkReferences (.obj ms) (references (.obj ms)) >>= fun _ =>
          if version = .openApi31 && !Model.isSpecification (.obj ms) then .error .notOfModel
          else .ok () := by
  rfl

/-- What the checks of an object amount to, if it does not state a version with a model. -/
theorem validate_obj_decides {ms : Members} (h31 : ¬ States (.obj ms) .openApi31) :
    Decides (validate (.obj ms)) (fun _ => Grammar (.obj ms)) (FirstViolation (.obj ms)) := by
  -- the last check is made only of documents of version 3.1
  have hmodel : ∀ version : Version, version ≠ .openApi31 →
      Decides (if version = .openApi31 && !Model.isSpecification (.obj ms) then
        .error Violation.notOfModel else .ok ()) (fun _ => True) (fun _ => False) := by
    intro version hne
    refine .of_total (fun _ _ => ?_) (fun _ h => h.elim) (.inl ⟨(), trivial⟩)
    rw [if_neg (by simp [hne])]
  have hchecks := (versionOf_decides (.obj ms)).bind fun version hversion =>
    have hne : version ≠ .openApi31 := fun h => h31 (h ▸ hversion)
    (checkInfo_decides (.obj ms)).bind fun _ _ => (checkPaths_decides (.obj ms) hne).bind
      fun _ _ => (checkReferences_decides (.obj ms)).bind fun _ _ => hmodel version hne
  -- of the versions that a document can state, the hypothesis leaves the older ones
  have holder : (∃ version, States (.obj ms) version) ↔ StatesOlder (.obj ms) := by
    constructor
    · rintro ⟨version | version | version, h⟩
      · exact .inl h
      · exact .inr h
      · exact absurd h h31
    · rintro (h | h)
      · exact ⟨_, h⟩
      · exact ⟨_, h⟩
  rw [← validate_obj] at hchecks
  constructor
  · intro _
    rw [hchecks.ok_iff, holder]
    constructor
    · rintro ⟨hversion, ⟨_, hinfo⟩, ⟨_, hpaths⟩, ⟨_, hreferences⟩, _⟩
      exact ⟨⟨ms, rfl⟩, hversion, hinfo, hpaths, hreferences⟩
    · rintro ⟨_, hversion, hinfo, hpaths, hreferences⟩
      exact ⟨hversion, ⟨(), hinfo⟩, ⟨(), hpaths⟩, ⟨(), hreferences⟩, trivial⟩
  · intro v
    rw [hchecks.error_iff, holder]
    constructor
    · rintro (h | ⟨hversion, h | ⟨⟨_, hinfo⟩, h | ⟨⟨_, hpaths⟩, h | ⟨_, ⟨⟩⟩⟩⟩⟩)
      · exact .version rfl h
      · exact .info rfl hversion h
      · exact .paths rfl hversion hinfo h
      · exact .references rfl hversion hinfo hpaths h
    · intro h
      cases h with
      | root hne => exact absurd rfl (hne ms)
      | version _ h => exact .inl h
      | info _ hversion h => exact .inr ⟨hversion, .inl h⟩
      | paths _ hversion hinfo h => exact .inr ⟨hversion, .inr ⟨⟨(), hinfo⟩, .inl h⟩⟩
      | references _ hversion hinfo hpaths h =>
        exact .inr ⟨hversion, .inr ⟨⟨(), hinfo⟩, .inr ⟨⟨(), hpaths⟩, .inl h⟩⟩⟩

/-- **The validator.** A document that does not state version 3.1 is accepted exactly if it is in
    the grammar.  Otherwise the violation that is reported is one of the first part of the grammar
    that the document misses, there the one of the first path or reference that is not as it should
    be. -/
theorem validate_iff_grammar {doc : Json} (h31 : ¬ States doc .openApi31) :
    (validate doc = .ok () ↔ Grammar doc) ∧
      ∀ v, validate doc = .error v ↔ FirstViolation doc v := by
  by_cases hobj : ∃ ms, doc = .obj ms
  · obtain ⟨ms, rfl⟩ := hobj
    have hdecides := validate_obj_decides h31
    exact ⟨hdecides.ok_iff, fun _ => hdecides.error_iff⟩
  · have hne : ∀ ms, doc ≠ .obj ms := fun ms h => hobj ⟨ms, h⟩
    have hgrammar : ¬ Grammar doc := fun h => hobj h.root
    rw [validate_of_not_obj hne]
    refine ⟨⟨fun h => (nomatch h), fun h => absurd h hgrammar⟩, fun v => ⟨?_, ?_⟩⟩
    · rintro ⟨⟩
      exact .root hne
    · intro h
      cases h with
      | root => rfl
      | version h => exact absurd h (hne _)
      | info h => exact absurd h (hne _)
      | paths h => exact absurd h (hne _)
      | references h => exact absurd h (hne _)

/-- References in an array, beside another key and below a `$ref` that is no string; they lead
    through an escaped slash and the number of an item. -/
def nestedReferences : Json := documentWith [
  ("paths", .obj [("/a", .obj [("parameters",
    .arr [.null, .obj [("name", .str "n"), (refKey, .str "#/components/a~1b/0")]])])]),
  ("components", .obj [("a/b", .arr [.obj [(refKey, .obj [(refKey, .str "#/paths/~1a")])]])])]

/-- A reference to another document, before one that leads nowhere. -/
def externalReference : Json := documentWith [
  ("paths", .obj []),
  ("components", .obj [
    ("a", .arr [.obj [(refKey, .str "#")], .obj [(refKey, .str "other.json#/b")]]),
    ("b", .obj [(refKey, .str "#/b")])])]

theorem validate_iff_grammar_references :
    (¬ States nestedReferences .openApi31 ∧ Grammar nestedReferences) ∧
      ¬ States externalReference .openApi31 ∧
        FirstViolation externalReference (.brokenReference "other.json#/b" .external) := by
  have hnested : ¬ States nestedReferences .openApi31 := fun h =>
    absurd (versionOf_of_states h) (by decide +kernel)
  have hexternal : ¬ States externalReference .openApi31 := fun h =>
    absurd (versionOf_of_states h) (by decide +kernel)
  have hvalid : validate nestedReferences = .ok () :=
    validate_of_paths .openApi30 (by decide +kernel) (by decide) rfl rfl (by decide +kernel) rfl
  refine ⟨⟨hnested, (validate_iff_grammar hnested).1.mp hvalid⟩, hexternal, ?_⟩
  exact ((validate_iff_grammar hexternal).2 _).mp (by decide +kernel)

end SecurityScan.Specification
