import SecurityScan.Proofs.Expansion
import SecurityScan.Proofs.Listing
import SecurityScan.Proofs.Reach
import SecurityScan.Proofs.StringSearch
import SecurityScan.Scan

namespace SecurityScan

open Specification Text

/-!
# Which responses a report exposes

* `isLower_of_isMethod` and `eq_of_exposed` — methods are made of letters, so a finding on data
  exposure tells which operation and which response it is about;
* `IsSensitive` and `exposed_mem_check_iff` — the rule finds something in an inline response exactly
  if what its schema was replaced by is sensitive;
* `scan_eq_reportOn` and `exposes_iff` — so much for the report on the document, too;
* `scan_exposes` — which exposes what the schema reaches, if what the resolver holds for the
  references in the schema is whole;
* `scan_misses_schemasFirst` — and else may miss it: the order of the members decides.
-/

/-! ### Names of methods -/

/-- Two lists are cut at the same place by an element that is in neither front. -/
theorem append_cons_inj {c : Char} {as as' bs bs' : List Char} (has : c ∉ as) (has' : c ∉ as')
    (h : as ++ c :: bs = as' ++ c :: bs') : as = as' ∧ bs = bs' := by
  induction as generalizing as' with
  | nil =>
    cases as' with
    | nil => exact ⟨rfl, (List.cons.inj h).2⟩
    | cons d as' => exact absurd ((List.cons.inj h).1 ▸ List.mem_cons_self) has'
  | cons d as ih =>
    cases as' with
    | nil => exact absurd ((List.cons.inj h).1 ▸ List.mem_cons_self) has
    | cons d' as' =>
      obtain ⟨rfl, htail⟩ := List.cons.inj h
      obtain ⟨rfl, hbs⟩ := ih (fun hmem => has (List.mem_cons_of_mem _ hmem))
        (fun hmem => has' (List.mem_cons_of_mem _ hmem)) htail
      exact ⟨rfl, hbs⟩

/-- Two texts are cut at the same place by a separator whose first character is in neither front. -/
theorem append_separator_inj {a a' b b' separator : String} {c : Char} {rest : List Char}
    (hseparator : separator.toList = c :: rest) (ha : c ∉ a.toList) (ha' : c ∉ a'.toList)
    (h : a ++ (separator ++ b) = a' ++ (separator ++ b')) : a = a' ∧ b = b' := by
  have hlist := congrArg String.toList h
  simp only [String.toList_append, hseparator, List.cons_append] at hlist
  obtain ⟨hfront, hback⟩ := append_cons_inj ha ha' hlist
  exact ⟨String.toList_inj.mp hfront, String.toList_inj.mp (List.append_cancel_left hback)⟩

/-- The upper case of no other character is a blank. -/
theorem toUpper_ne_space {c : Char} (h : c ≠ ' ') : c.toUpper ≠ ' ' := by
  intro hspace
  delta Char.toUpper at hspace
  by_cases hc : 'a'.val ≤ c.val ∧ c.val ≤ 'z'.val
  · rw [dif_pos hc] at hspace
    have hval : c.val = ' '.val - ('A'.val - 'a'.val) := by
      rw [← congrArg Char.val hspace, UInt32.add_sub_cancel]
    rw [hval] at hc
    exact absurd hc.1 (by decide)
  · rw [dif_neg hc] at hspace
    exact h hspace

/-- A method consists of letters. -/
theorem isLower_of_isMethod {method : String} (h : isMethod method = true) {c : Char}
    (hc : c ∈ method.toList) : c.toLower.isLower = true := by
  have hall : methods.all (fun m => m.toList.all Char.isLower) = true := by decide +kernel
  rw [isMethod, List.contains_iff_mem] at h
  refine List.all_eq_true.mp (List.all_eq_true.mp hall _ h) _ ?_
  rw [String.toList_map]
  exact List.mem_map_of_mem hc

/-- A character whose lower case is no letter is not in a method. -/
theorem notMem_of_isMethod {method : String} (h : isMethod method = true) {c : Char}
    (hc : c.toLower.isLower = false) : c ∉ method.toList := by
  intro hmem
  rw [isLower_of_isMethod h hmem] at hc
  cases hc

/-! ### The rule -/

namespace Rule.DataExposure

/-- The schema counts as declared, and its text mentions a sensitive word. -/
def IsSensitive (schema : Json) : Prop :=
  schema.isTruthy = true ∧ ∃ word ∈ keywords, mentions schema.chars word = true

instance (schema : Json) : Decidable (IsSensitive schema) :=
  inferInstanceAs (Decidable (schema.isTruthy = true ∧ ∃ word ∈ keywords, _))

/-- A key or string that mentions a sensitive word makes a schema sensitive. -/
theorem isSensitive_of_mem_texts {schema : Json} {t word : String} (ht : t ∈ schema.texts)
    (hword : word ∈ keywords) (h : mentions t.toList word = true) : IsSensitive schema := by
  have hplain : ∀ c ∈ word.toList, Json.escapeChar c = [c] :=
    (searchable_of_mem (List.mem_cons_of_mem _ hword)).unescaped
  have hempty : ∀ word ∈ keywords, mentions [] word = false := by decide +kernel
  refine ⟨?_, word, hword, Json.mentions_chars_of_mem ht hplain h⟩
  -- the only falsy value with a text in it is the empty string, which mentions nothing
  cases schema with
  | arr | obj => rfl
  | str s =>
    rw [Json.texts, List.mem_singleton] at ht
    subst ht
    rw [Json.isTruthy, Bool.not_eq_true', ← Bool.not_eq_true]
    intro hnil
    rw [String.isEmpty_iff.mp hnil] at h
    exact absurd h (by simp [hempty word hword])
  | null | bool | num => simp [Json.texts] at ht

/-- Where findings place a response and what they call its operation tells responses apart. -/
theorem eq_of_exposed {o o' : Operation} {code code' : String} (ho : isMethod o.method = true)
    (ho' : isMethod o'.method = true) (hpath : (exposed o code).path = (exposed o' code').path)
    (hdescription : (exposed o code).description = (exposed o' code').description) :
    o.path = o'.path ∧ o.method = o'.method ∧ code = code' := by
  have hspace : ∀ {o : Operation}, isMethod o.method = true →
      ' ' ∉ (o.method.map Char.toUpper).toList := by
    intro o ho hmem
    rw [String.toList_map, List.mem_map] at hmem
    obtain ⟨c, hc, hup⟩ := hmem
    refine toUpper_ne_space (fun hblank => ?_) hup
    exact notMem_of_isMethod ho (by decide) (hblank ▸ hc)
  -- the first blank of what a description calls an operation ends the method
  have hdisplay : o.display = o'.display :=
    (String.append_right_inj _).mp ((String.append_left_inj _).mp hdescription)
  rw [Operation.display, Operation.display, String.append_assoc, String.append_assoc] at hdisplay
  have hp : o.path = o'.path :=
    (append_separator_inj (c := ' ') rfl (hspace ho) (hspace ho') hdisplay).2
  -- after the same path, the first dot of a place ends the method
  have hdot : ∀ {o : Operation}, isMethod o.method = true → '.' ∉ o.method.toList :=
    fun ho => notMem_of_isMethod ho (by decide)
  simp only [exposed, Operation.locator, hp, String.append_assoc, String.append_right_inj] at hpath
  obtain ⟨hm, hcode⟩ := append_separator_inj (c := '.') rfl (hdot ho) (hdot ho') hpath
  exact ⟨hp, hm, hcode⟩

theorem mem_checkResponse {o : Operation} {code : String} {response : Json} {f : Finding} :
    f ∈ checkResponse o code response ↔ f = exposed o code ∧
      ∃ schema, response.at? ["content", "application/json", "schema"] = some schema ∧
        IsSensitive schema := by
  have hschema : ∀ schema, responseSchema? response = some schema ↔
      response.at? ["content", "application/json", "schema"] = some schema ∧
        schema.isTruthy = true := fun schema => Option.filter_eq_some_iff
  rw [checkResponse]
  constructor
  · intro hf
    cases hr : responseSchema? response with
    | none => simp [hr] at hf
    | some schema =>
      rw [hr, List.mem_map] at hf
      obtain ⟨word, hword, rfl⟩ := hf
      obtain ⟨hat, htruthy⟩ := (hschema schema).mp hr
      exact ⟨rfl, schema, hat, htruthy, word, List.mem_filter.mp hword⟩
  · rintro ⟨rfl, schema, hat, htruthy, word, hword⟩
    rw [(hschema schema).mpr ⟨hat, htruthy⟩]
    exact List.mem_map.mpr ⟨word, List.mem_filter.mpr hword, rfl⟩

theorem mem_check_iff {doc : Json} {f : Finding} :
    f ∈ check doc ↔ ∃ o ∈ operations doc, ∃ responses, o.node.get? "responses" = some responses ∧
      ∃ code response, (code, response) ∈ responses.entries ∧
        f ∈ checkResponse o code response := by
  rw [check, List.mem_flatMap]
  refine exists_congr fun o => and_congr_right fun _ => ?_
  rw [checkOperation]
  cases o.node.get? "responses" <;> simp

/-- **The rule on an inline response.** Whatever references are replaced by, the rule finds
    something in a response exactly if what its schema was replaced by is sensitive. -/
theorem exposed_mem_check_iff {f : String → Option Json} {doc schema : Json}
    {path method code : String} (hkeys : doc.UniqueKeys) (hmethod : isMethod method = true)
    (h : inlineAt? doc ["paths", path, method, "responses", code,
      "content", "application/json", "schema"] = some schema) (node : Json) :
    exposed ⟨path, method, node⟩ code ∈ check (substitute f doc) ↔
      IsSensitive (substitute f schema) := by
  obtain ⟨raw, hraw, h⟩ := (inlineAt?_append ["paths", path, method]).mp h
  obtain ⟨hrawref, responses, hresponses, h⟩ := inlineAt?_cons.mp h
  obtain ⟨hresponsesref, response, hresponse, h⟩ := inlineAt?_cons.mp h
  have hoperation : ∀ node, ⟨path, method, node⟩ ∈ operations (substitute f doc) ↔
      node = substitute f raw :=
    fun node => mem_operations_substitute_iff hkeys hmethod hraw
  have hrawkeys : raw.UniqueKeys := uniqueKeys_of_inlineAt? hkeys hraw
  have hresponses' : (substitute f raw).get? "responses" = some (substitute f responses) := by
    rw [get?_substitute hrawref, hresponses, Option.map_some]
  have hentry : ∀ w, (code, w) ∈ (substitute f responses).entries ↔ w = substitute f response :=
    fun w => mem_entries_substitute_iff (hrawkeys.get? hresponses) hresponsesref hresponse
  have hat := at?_substitute (f := f) h
  rw [mem_check_iff]
  constructor
  · rintro ⟨⟨path', method', node'⟩, ho, responses', hget, code', response', hmem, hf⟩
    obtain ⟨heq, schema', hat', hsensitive⟩ := mem_checkResponse.mp hf
    have ho' : isMethod method' = true := by
      obtain ⟨_, _, hmethod', _⟩ := mem_operations.mp ho
      exact hmethod'
    obtain ⟨rfl, rfl, rfl⟩ := eq_of_exposed hmethod ho' (congrArg Finding.path heq)
      (congrArg Finding.description heq)
    -- so the finding is on the response at hand
    cases (hoperation node').mp ho
    cases hget.symm.trans hresponses'
    cases (hentry response').mp hmem
    cases hat'.symm.trans hat
    exact hsensitive
  · intro hsensitive
    exact ⟨⟨path, method, _⟩, (hoperation _).mpr rfl, _, hresponses', code, _, (hentry _).mpr rfl,
      mem_checkResponse.mpr ⟨rfl, _, hat, hsensitive⟩⟩

end Rule.DataExposure

/-! ### Reports -/

/-- What a rule finds is of its own kind. -/
theorem Rule.weakness_of_mem_check {rule : Rule} {doc : Json} {f : Finding}
    (h : f ∈ rule.check doc) : f.weakness = rule.weakness := by
  cases rule with
  | authentication =>
    rw [Rule.check, Authentication.check, List.mem_append, List.mem_map] at h
    rcases h with h | ⟨o, _, rfl⟩
    · by_cases hschemes : Authentication.hasSchemes doc = true
      · simp [hschemes] at h
      · rw [if_neg hschemes, List.mem_singleton] at h
        rw [h]
        rfl
    · rfl
  | dataExposure =>
    obtain ⟨_, _, _, _, _, _, _, h⟩ := DataExposure.mem_check_iff.mp h
    rw [(DataExposure.mem_checkResponse.mp h).1]
    rfl
  | rateLimiting =>
    rw [Rule.check, RateLimiting.check] at h
    by_cases hlimited : RateLimiting.isLimited doc = true
    · simp [hlimited] at h
    · rw [if_neg hlimited, List.mem_singleton] at h
      rw [h]
      rfl
  | inputValidation =>
    rw [Rule.check, InputValidation.check, List.mem_flatMap] at h
    obtain ⟨o, _, h⟩ := h
    rw [InputValidation.checkOperation, List.mem_append, List.mem_map] at h
    rcases h with ⟨_, _, rfl⟩ | h
    · rfl
    · by_cases hlacks : InputValidation.lacksBodySchema o = true
      · rw [if_pos hlacks, List.mem_singleton] at h
        rw [h]
        rfl
      · simp [hlacks] at h

/-- With the default settings a loaded and valid document is reported on in full. -/
theorem scan_eq_reportOn {text : String} {doc : Json} (hload : load text = .ok doc)
    (hvalid : validate doc = .ok ()) :
    scan {} text = .ok (reportOn (Rule.run Rule.all (dereference doc))) := by
  have hkeep : (scannerFor {}).keep (Rule.run Rule.all (dereference doc)) =
      Rule.run Rule.all (dereference doc) :=
    List.filter_eq_self.mpr fun _ _ => rfl
  have hscan := Scanner.scan_of_valid (scannerFor {}) hload hvalid
  rw [scan, hscan]
  exact congrArg (fun issues => Except.ok (reportOn issues)) hkeep

/-- The report says of the response `code` of the operation at `path` and `method` that it may give
    something away. -/
def Exposes (report : Report) (path method code : String) : Prop :=
  ∃ f ∈ report.issues, f.weakness = .dataExposure ∧
    f.path = "paths." ++ path ++ "." ++ method ++ ".responses." ++ code ∧
    f.description = "Potential sensitive data exposure in " ++
      (method.map Char.toUpper ++ " " ++ path) ++ " response"

/-- A report exposes what the rule on data exposure finds. -/
theorem exposes_iff_mem_check {doc : Json} {path method code : String}
    (hmethod : isMethod method = true) (node : Json) :
    Exposes (reportOn (Rule.run Rule.all doc)) path method code ↔
      Rule.DataExposure.exposed ⟨path, method, node⟩ code ∈ Rule.DataExposure.check doc := by
  constructor
  · rintro ⟨f, hf, hweakness, hpath, hdescription⟩
    -- no other rule finds weaknesses of this kind
    obtain ⟨rule, _, hf⟩ := List.mem_flatMap.mp hf
    have hrule : rule = .dataExposure := by
      rw [Rule.weakness_of_mem_check hf] at hweakness
      cases rule <;> first | rfl | cases hweakness
    subst hrule
    have hcheck := hf
    obtain ⟨o, ho, _, _, code', _, _, hf⟩ := Rule.DataExposure.mem_check_iff.mp hf
    have hfound := (Rule.DataExposure.mem_checkResponse.mp hf).1
    obtain ⟨_, _, ho', _⟩ := mem_operations.mp ho
    rw [hfound] at hpath hdescription hcheck
    have hpath' : (Rule.DataExposure.exposed o code').path =
        (Rule.DataExposure.exposed ⟨path, method, node⟩ code).path := hpath
    obtain ⟨hp, hm, rfl⟩ := Rule.DataExposure.eq_of_exposed ho' hmethod hpath' hdescription
    obtain ⟨path', method', node'⟩ := o
    cases hp
    cases hm
    exact hcheck
  · intro h
    exact ⟨_, List.mem_flatMap.mpr ⟨.dataExposure, by decide, h⟩, rfl, rfl, rfl⟩

/-- What the report on a document says of an inline response depends on what the schema was
    replaced by. -/
theorem exposes_iff {doc schema : Json} {path method code : String} (hkeys : doc.UniqueKeys)
    (hmethod : isMethod method = true)
    (hschema : inlineAt? doc ["paths", path, method, "responses", code,
      "content", "application/json", "schema"] = some schema) :
    Exposes (reportOn (Rule.run Rule.all (dereference doc))) path method code ↔
      Rule.DataExposure.IsSensitive (substitute (replacement doc) schema) := by
  rw [exposes_iff_mem_check hmethod .null, dereference_eq_substitute]
  exact Rule.DataExposure.exposed_mem_check_iff hkeys hmethod hschema .null

/-- A schema that reaches a sensitive word is replaced by a sensitive one, if what the resolver
    holds for its references is whole. -/
theorem isSensitive_of_reaches {doc schema : Json} {t word : String} (h : Reaches doc 50 schema t)
    (hword : word ∈ Rule.DataExposure.keywords) (hmention : mentions t.toList word = true)
    (hwhole : ∀ r ∈ outermost doc schema, replacement doc r = ownExpansion doc r) :
    Rule.DataExposure.IsSensitive (substitute (replacement doc) schema) :=
  Rule.DataExposure.isSensitive_of_mem_texts (mem_texts_of_reaches h hwhole) hword hmention

/-- **Exposure.** A loaded and valid document is reported on.  The report exposes an inline response
    exactly if what the schema was replaced by is sensitive.  If the references in the schema were
    replaced by what they expand to on their own, that is so whenever the schema reaches a key or
    string that mentions a sensitive word through at most fifty references. -/
theorem scan_exposes {text : String} {doc schema : Json} {path method code : String}
    (hload : load text = .ok doc) (hvalid : validate doc = .ok ())
    (hmethod : isMethod method = true)
    (hschema : inlineAt? doc ["paths", path, method, "responses", code,
      "content", "application/json", "schema"] = some schema) :
    ∃ report, scan {} text = .ok report ∧
      (Exposes report path method code ↔
        Rule.DataExposure.IsSensitive (substitute (replacement doc) schema)) ∧
      ((∀ r ∈ outermost doc schema, replacement doc r = ownExpansion doc r) →
        ∀ t, Reaches doc 50 schema t →
          ∀ word ∈ Rule.DataExposure.keywords, mentions t.toList word = true →
            Exposes report path method code) := by
  have hiff := exposes_iff (load_uniqueKeys hload) hmethod hschema
  refine ⟨_, scan_eq_reportOn hload hvalid, hiff, ?_⟩
  intro hwhole t hreaches word hword hmention
  exact hiff.mpr (isSensitive_of_reaches hreaches hword hmention hwhole)

/-- Two schemas that refer to each other, and a response with the first one; the sensitive word
    stands in the second one. -/
def mutualSchemas : String × Json :=
  ("components", .obj [("schemas", .obj [
    ("A", .obj [("b", refTo "#/components/schemas/B")]),
    ("B", .obj [("a", refTo "#/components/schemas/A"), ("password", .obj [])])])])

/-- The paths of the specification with the response. -/
def mutualPaths : String × Json :=
  ("paths", .obj [("/a", .obj [("get", .obj [("responses", .obj [("200", .obj [("content", .obj [
    ("application/json", .obj [("schema", refTo "#/components/schemas/A")])])])])])])])

/-- The response refers to the first schema before the schemas refer to each other. -/
def pathsFirst : Json := documentWith [mutualPaths, mutualSchemas]

/-- The schemas refer to each other before the response refers to the first one. -/
def schemasFirst : Json := documentWith [mutualSchemas, mutualPaths]

/-- In both orders the response reaches the sensitive word through both schemas. -/
theorem reaches_password {doc : Json}
    (hA : targetOf doc "#/components/schemas/A" =
      .ok (.obj [("b", refTo "#/components/schemas/B")]))
    (hB : targetOf doc "#/components/schemas/B" =
      .ok (.obj [("a", refTo "#/components/schemas/A"), ("password", .obj [])])) :
    Reaches doc 50 (refTo "#/components/schemas/A") "password" := by
  have hinner : Trail doc [] 49 (refTo "#/components/schemas/B") "password" :=
    .reference rfl (by decide) hB (.key rfl (.tail _ (.head _)))
  exact .reference rfl (by decide) hA (.member rfl (.head _) hinner)

theorem scan_exposes_pathsFirst :
    (load pathsFirst.compact = .ok pathsFirst ∧ validate pathsFirst = .ok () ∧
      Reaches pathsFirst 50 (refTo "#/components/schemas/A") "password") ∧
    ∃ report, scan {} pathsFirst.compact = .ok report ∧ Exposes report "/a" "get" "200" := by
  have hload : load pathsFirst.compact = .ok pathsFirst :=
    load_ofList (v := pathsFirst) (by decide +kernel) (by decide +kernel)
  have hvalid : validate pathsFirst = .ok () :=
    validate_of_paths .openApi30 (by decide +kernel) (by decide) rfl rfl (by decide +kernel) rfl
  have hreaches : Reaches pathsFirst 50 (refTo "#/components/schemas/A") "password" :=
    reaches_password rfl rfl
  obtain ⟨report, hscan, _, hexposes⟩ :=
    scan_exposes hload hvalid (by decide +kernel : isMethod "get" = true)
      (rfl : inlineAt? pathsFirst ["paths", "/a", "get", "responses", "200",
        "content", "application/json", "schema"] = some (refTo "#/components/schemas/A"))
  refine ⟨⟨hload, hvalid, hreaches⟩, report, hscan, ?_⟩
  exact hexposes (by decide +kernel) "password" hreaches "password" (by decide) (by decide +kernel)

/-- **The order shows.** With the schemas first, the report says nothing of the response, although
    it reaches the sensitive word. -/
theorem scan_misses_schemasFirst :
    load schemasFirst.compact = .ok schemasFirst ∧ validate schemasFirst = .ok () ∧
      inlineAt? schemasFirst ["paths", "/a", "get", "responses", "200",
        "content", "application/json", "schema"] = some (refTo "#/components/schemas/A") ∧
      Reaches schemasFirst 50 (refTo "#/components/schemas/A") "password" ∧
      "password" ∈ Rule.DataExposure.keywords ∧
      ∃ report, scan {} schemasFirst.compact = .ok report ∧
        ∀ f ∈ report.issues, f.weakness ≠ .dataExposure := by
  have hload : load schemasFirst.compact = .ok schemasFirst :=
    load_ofList (v := schemasFirst) (by decide +kernel) (by decide +kernel)
  have hvalid : validate schemasFirst = .ok () :=
    validate_of_paths .openApi30 (by decide +kernel) (by decide) rfl rfl (by decide +kernel) rfl
  refine ⟨hload, hvalid, rfl, reaches_password rfl rfl, by decide, ?_⟩
  exact ⟨_, scan_eq_reportOn hload hvalid, by decide +kernel⟩

end SecurityScan
