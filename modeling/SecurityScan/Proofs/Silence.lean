import SecurityScan.Proofs.RootFindings

namespace SecurityScan

open Specification

/-!
# Settings that silence the scanner

A list of rules to run is taken as it stands.  Names that no rule goes by are passed over, and a
configuration is accepted whatever names it lists, so a list of such names alone selects no rule.

* `mem_selected_iff` — the rules that run are the selected ones;
* `check_withNames` — whether a configuration is accepted does not depend on the names it lists;
* `report_of_silent` — without a selected rule every report is without findings and of low risk;
* `check_revealing_ne_nil` — there is a document in which every rule finds something;
* `scan_finds_iff` — so a scan can find something exactly if the list is empty or names a rule;
* `blankName_silences` — the list with the empty name alone, which an empty variable of the
  environment gives, is accepted and silences the scanner.
-/

theorem mem_selected_iff {c : ScanSettings} {rule : Rule} :
    rule ∈ Rule.selected c.enabledAnalyzers ↔ c.Selects rule := by
  rw [selected_eq_filter, List.mem_filter, decide_eq_true_eq]
  exact ⟨fun h => h.2, fun h => ⟨Rule.mem_all rule, h⟩⟩

/-- A configuration that lists other names. -/
def Config.withNames (c : Config) (names : List String) : Config :=
  { c with scanning := { c.scanning with enabledAnalyzers := names } }

/-- No rule for configurations looks at the names. -/
theorem Config.check_withNames (c : Config) (names : List String) :
    (c.withNames names).check = c.check := rfl

/-- Without a selected rule every report is without findings and of low risk. -/
theorem report_of_silent {c : ScanSettings} (h : ∀ rule, ¬ c.Selects rule) {text : String}
    {report : Report} (hscan : scan c text = .ok report) :
    report.issues = [] ∧ report.overallRisk = .low := by
  rw [scan_eq_map_restrict] at hscan
  cases hfull : scan {} text with
  | error e =>
    rw [hfull] at hscan
    cases hscan
  | ok full =>
    rw [hfull] at hscan
    cases hscan
    have hissues : (c.restrict full).issues = [] := by
      show full.issues.filter (fun f => c.Keeps f) = []
      rw [List.filter_eq_nil_iff]
      intro f _ hkeeps
      obtain ⟨⟨rule, hselected, _⟩, _⟩ := of_decide_eq_true hkeeps
      exact h rule hselected
    exact ⟨hissues, (isWorst_overallRisk _).low_of_nil hissues⟩

/-- A document with an operation in which every rule finds something. -/
def revealing : Json := documentWith [
  ("paths", .obj [("/a", .obj [("get", .obj [
    ("parameters", .arr [.obj []]),
    ("responses", .obj [("200", .obj [("content", .obj [("application/json", .obj [
      ("schema", .obj [("token", .obj [])])])])])])])])])]

theorem check_revealing_ne_nil (rule : Rule) : rule.check (dereference revealing) ≠ [] := by
  cases rule <;> decide +kernel

theorem scan_revealing : scan {} revealing.compact =
    .ok (reportOn (Rule.run Rule.all (dereference revealing))) := by
  have hload : load revealing.compact = .ok revealing :=
    load_ofList (v := revealing) (by decide +kernel) (by decide +kernel)
  have hvalid : validate revealing = .ok () :=
    validate_of_paths .openApi30 (by decide +kernel) (by decide) rfl rfl (by decide +kernel) rfl
  exact scan_eq_reportOn hload hvalid

/-- The scan of that document with any settings. -/
theorem scan_revealing_restrict (c : ScanSettings) : scan c revealing.compact =
    .ok (c.restrict (reportOn (Rule.run Rule.all (dereference revealing)))) := by
  rw [scan_eq_map_restrict, scan_revealing]
  rfl

/-- Settings that select the same rules and exclude no place. -/
def ScanSettings.everywhere (c : ScanSettings) : ScanSettings := { c with excludePaths := [] }

theorem selects_everywhere {c : ScanSettings} {rule : Rule} :
    c.everywhere.Selects rule ↔ c.Selects rule := Iff.rfl

/-- What a selected rule finds stays, if no place is excluded. -/
theorem issues_revealing_ne_nil {c : ScanSettings} {rule : Rule} (hrule : c.Selects rule) :
    ∃ report, scan c.everywhere revealing.compact = .ok report ∧ report.issues ≠ [] := by
  obtain ⟨f, hf⟩ := List.exists_mem_of_ne_nil _ (check_revealing_ne_nil rule)
  have hfound : f ∈ Rule.run Rule.all (dereference revealing) :=
    List.mem_flatMap.mpr ⟨rule, Rule.mem_all rule, hf⟩
  have hkeeps : c.everywhere.Keeps f :=
    ⟨⟨rule, hrule, Rule.weakness_of_mem_check hf⟩, fun _ h => absurd h List.not_mem_nil⟩
  refine ⟨_, scan_revealing_restrict c.everywhere, ?_⟩
  exact List.ne_nil_of_mem (List.mem_filter.mpr ⟨hfound, decide_eq_true hkeeps⟩)

/-- **What it takes to find something.** Some rule runs, and then some text has a report with
    findings if no place is excluded, exactly if the list of names is empty or one of them is a name
    of a rule.  If not, every report is without findings and of low risk.  A configuration is
    accepted or not whatever names it lists. -/
theorem scan_finds_iff (c : Config) :
    (Rule.selected c.scanning.enabledAnalyzers ≠ [] ↔ ∃ rule, c.scanning.Selects rule) ∧
    ((∃ rule, c.scanning.Selects rule) ↔
      ∃ text report, scan c.scanning.everywhere text = .ok report ∧ report.issues ≠ []) ∧
    ((∀ rule, ¬ c.scanning.Selects rule) →
      ∀ text report, scan c.scanning text = .ok report →
        report.issues = [] ∧ report.overallRisk = .low) ∧
    ∀ names, (c.withNames names).check = c.check := by
  refine ⟨?_, ⟨?_, ?_⟩, ?_, c.check_withNames⟩
  · constructor
    · intro hne
      obtain ⟨rule, hrule⟩ := List.exists_mem_of_ne_nil _ hne
      exact ⟨rule, mem_selected_iff.mp hrule⟩
    · rintro ⟨rule, hrule⟩
      exact List.ne_nil_of_mem (mem_selected_iff.mpr hrule)
  · rintro ⟨rule, hrule⟩
    exact ⟨_, issues_revealing_ne_nil hrule⟩
  · rintro ⟨text, report, hscan, hissues⟩
    -- with no rule selected the report would be without findings
    by_contra hnone
    have hsilent : ∀ rule, ¬ c.scanning.everywhere.Selects rule := fun rule hrule =>
      hnone ⟨rule, selects_everywhere.mp hrule⟩
    exact hissues (report_of_silent hsilent hscan).1
  · intro hnone text report hscan
    exact report_of_silent hnone hscan

/-- A configuration that lists one rule, after a name that no rule goes by. -/
def oneRuleConfig : Config := ({} : Config).withNames ["authorization", "Rate_Limiting"]

/-- The configuration that lists the empty name alone. -/
def blankNameConfig : Config := ({} : Config).withNames [""]

theorem scan_finds_iff_names :
    ((∃ rule, oneRuleConfig.scanning.Selects rule) ∧
      ∃ text report, scan oneRuleConfig.scanning.everywhere text = .ok report ∧
        report.issues ≠ []) ∧
    (∀ rule, ¬ blankNameConfig.scanning.Selects rule) ∧
    ∃ report, scan blankNameConfig.scanning revealing.compact = .ok report ∧
      report.issues = [] ∧ report.overallRisk = .low := by
  have hone : ∃ rule, oneRuleConfig.scanning.Selects rule :=
    ⟨.rateLimiting, by decide +kernel⟩
  have hnone : ∀ rule, ¬ blankNameConfig.scanning.Selects rule := by
    intro rule
    cases rule <;> decide +kernel
  refine ⟨⟨hone, (scan_finds_iff oneRuleConfig).2.1.mp hone⟩, hnone, _,
    scan_revealing_restrict _, ?_⟩
  exact (scan_finds_iff blankNameConfig).2.2.1 hnone _ _ (scan_revealing_restrict _)

/-- **The empty name silences the scanner.** An empty variable gives a list with the empty name
    alone.  The configuration is accepted and no rule runs, so that a document with findings of high
    risk has a report without findings and of low risk. -/
theorem blankName_silences :
    Config.load [] [("SCANLAB__API_SECURITY__ENABLED_ANALYZERS", "")] = .ok blankNameConfig ∧
      blankNameConfig.check = .ok () ∧
      Rule.selected blankNameConfig.scanning.enabledAnalyzers = [] ∧
      (∃ full, scan {} revealing.compact = .ok full ∧ full.overallRisk = .high) ∧
      ∃ report, scan blankNameConfig.scanning revealing.compact = .ok report ∧
        report.issues = [] ∧ report.overallRisk = .low := by
  refine ⟨by decide +kernel, by decide +kernel, by decide +kernel,
    ⟨_, scan_revealing, by decide +kernel⟩, _, scan_revealing_restrict _, ?_⟩
  decide +kernel

end SecurityScan
