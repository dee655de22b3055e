import SecurityScan.Proofs.Exposure

namespace SecurityScan

open Specification Text

/-!
# Settings only filter

A scan with any settings answers what a scan without settings answers, less the findings of rules
that are not selected and the findings at places that are excluded.

* `ScanSettings.Selects` — a rule runs: it is named in the list, or the list is empty;
* `Covers` — an entry of the list of excluded places covers a path;
* `ScanSettings.Keeps` — a finding stays: it is of the kind of a selected rule, and no entry covers
  its path;
* `Rule.run_filter` — rules that do not run take their own findings with them and no others;
* `IsWorst` — the worst severity of some findings, low if there are none;
* `scan_eq_map_restrict` — a report is the report without settings, restricted to what stays;
* `scan_only_filters` — so the same texts fail in the same way, the order stays, and what is
  excluded in addition never makes the risk worse.
-/

/-! ### What the settings say -/

theorem Rule.mem_all (rule : Rule) : rule ∈ Rule.all := by
  cases rule <;> decide

/-- An entry covers a path: a star covers all paths but the root, and any entry covers what it is a
    prefix of. -/
def Covers (entry path : String) : Prop :=
  (entry = "*" ∧ path ≠ "root") ∨ entry.toList <+: path.toList

instance (entry path : String) : Decidable (Covers entry path) :=
  inferInstanceAs (Decidable (_ ∨ _))

namespace ScanSettings

/-- A rule runs: a name in the list is that of the rule, alone or followed by `_analyzer`, in any
    case of its letters, or there is no name in the list. -/
def Selects (c : ScanSettings) (rule : Rule) : Prop :=
  c.enabledAnalyzers = [] ∨ ∃ given ∈ c.enabledAnalyzers,
    ∃ name ∈ [rule.name, rule.name ++ "_analyzer"],
      given.toList.map Char.toLower = name.toList.map Char.toLower

instance (c : ScanSettings) : DecidablePred c.Selects := fun _ =>
  inferInstanceAs (Decidable (_ ∨ _))

/-- A finding stays: it is of the kind that a selected rule finds, and no entry covers its path. -/
def Keeps (c : ScanSettings) (f : Finding) : Prop :=
  (∃ rule, c.Selects rule ∧ f.weakness = rule.weakness) ∧
    ∀ entry ∈ c.excludePaths, ¬ Covers entry f.path

instance (c : ScanSettings) (f : Finding) :
    Decidable (∃ rule, c.Selects rule ∧ f.weakness = rule.weakness) :=
  decidable_of_iff (∃ rule ∈ Rule.all, c.Selects rule ∧ f.weakness = rule.weakness)
    (by simp [Rule.mem_all])

instance (c : ScanSettings) : DecidablePred c.Keeps := fun _ =>
  inferInstanceAs (Decidable (_ ∧ _))

/-- A report with only the findings that stay, and their risk. -/
def restrict (c : ScanSettings) (full : Report) : Report :=
  let issues := full.issues.filter fun f => c.Keeps f
  { full with issues := issues, overallRisk := overallRisk issues }

end ScanSettings

/-! ### Selection -/

/-- The rules that run are the selected ones in the order of the table, however often and in
    whatever order the list names them. -/
theorem selected_eq_filter (c : ScanSettings) :
    Rule.selected c.enabledAnalyzers = Rule.all.filter fun rule => c.Selects rule := by
  rw [Rule.selected]
  by_cases hempty : c.enabledAnalyzers = []
  · have hall : ∀ rule ∈ Rule.all, decide (c.Selects rule) = true := fun rule _ =>
      decide_eq_true (.inl hempty)
    rw [hempty, List.filter_eq_self.mpr hall]
    rfl
  · have hnames : ∀ rule ∈ Rule.all,
        c.enabledAnalyzers.any rule.isNamed = decide (c.Selects rule) := by
      intro rule _
      rw [Bool.eq_iff_iff, List.any_eq_true, decide_eq_true_eq]
      simp [ScanSettings.Selects, hempty, Rule.isNamed, sameWord_iff]
    rw [if_neg (by simpa using hempty), List.filter_congr hnames]

/-- Each rule finds weaknesses of its own kind. -/
theorem Rule.weakness_injective {rule rule' : Rule} (h : rule.weakness = rule'.weakness) :
    rule = rule' := by
  cases rule <;> cases rule' <;> first | rfl | cases h

/-- **Rules that do not run take their own findings with them.** If `q` is settled for the findings
    of a rule by `p` of the rule, leaving out rules is leaving out findings. -/
theorem Rule.run_filter {p : Rule → Bool} {q : Finding → Bool} {doc : Json} {rules : List Rule}
    (h : ∀ rule ∈ rules, ∀ f ∈ rule.check doc, q f = p rule) :
    Rule.run (rules.filter p) doc = (Rule.run rules doc).filter q := by
  induction rules with
  | nil => rfl
  | cons rule rules ih =>
    have hrest : Rule.run (rules.filter p) doc = (Rule.run rules doc).filter q :=
      ih fun r hr => h r (List.mem_cons_of_mem _ hr)
    have hrule : ∀ f ∈ rule.check doc, q f = p rule := h rule List.mem_cons_self
    have hcons : Rule.run (rule :: rules) doc = rule.check doc ++ Rule.run rules doc :=
      List.flatMap_cons
    rw [hcons, List.filter_append, ← hrest]
    cases hp : p rule with
    | true =>
      rw [List.filter_cons_of_pos hp,
        List.filter_eq_self.mpr fun f hf => (hrule f hf).trans hp]
      exact List.flatMap_cons
    | false =>
      have hnone : (rule.check doc).filter q = [] :=
        List.filter_eq_nil_iff.mpr fun f hf => by simp [hrule f hf, hp]
      rw [List.filter_cons_of_neg (by simp [hp]), hnone, List.nil_append]

/-- What the selected rules find is what all rules find of the kinds of the selected ones. -/
theorem run_selected (c : ScanSettings) (doc : Json) :
    Rule.run (Rule.selected c.enabledAnalyzers) doc =
      (Rule.run Rule.all doc).filter fun f =>
        decide (∃ rule, c.Selects rule ∧ f.weakness = rule.weakness) := by
  rw [selected_eq_filter]
  refine Rule.run_filter fun rule _ f hf => ?_
  have hkind : f.weakness = rule.weakness := Rule.weakness_of_mem_check hf
  rw [decide_eq_decide]
  constructor
  · rintro ⟨rule', hselected, hkind'⟩
    cases Rule.weakness_injective (hkind.symm.trans hkind')
    exact hselected
  · intro hselected
    exact ⟨rule, hselected, hkind⟩

/-! ### Exclusion -/

theorem excludes_iff {entry path : String} : excludes entry path = true ↔ Covers entry path := by
  rw [excludes, Bool.or_eq_true, String.startsWith_string_iff, Bool.and_eq_true, beq_iff_eq,
    bne_iff_ne]
  rfl

theorem keep_eq_filter (c : ScanSettings) (issues : List Finding) :
    (scannerFor c).keep issues =
      issues.filter fun f => decide (∀ entry ∈ c.excludePaths, ¬ Covers entry f.path) := by
  refine List.filter_congr fun f _ => ?_
  rw [Bool.eq_iff_iff, decide_eq_true_eq, Bool.not_eq_true', List.any_eq_false]
  exact forall₂_congr fun entry _ => not_congr excludes_iff

/-! ### The worst severity -/

/-- The worst severity of some findings, low if there are none. -/
structure IsWorst (issues : List Finding) (risk : Severity) : Prop where
  low_of_nil : issues = [] → risk = .low
  attained : issues ≠ [] → ∃ f ∈ issues, f.severity = risk
  rank_le : ∀ f ∈ issues, risk.rank ≤ f.severity.rank

/-- Going through a list, the worse of two severities at each step, ends in the worst one. -/
theorem Severity.foldl_worse (s : Severity) (rest : List Severity) :
    rest.foldl worse s ∈ s :: rest ∧ ∀ t ∈ s :: rest, (rest.foldl worse s).rank ≤ t.rank := by
  induction rest generalizing s with
  | nil => simp
  | cons t rest ih =>
    obtain ⟨hmem, hle⟩ := ih (worse s t)
    have hworse : worse s t = s ∨ worse s t = t := by
      unfold worse
      split <;> simp
    have hboth : (worse s t).rank ≤ s.rank ∧ (worse s t).rank ≤ t.rank := by
      unfold worse
      split <;> omega
    rw [List.foldl_cons]
    constructor
    · rcases List.mem_cons.mp hmem with hhead | htail
      · rw [hhead]
        rcases hworse with h | h <;> simp [h]
      · exact List.mem_cons_of_mem _ (List.mem_cons_of_mem _ htail)
    · have hhead : (rest.foldl worse (worse s t)).rank ≤ (worse s t).rank :=
        hle _ List.mem_cons_self
      intro u hu
      rcases List.mem_cons.mp hu with rfl | hu
      · omega
      · rcases List.mem_cons.mp hu with rfl | hu
        · omega
        · exact hle u (List.mem_cons_of_mem _ hu)

theorem isWorst_overallRisk (issues : List Finding) : IsWorst issues (overallRisk issues) := by
  cases issues with
  | nil => exact ⟨fun _ => rfl, fun h => absurd rfl h, by simp⟩
  | cons f rest =>
    have hfold : overallRisk (f :: rest) =
        (rest.map (·.severity)).foldl Severity.worse f.severity := rfl
    obtain ⟨hmem, hle⟩ := Severity.foldl_worse f.severity (rest.map (·.severity))
    rw [← hfold, ← List.map_cons] at hmem hle
    refine ⟨fun h => (by cases h), fun _ => List.mem_map.mp hmem, fun g hg => ?_⟩
    exact hle g.severity (List.mem_map_of_mem hg)

/-- With fewer findings the risk is not worse. -/
theorem overallRisk_rank_le {issues issues' : List Finding} (h : issues' ⊆ issues) :
    (overallRisk issues).rank ≤ (overallRisk issues').rank := by
  have hfew : IsWorst issues' (overallRisk issues') := isWorst_overallRisk issues'
  by_cases hnil : issues' = []
  · rw [hfew.low_of_nil hnil]
    cases overallRisk issues <;> decide
  · obtain ⟨f, hf, hrisk⟩ := hfew.attained hnil
    rw [← hrisk]
    exact (isWorst_overallRisk issues).rank_le f (h hf)

/-! ### Reports -/

/-- What is found with settings is what is found without them, restricted to what stays. -/
theorem keep_look (c : ScanSettings) (doc : Json) :
    (scannerFor c).keep ((scannerFor c).look doc) =
      ((scannerFor {}).keep ((scannerFor {}).look doc)).filter fun f => c.Keeps f := by
  have hfound : (scannerFor c).look doc = (Rule.run Rule.all doc).filter fun f =>
      decide (∃ rule, c.Selects rule ∧ f.weakness = rule.weakness) := run_selected c doc
  have hall : (scannerFor {}).keep ((scannerFor {}).look doc) = Rule.run Rule.all doc :=
    List.filter_eq_self.mpr fun _ _ => rfl
  rw [hall, hfound, keep_eq_filter, List.filter_filter]
  refine List.filter_congr fun f _ => ?_
  rw [Bool.and_comm, ← Bool.decide_and]
  rfl

/-- **Restriction.** The report with settings is the report without settings, restricted to the
    findings that stay. -/
theorem scan_eq_map_restrict (c : ScanSettings) (text : String) :
    scan c text = (scan {} text).map c.restrict := by
  unfold scan
  cases hload : load text with
  | error e =>
    rw [Scanner.scan_of_not_loaded _ hload, Scanner.scan_of_not_loaded _ hload]
    rfl
  | ok doc =>
    -- the validator is the same with all settings
    cases hvalid : validate doc with
    | error e =>
      rw [Scanner.scan_of_invalid (scannerFor c) hload hvalid,
        Scanner.scan_of_invalid (scannerFor {}) hload hvalid]
      rfl
    | ok _ =>
      rw [Scanner.scan_of_valid (scannerFor c) hload hvalid,
        Scanner.scan_of_valid (scannerFor {}) hload hvalid, keep_look]
      rfl

/-- More excluded places leave fewer findings, in the same order, and no worse risk. -/
theorem restrict_mono {c c' : ScanSettings} (hrules : c'.enabledAnalyzers = c.enabledAnalyzers)
    (hpaths : c.excludePaths ⊆ c'.excludePaths) (full : Report) :
    (c'.restrict full).issues.Sublist (c.restrict full).issues ∧
      (c.restrict full).overallRisk.rank ≤ (c'.restrict full).overallRisk.rank := by
  have hkeeps : ∀ f, c'.Keeps f → c.Keeps f := by
    rintro f ⟨⟨rule, hselected, hkind⟩, hnot⟩
    refine ⟨⟨rule, ?_, hkind⟩, fun entry hentry => hnot entry (hpaths hentry)⟩
    unfold ScanSettings.Selects at hselected ⊢
    rwa [hrules] at hselected
  -- what the longer list leaves, it leaves of what the shorter one leaves
  have hagain : (c'.restrict full).issues =
      (c.restrict full).issues.filter fun f => c'.Keeps f := by
    show full.issues.filter _ = (full.issues.filter _).filter _
    rw [List.filter_filter]
    refine List.filter_congr fun f _ => ?_
    rw [← Bool.decide_and, decide_eq_decide]
    exact ⟨fun h => ⟨h, hkeeps f h⟩, fun h => h.1⟩
  have hsublist : (c'.restrict full).issues.Sublist (c.restrict full).issues := by
    rw [hagain]
    exact List.filter_sublist
  exact ⟨hsublist, overallRisk_rank_le hsublist.subset⟩

/-- **Settings only filter.** A text fails with settings exactly if it fails without them, in the
    same way.  Otherwise the report holds the findings of the report without settings that stay, in
    their order, with the worst of their severities and the same advice.  Excluding more places
    leaves out findings without reordering the others, and never makes the risk worse. -/
theorem scan_only_filters (c : ScanSettings) (text : String) :
    (∀ e, scan c text = .error e ↔ scan {} text = .error e) ∧
    ∀ full, scan {} text = .ok full →
      ∃ report, scan c text = .ok report ∧
        report.issues = full.issues.filter (fun f => c.Keeps f) ∧
        IsWorst report.issues report.overallRisk ∧
        report.recommendations = full.recommendations ∧ report.valid = full.valid ∧
        ∀ c' : ScanSettings, c'.enabledAnalyzers = c.enabledAnalyzers →
          c.excludePaths ⊆ c'.excludePaths →
          ∃ report', scan c' text = .ok report' ∧ report'.issues.Sublist report.issues ∧
            report.overallRisk.rank ≤ report'.overallRisk.rank := by
  constructor
  · intro e
    rw [scan_eq_map_restrict c]
    cases scan {} text <;> simp [Except.map]
  · intro full hfull
    have hscan : ∀ c' : ScanSettings, scan c' text = .ok (c'.restrict full) := by
      intro c'
      rw [scan_eq_map_restrict, hfull]
      rfl
    refine ⟨c.restrict full, hscan c, rfl, isWorst_overallRisk _, rfl, rfl, ?_⟩
    intro c' hrules hpaths
    exact ⟨c'.restrict full, hscan c', restrict_mono hrules hpaths full⟩

/-- An operation without security whose parameter has no type. -/
def looseDocument : Json := documentWith [
  ("paths", .obj [("/a", .obj [("get", .obj [("parameters", .arr [.obj []])])])])]

/-- The scan of it without settings. -/
theorem scan_looseDocument : scan {} looseDocument.compact =
    .ok (reportOn (Rule.run Rule.all (dereference looseDocument))) := by
  have hload : load looseDocument.compact = .ok looseDocument :=
    load_ofList (v := looseDocument) (by decide +kernel) (by decide +kernel)
  have hvalid : validate looseDocument = .ok () :=
    validate_of_paths .openApi30 (by decide +kernel) (by decide) rfl rfl (by decide +kernel) rfl
  exact scan_eq_reportOn hload hvalid

/-- Settings that select two rules, one of them under two of its names. -/
def twoRules (excluded : List String) : ScanSettings where
  enabledAnalyzers := ["INPUT_validation", "rate_limiting", "Input_Validation_Analyzer"]
  excludePaths := excluded

theorem scan_only_filters_looseDocument :
    (∃ full, scan {} looseDocument.compact = .ok full ∧ full.issues.length = 4 ∧
      full.overallRisk = .high) ∧
    (twoRules ["*", "paths./b"]).enabledAnalyzers = (twoRules ["paths./b"]).enabledAnalyzers ∧
    (twoRules ["paths./b"]).excludePaths ⊆ (twoRules ["*", "paths./b"]).excludePaths ∧
    ∃ report report', scan (twoRules ["paths./b"]) looseDocument.compact = .ok report ∧
      report.issues.map (·.weakness) = [.rateLimiting, .inputValidation] ∧
      scan (twoRules ["*", "paths./b"]) looseDocument.compact = .ok report' ∧
      report'.issues.Sublist report.issues ∧
      report.overallRisk.rank ≤ report'.overallRisk.rank := by
  have hmore : (twoRules ["paths./b"]).excludePaths ⊆ (twoRules ["*", "paths./b"]).excludePaths :=
    List.subset_cons_self _ _
  refine ⟨⟨_, scan_looseDocument, by decide +kernel, by decide +kernel⟩, rfl, hmore, ?_⟩
  obtain ⟨report, hscan, hissues, _, _, _, hadd⟩ :=
    (scan_only_filters (twoRules ["paths./b"]) looseDocument.compact).2 _ scan_looseDocument
  obtain ⟨report', hscan', hsublist, hrank⟩ := hadd (twoRules ["*", "paths./b"]) rfl hmore
  refine ⟨report, report', hscan, ?_, hscan', hsublist, hrank⟩
  rw [hissues]
  decide +kernel

end SecurityScan
