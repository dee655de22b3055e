import SecurityScan.Proofs.Selection
import SecurityScan.Config.Load

namespace SecurityScan

open Specification

/-!
# What exclusions do to the findings on a document as a whole

The findings on a document as a whole stand at the path `root`.  A star leaves them out of no
report, but an entry that is a prefix of `root` leaves out all of them, and the empty entry is one.

* `Report.rootFindings` — the findings at the root;
* `covers_root_iff` — an entry covers the root only as a prefix of it;
* `rootFindings_scan` — a scan by all rules keeps the findings at the root exactly if no entry is a
  prefix of `root`, the empty one counted among the prefixes;
* `emptyEntry_hides_rootFindings` — the empty entry, which an empty variable of the environment
  gives, leaves them out.
-/

/-- The findings on the document as a whole. -/
def Specification.Report.rootFindings (r : Report) : List Finding :=
  r.issues.filter fun f => f.path = "root"

/-- The star is no reason to cover the root. -/
theorem covers_root_iff {entry : String} :
    Covers entry "root" ↔ entry.toList <+: "root".toList := by
  constructor
  · rintro (⟨_, hne⟩ | hprefix)
    · exact absurd rfl hne
    · exact hprefix
  · exact .inr

/-- With all rules selected, the list of excluded places alone decides on a finding at the root. -/
theorem ScanSettings.keeps_iff_of_root {c : ScanSettings} (hrules : ∀ rule, c.Selects rule)
    {f : Finding} (hf : f.path = "root") :
    c.Keeps f ↔ ∀ entry ∈ c.excludePaths, ¬ entry.toList <+: "root".toList := by
  have hkind : ∃ rule, c.Selects rule ∧ f.weakness = rule.weakness := by
    cases hw : f.weakness with
    | authentication => exact ⟨.authentication, hrules _, rfl⟩
    | dataExposure => exact ⟨.dataExposure, hrules _, rfl⟩
    | rateLimiting => exact ⟨.rateLimiting, hrules _, rfl⟩
    | inputValidation => exact ⟨.inputValidation, hrules _, rfl⟩
  unfold Keeps
  rw [hf]
  constructor
  · rintro ⟨_, hnot⟩ entry hentry hprefix
    exact hnot entry hentry (covers_root_iff.mpr hprefix)
  · intro hnot
    refine ⟨hkind, fun entry hentry hcovers => ?_⟩
    exact hnot entry hentry (covers_root_iff.mp hcovers)

/-- Restricting a report keeps all findings at the root or none of them. -/
theorem rootFindings_restrict {c : ScanSettings} (hrules : ∀ rule, c.Selects rule)
    (full : Report) :
    (c.restrict full).rootFindings =
      if ∃ entry ∈ c.excludePaths, entry.toList <+: "root".toList then []
      else full.rootFindings := by
  show (full.issues.filter _).filter _ = _
  rw [List.filter_filter]
  by_cases hprefix : ∃ entry ∈ c.excludePaths, entry.toList <+: "root".toList
  · rw [if_pos hprefix, List.filter_eq_nil_iff]
    obtain ⟨entry, hentry, hprefix⟩ := hprefix
    intro f _ hf
    obtain ⟨hroot, hkeeps⟩ : f.path = "root" ∧ c.Keeps f := by simpa using hf
    exact (ScanSettings.keeps_iff_of_root hrules hroot).mp hkeeps entry hentry hprefix
  · have hnot : ∀ entry ∈ c.excludePaths, ¬ entry.toList <+: "root".toList :=
      fun entry hentry h => hprefix ⟨entry, hentry, h⟩
    rw [if_neg hprefix]
    refine List.filter_congr fun f _ => ?_
    rw [← Bool.decide_and, decide_eq_decide]
    constructor
    · exact fun h => h.1
    · exact fun hroot => ⟨hroot, (ScanSettings.keeps_iff_of_root hrules hroot).mpr hnot⟩

/-- **Findings at the root.** A scan by all rules keeps the findings on the document as a whole, in
    their order, if no entry of the list of excluded places is a prefix of `root`, and none of them
    if there is such an entry.  So each of them is kept by a list without the empty entry, unless
    another entry is a prefix of `root`. -/
theorem rootFindings_scan {c : Config} {text : String} {full : Report}
    (hrules : ∀ rule, c.scanning.Selects rule) (hfull : scan {} text = .ok full) :
    ∃ report, scan c.scanning text = .ok report ∧
      report.rootFindings =
        (if ∃ entry ∈ c.scanning.excludePaths, entry.toList <+: "root".toList then []
        else full.rootFindings) ∧
      ("" ∉ c.scanning.excludePaths →
        (∀ entry ∈ c.scanning.excludePaths, entry ≠ "" → ¬ entry.toList <+: "root".toList) →
        ∀ f ∈ full.issues, f.path = "root" → f ∈ report.issues) := by
  have hscan : scan c.scanning text = .ok (c.scanning.restrict full) := by
    rw [scan_eq_map_restrict, hfull]
    rfl
  refine ⟨_, hscan, rootFindings_restrict hrules full, fun hempty hnonempty f hf hroot => ?_⟩
  have hnot : ∀ entry ∈ c.scanning.excludePaths, ¬ entry.toList <+: "root".toList := by
    intro entry hentry
    refine hnonempty entry hentry ?_
    rintro rfl
    exact hempty hentry
  have hkeeps : c.scanning.Keeps f := (ScanSettings.keeps_iff_of_root hrules hroot).mpr hnot
  exact List.mem_filter.mpr ⟨hf, decide_eq_true hkeeps⟩

/-- A configuration that excludes by a star, by a path and by a word that starts like `root`. -/
def starConfig : Config where
  scanning := { excludePaths := ["*", "paths./a", "roots"] }

theorem rootFindings_scan_star :
    ((∀ rule, starConfig.scanning.Selects rule) ∧ starConfig.check = .ok () ∧
      ∃ full, scan {} looseDocument.compact = .ok full ∧ full.rootFindings.length = 2) ∧
    ∃ report, scan starConfig.scanning looseDocument.compact = .ok report ∧
      report.rootFindings.length = 2 := by
  have hrules : ∀ rule, starConfig.scanning.Selects rule := fun _ => .inl rfl
  refine ⟨⟨hrules, by decide +kernel, _, scan_looseDocument, by decide +kernel⟩, ?_⟩
  obtain ⟨report, hscan, hroot, _⟩ := rootFindings_scan hrules scan_looseDocument
  refine ⟨report, hscan, ?_⟩
  rw [hroot]
  decide +kernel

/-- A document without operations, so that all findings are at the root. -/
def emptyDocument : Json := documentWith [("paths", .obj [])]

/-- The configuration whose list of excluded places holds the empty entry alone. -/
def emptyEntryConfig : Config where
  scanning := { excludePaths := [""] }

/-- **The empty entry hides the document.** An empty variable gives a list with the empty entry
    alone.  The configuration is accepted, all rules run, no entry is a non-empty prefix of `root`,
    and yet a finding on the document as a whole is left out. -/
theorem emptyEntry_hides_rootFindings :
    Config.load [] [("SCANLAB__API_SECURITY__EXCLUDE_PATHS", "")] = .ok emptyEntryConfig ∧
      emptyEntryConfig.check = .ok () ∧ (∀ rule, emptyEntryConfig.scanning.Selects rule) ∧
      (∀ entry ∈ emptyEntryConfig.scanning.excludePaths,
        entry ≠ "" → ¬ entry.toList <+: "root".toList) ∧
      ∃ full report, scan {} emptyDocument.compact = .ok full ∧
        scan emptyEntryConfig.scanning emptyDocument.compact = .ok report ∧
        ∃ f ∈ full.issues, f.path = "root" ∧ f ∉ report.issues := by
  have hload : load emptyDocument.compact = .ok emptyDocument :=
    load_ofList (v := emptyDocument) (by decide +kernel) (by decide +kernel)
  have hvalid : validate emptyDocument = .ok () :=
    validate_of_paths .openApi30 (by decide +kernel) (by decide) rfl rfl (by decide +kernel) rfl
  have hfull := scan_eq_reportOn hload hvalid
  have hscan := scan_eq_map_restrict emptyEntryConfig.scanning emptyDocument.compact
  rw [hfull] at hscan
  refine ⟨by decide +kernel, by decide +kernel, fun _ => .inl rfl, by decide, _, _, hfull, hscan,
    ?_⟩
  decide +kernel

end SecurityScan
