import Mathlib.Data.List.Infix
import SecurityScan.Proofs.ReportedLine
import SecurityScan.Source.Report

namespace SecurityScan.Source

/-!
# Findings and the examples that go with them

Probes and examples look for the same constructs twice, the probes with patterns that leave room for
blanks and the examples with plain texts.  A finding is sure to call for an example only if each
match of the pattern holds all the texts of the example.

* `Pattern.Takes.exists_suffix` — a match ends with a match of each end of the pattern;
* `Pattern.requires` — a check on the syntax of a pattern, and `Pattern.infix_of_requires`: what it
  passes stands in every text in which the pattern occurs;
* `Probe.entails` — so a probe that fires calls for an example;
* `secureExample?_eq_eval_iff` and `secureExample?_eq_innerHtml` — which texts get the two examples
  of the highest priority;
* `secureCodeExample_of_fires` — which example goes with the findings of the probes for `eval`,
  `innerHTML`, `document.write` and dynamic expressions.
-/

/-! ### Texts that every match holds -/

namespace Pattern

/-- What a pattern takes ends with what it takes without its first piece. -/
theorem Takes.exists_tail {piece : Piece} {ps : Pattern} {before after : Option Char}
    {m : List Char} (h : Takes (piece :: ps) before m after) :
    ∃ before' m', m' <:+ m ∧ Takes ps before' m' after := by
  cases h with
  | one _ hm => exact ⟨_, _, List.suffix_cons _ _, hm⟩
  | run _ hm => exact ⟨_, _, List.suffix_append _ _, hm⟩
  | word _ hm => exact ⟨_, _, List.suffix_append _ _, hm⟩
  | edge _ hm => exact ⟨_, _, List.suffix_rfl, hm⟩

/-- A match of a pattern ends with a match of each end of the pattern. -/
theorem Takes.exists_suffix {p q : Pattern} {before after : Option Char} {m : List Char}
    (h : p.Takes before m after) (hq : q <:+ p) :
    ∃ before' m', m' <:+ m ∧ q.Takes before' m' after := by
  obtain ⟨front, rfl⟩ := hq
  induction front generalizing before m with
  | nil => exact ⟨before, m, List.suffix_rfl, h⟩
  | cons piece front ih =>
    obtain ⟨before₁, m₁, hm₁, htail⟩ := h.exists_tail
    obtain ⟨before', m', hm', htakes⟩ := ih htail
    exact ⟨before', m', hm'.trans hm₁, htakes⟩

/-- Every match of the pattern holds the word: it stands at the start of what some end of the
    pattern takes. -/
def requires (p : Pattern) (word : List Char) : Bool :=
  p.tails.any fun q => Text.occurs word (lead q)

theorem infix_of_requires {p : Pattern} {word text : List Char} (hword : p.requires word = true)
    (h : p.occurs text = true) : word <:+: text := by
  obtain ⟨q, hq, hlead⟩ := List.any_eq_true.mp hword
  obtain ⟨front, m, back, hmatch⟩ := occurs_iff.mp h
  obtain ⟨before, m', hend, htakes⟩ := hmatch.takes.exists_suffix ((List.mem_tails q p).mp hq)
  have hm : word <:+: m :=
    ((SecurityScan.occurs_iff word (lead q)).mp hlead).trans
      (htakes.lead_prefix.isInfix.trans hend.isInfix)
  rw [hmatch.cut]
  exact hm.trans (List.infix_append front m back)

end Pattern

/-! ### Probes that call for an example -/

theorem SecureExample.isFor_iff {e : SecureExample} {text : List Char} :
    e.isFor text = true ↔ ∀ t ∈ e.triggers, t.toList <:+: text := by
  rw [isFor, List.all_eq_true]
  exact forall₂_congr fun t _ => SecurityScan.occurs_iff t.toList text

namespace Probe

/-- Every match of the probe calls for the example. -/
def entails (p : Probe) (e : SecureExample) : Bool :=
  e.triggers.all fun t => p.pattern.requires t.toList

theorem isFor_of_entails {p : Probe} {e : SecureExample} {text : List Char}
    (he : p.entails e = true) (h : p.fires text = true) : e.isFor text = true := by
  rw [SecureExample.isFor_iff]
  intro t ht
  exact Pattern.infix_of_requires (List.all_eq_true.mp he t ht) h

/-- The probes with an example that every match of them calls for. -/
def exemplified : List (Probe × SecureExample) :=
  [(innerHtml, .innerHtml), (documentWrite, .documentWrite), (dynamicRegexp, .regexp)]

theorem entails_of_mem_exemplified : ∀ q ∈ exemplified, q.1.entails q.2 = true := by
  decide +kernel

theorem mem_all_of_mem_exemplified {q : Probe × SecureExample} (h : q ∈ exemplified) :
    q.1 ∈ all ∧ q.2 ∈ SecureExample.all := by
  simp only [exemplified, List.mem_cons, List.not_mem_nil, or_false] at h
  rcases h with rfl | rfl | rfl <;> simp [all, SecureExample.all]

end Probe

/-! ### The example of a text -/

section

variable {text : List Char}

/-- There is an example exactly if the text calls for one. -/
theorem isSome_secureExample?_iff :
    (secureExample? text).isSome = true ↔
      ∃ e ∈ SecureExample.all, ∀ t ∈ e.triggers, t.toList <:+: text := by
  simp only [secureExample?, Option.isSome_map, List.find?_isSome, SecureExample.isFor_iff]

/-- The example for `eval` comes first, and no other one has its snippet. -/
theorem secureExample?_eq_eval_iff :
    secureExample? text = some SecureExample.eval.snippet ↔ "eval(".toList <:+: text := by
  have hdiffer : ∀ e ∈ SecureExample.all,
      e.snippet = SecureExample.eval.snippet → e.triggers = SecureExample.eval.triggers := by
    decide +kernel
  have hcalled : SecureExample.eval.isFor text = true ↔ "eval(".toList <:+: text := by
    simp [SecureExample.isFor_iff, SecureExample.eval]
  rw [← hcalled]
  constructor
  · intro h
    obtain ⟨e, hfind, hsnippet⟩ := Option.map_eq_some_iff.mp h
    have hfor : e.isFor text = true := by simpa using List.find?_some hfind
    have htriggers := hdiffer e (List.mem_of_find?_eq_some hfind) hsnippet
    rwa [SecureExample.isFor, ← htriggers]
  · intro h
    rw [secureExample?, SecureExample.all, List.find?_cons, h]
    rfl

/-- A text that calls for the example for `innerHTML` gets it unless that for `eval` comes first. -/
theorem secureExample?_eq_innerHtml (heval : ¬ "eval(".toList <:+: text)
    (h : SecureExample.innerHtml.isFor text = true) :
    secureExample? text = some SecureExample.innerHtml.snippet := by
  have hnot : SecureExample.eval.isFor text = false := by
    rw [← Bool.not_eq_true, SecureExample.isFor_iff]
    intro hall
    exact heval (hall _ (by simp [SecureExample.eval]))
  rw [secureExample?, SecureExample.all, List.find?_cons, hnot, List.find?_cons, h]
  rfl

end

/-! ### Reports -/

/-- A report with a finding has the example that its text gets. -/
theorem secureCodeExample_eq {p : Probe} {code : String} (hp : p ∈ Probe.all)
    (h : p.fires code.toList = true) :
    (analyze code).secureCodeExample = secureExample? code.toList := by
  have hfinding : p.finding code.toList ∈ findings code.toList :=
    List.mem_filterMap.mpr ⟨p, hp, Probe.check?_eq_some_iff.mpr ⟨h, rfl⟩⟩
  have hfound : ¬ (findings code.toList).isEmpty = true := by
    rw [List.isEmpty_iff]
    exact List.ne_nil_of_mem hfinding
  show (if (findings code.toList).isEmpty then none else _) = _
  rw [if_neg hfound]

/-- **The example that goes with a finding.** A report in which the probe for `innerHTML`,
    `document.write` or dynamic expressions fires has an example.  If the probe for `eval` fires,
    the example is that for `eval` exactly if `eval` stands somewhere with the parenthesis right
    behind it.  If the probe for `innerHTML` fires, the example is that for `eval` in this case too,
    and that for `innerHTML` otherwise. -/
theorem secureCodeExample_of_fires (code : String) :
    (∀ p ∈ [Probe.innerHtml, Probe.documentWrite, Probe.dynamicRegexp],
      p.fires code.toList = true → (analyze code).secureCodeExample.isSome = true) ∧
    (Probe.eval.fires code.toList = true →
      ((analyze code).secureCodeExample = some SecureExample.eval.snippet ↔
        "eval(".toList <:+: code.toList)) ∧
    (Probe.innerHtml.fires code.toList = true →
      ("eval(".toList <:+: code.toList →
        (analyze code).secureCodeExample = some SecureExample.eval.snippet) ∧
      (¬ "eval(".toList <:+: code.toList →
        (analyze code).secureCodeExample = some SecureExample.innerHtml.snippet)) := by
  have hcalled : ∀ q ∈ Probe.exemplified, q.1.fires code.toList = true →
      (analyze code).secureCodeExample = secureExample? code.toList ∧
        q.2.isFor code.toList = true := by
    intro q hq hfires
    exact ⟨secureCodeExample_eq (Probe.mem_all_of_mem_exemplified hq).1 hfires,
      Probe.isFor_of_entails (Probe.entails_of_mem_exemplified q hq) hfires⟩
  refine ⟨?_, ?_, ?_⟩
  · intro p hp hfires
    obtain ⟨q, hq, rfl⟩ : ∃ q ∈ Probe.exemplified, q.1 = p :=
      List.mem_map.mp (show p ∈ Probe.exemplified.map (·.1) from hp)
    obtain ⟨hexample, hfor⟩ := hcalled q hq hfires
    rw [hexample, isSome_secureExample?_iff]
    exact ⟨q.2, (Probe.mem_all_of_mem_exemplified hq).2, SecureExample.isFor_iff.mp hfor⟩
  · intro hfires
    rw [secureCodeExample_eq (by simp [Probe.all]) hfires, secureExample?_eq_eval_iff]
  · intro hfires
    obtain ⟨hexample, hfor⟩ :=
      hcalled (.innerHtml, .innerHtml) (by simp [Probe.exemplified]) hfires
    rw [hexample]
    exact ⟨secureExample?_eq_eval_iff.mpr, fun heval => secureExample?_eq_innerHtml heval hfor⟩

/-- A call of `eval` behind a blank, and an assignment to `innerHTML`. -/
def spacedEval : String := "el.innerHTML = eval (x);"

theorem secureCodeExample_spacedEval :
    Probe.eval.fires spacedEval.toList = true ∧ Probe.innerHtml.fires spacedEval.toList = true ∧
      (analyze spacedEval).secureCodeExample = some SecureExample.innerHtml.snippet ∧
      (analyze spacedEval).secureCodeExample ≠ some SecureExample.eval.snippet := by
  have heval : Probe.eval.fires spacedEval.toList = true := by decide +kernel
  have hinner : Probe.innerHtml.fires spacedEval.toList = true := by decide +kernel
  have hspaced : ¬ "eval(".toList <:+: spacedEval.toList := by
    rw [← SecurityScan.occurs_iff]
    decide +kernel
  obtain ⟨-, hiff, hchoice⟩ := secureCodeExample_of_fires spacedEval
  exact ⟨heval, hinner, (hchoice hinner).2 hspaced, fun h => hspaced ((hiff heval).mp h)⟩

/-- **A finding without an example.** A blank before the parenthesis of a call of `eval` is seen by
    the probe and hides the call from the example. -/
theorem spacedCall_without_example :
    Probe.eval.fires "eval (x)".toList = true ∧ (analyze "eval (x)").secureCodeExample = none := by
  decide +kernel

end SecurityScan.Source
