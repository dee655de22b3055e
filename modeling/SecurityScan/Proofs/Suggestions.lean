import SecurityScan.Proofs.Concatenation
import SecurityScan.Proofs.FirstOccurrence

namespace SecurityScan.Source

/-!
# Suggestions

* `listsOnce_addDistinct` — collecting what is not there yet lists every text once, where it comes
  first;
* `idxOf_lt_of_filter` — texts that are left out change no order among the others;
* `nodup_recommendations` — no two probes have the same recommendation, and none has one of the
  general suggestions;
* `suggestionsFor_distinct` — the suggestions for any findings, and those for a text.
-/

/-! ### Collecting -/

/-- **Collecting.** If `done` lists the texts met so far, then going through more texts lists all of
    them. -/
theorem listsOnce_addDistinct {met done : List String} (h : ListsOnce met done)
    (xs : List String) : ListsOnce (met ++ xs) (addDistinct done xs) := by
  induction xs generalizing met done with
  | nil => rwa [List.append_nil]
  | cons x xs ih =>
    -- the invariant holds again with `x` among the texts met
    have hstep := ih (h.snoc x)
    simp only [List.append_assoc, List.singleton_append] at hstep
    simpa only [addDistinct, List.contains_eq_mem, decide_eq_true_eq] using hstep

/-- Texts that are all new are all appended. -/
theorem addDistinct_of_nodup {done xs : List String} (h : (done ++ xs).Nodup) :
    addDistinct done xs = done ++ xs := by
  induction xs generalizing done with
  | nil => exact (List.append_nil done).symm
  | cons x xs ih =>
    have hsplit : done ++ x :: xs = done ++ [x] ++ xs := by simp
    have hnew : x ∉ done := fun hmem =>
      (List.nodup_append.mp h).2.2 x hmem x List.mem_cons_self rfl
    rw [addDistinct, if_neg (by simpa using hnew), hsplit]
    exact ih (hsplit ▸ h)

/-- What comes first among the texts that are kept comes first among all. -/
theorem idxOf_lt_of_filter {p : String → Bool} {xs : List String} {s t : String}
    (hs : p s = true) (ht : p t = true)
    (h : (xs.filter p).idxOf s < (xs.filter p).idxOf t) : xs.idxOf s < xs.idxOf t := by
  induction xs with
  | nil => exact h
  | cons x xs ih =>
    by_cases hx : p x = true
    · rw [List.filter_cons_of_pos hx] at h
      by_cases hxt : x = t
      · rw [hxt, List.idxOf_cons_self] at h
        exact absurd h (Nat.not_lt_zero _)
      · by_cases hxs : x = s
        · rw [hxs, List.idxOf_cons_self, List.idxOf_cons_ne _ (hxs ▸ hxt)]
          exact Nat.succ_pos _
        · rw [List.idxOf_cons_ne _ hxs, List.idxOf_cons_ne _ hxt] at h ⊢
          exact Nat.succ_lt_succ (ih (Nat.lt_of_succ_lt_succ h))
    · -- a text that is left out moves both places by one
      have hxs : x ≠ s := fun e => hx (e ▸ hs)
      have hxt : x ≠ t := fun e => hx (e ▸ ht)
      rw [List.filter_cons_of_neg hx] at h
      rw [List.idxOf_cons_ne _ hxs, List.idxOf_cons_ne _ hxt]
      exact Nat.succ_lt_succ (ih h)

/-! ### Suggestions -/

/-- The recommendations of findings and the general suggestions behind them. -/
def candidates (fs : List Finding) : List String :=
  fs.map (·.recommendation) ++ generalSuggestions

theorem filter_candidates (fs : List Finding) :
    (candidates fs).filter (· ≠ "") =
      (fs.map (·.recommendation)).filter (· ≠ "") ++ generalSuggestions := by
  have hgeneral : generalSuggestions.filter (· ≠ "") = generalSuggestions := by decide
  rw [candidates, List.filter_append, hgeneral]

/-- The suggestions list the candidates that are not empty. -/
theorem listsOnce_suggestionsFor (fs : List Finding) :
    ListsOnce ((candidates fs).filter (· ≠ "")) (suggestionsFor fs) := by
  rw [filter_candidates]
  exact listsOnce_addDistinct ListsOnce.nil _

/-- No two probes have the same recommendation, and none has one of the general suggestions. -/
theorem nodup_recommendations :
    (Probe.all.map (·.recommendation) ++ generalSuggestions).Nodup := by
  decide +kernel

theorem recommendation_ne_empty : ∀ p ∈ Probe.all, p.recommendation ≠ "" := by decide

/-- The recommendations of the findings on a text are those of the probes that fire. -/
theorem recommendations_findings (text : List Char) :
    (findings text).map (·.recommendation) = (Probe.fired text).map (·.recommendation) := by
  rw [findings_eq_map, List.map_map]
  rfl

/-- The recommendations of the findings on a text and the general suggestions are all different. -/
theorem nodup_candidates_findings (text : List Char) : (candidates (findings text)).Nodup := by
  have hsub : (Probe.fired text).Sublist Probe.all := List.filter_sublist
  rw [candidates, recommendations_findings]
  exact nodup_recommendations.sublist ((hsub.map _).append_right _)

theorem candidates_findings_ne_empty (text : List Char) :
    ∀ s ∈ candidates (findings text), s ≠ "" := by
  intro s hs
  rw [candidates, recommendations_findings, List.mem_append] at hs
  rcases hs with hs | hs
  · obtain ⟨p, hp, rfl⟩ := List.mem_map.mp hs
    exact recommendation_ne_empty p (List.mem_of_mem_filter hp)
  · revert s
    decide

/-- **Suggestions.** For any findings, the suggestions are all different.  They are the
    recommendations that are not empty and the general suggestions, in the order in which these come
    first among the recommendations with the general suggestions behind them.  For the findings on a
    text nothing is left out: the suggestions are all recommendations in their order and then the
    general suggestions. -/
theorem suggestionsFor_distinct (fs : List Finding) :
    (suggestionsFor fs).Nodup ∧
    (∀ s, s ∈ suggestionsFor fs ↔
      (s ≠ "" ∧ ∃ f ∈ fs, f.recommendation = s) ∨ s ∈ generalSuggestions) ∧
    (suggestionsFor fs).Pairwise (fun s t =>
      (fs.map (·.recommendation) ++ generalSuggestions).idxOf s <
        (fs.map (·.recommendation) ++ generalSuggestions).idxOf t) ∧
    ∀ text : List Char, suggestionsFor (findings text) =
      (findings text).map (·.recommendation) ++ generalSuggestions := by
  have hlists := listsOnce_suggestionsFor fs
  have hmem : ∀ s ∈ suggestionsFor fs, (s ≠ "") = true := by
    intro s hs
    simpa using (List.mem_filter.mp ((hlists.mem_iff s).mp hs)).2
  refine ⟨hlists.nodup, fun s => ?_, ?_, fun text => ?_⟩
  · rw [hlists.mem_iff, filter_candidates, List.mem_append, List.mem_filter, List.mem_map]
    simp [and_comm]
  · exact hlists.ordered.imp_of_mem fun hs ht hlt =>
      idxOf_lt_of_filter (by simpa using hmem _ hs) (by simpa using hmem _ ht) hlt
  · have hall : (candidates (findings text)).filter (· ≠ "") = candidates (findings text) :=
      List.filter_eq_self.mpr fun s hs => by simpa using candidates_findings_ne_empty text s hs
    rw [suggestionsFor, ← filter_candidates, hall]
    exact addDistinct_of_nodup (nodup_candidates_findings text)

end SecurityScan.Source
