import SecurityScan.Json.Reader

namespace SecurityScan.Json

/-!
# How deep a text nests

The reader counts what is open and stops where it would be too much, so a value that it has read is
no deeper than that.

* `depthItems_le_iff` and `depthMembers_le_iff` — the depth of a list is that of its deepest value;
* `FramesFit` and `Progress.Fits` — with all that has been read, no more is nested than the reader
  allows;
* `Progress.fits_step` and `Progress.fits_run` — one token keeps it so, and so does a whole text;
* `depth_le_of_parse?` — so the value of a text is no deeper than the reader allows.
-/

/-! ### Depths -/

theorem depthItems_le_iff {vs : List Json} {n : Nat} :
    depthItems vs ≤ n ↔ ∀ v ∈ vs, v.depth ≤ n := by
  induction vs with
  | nil => simp [depthItems]
  | cons v vs ih => rw [depthItems, Nat.max_le, ih, List.forall_mem_cons]

theorem depthMembers_le_iff {ms : Members} {n : Nat} :
    depthMembers ms ≤ n ↔ ∀ p ∈ ms, p.2.depth ≤ n := by
  induction ms with
  | nil => simp [depthMembers]
  | cons p ms ih =>
    obtain ⟨k, v⟩ := p
    rw [depthMembers, Nat.max_le, ih, List.forall_mem_cons]

theorem depthItems_reverse (vs : List Json) : depthItems vs.reverse = depthItems vs := by
  have hsame (n : Nat) : depthItems vs.reverse ≤ n ↔ depthItems vs ≤ n := by
    simp [depthItems_le_iff]
  exact Nat.le_antisymm ((hsame _).mpr (Nat.le_refl _)) ((hsame _).mp (Nat.le_refl _))

theorem depthMembers_reverse (ms : Members) : depthMembers ms.reverse = depthMembers ms := by
  have hsame (n : Nat) : depthMembers ms.reverse ≤ n ↔ depthMembers ms ≤ n := by
    simp [depthMembers_le_iff]
  exact Nat.le_antisymm ((hsame _).mpr (Nat.le_refl _)) ((hsame _).mp (Nat.le_refl _))

/-! ### The reader -/

/-- How deep the values go that stand in a frame already. -/
def Frame.depth : Frame → Nat
  | .array items => depthItems items
  | .object members _ => depthMembers members

/-- Open frames, the innermost first, nest no deeper than the reader allows. -/
def FramesFit : List Frame → Prop
  | [] => True
  | f :: frames => frames.length + 1 + f.depth ≤ maxOpen ∧ FramesFit frames

/-- What has been read nests no deeper than the reader allows. -/
def Progress.Fits : Progress → Prop
  | .value frames => FramesFit frames
  | .firstItem frames | .firstKey frames => frames.length + 1 ≤ maxOpen ∧ FramesFit frames
  | .nextKey members frames | .afterKey members _ frames =>
    frames.length + 1 + depthMembers members ≤ maxOpen ∧ FramesFit frames
  | .complete v frames => frames.length + v.depth ≤ maxOpen ∧ FramesFit frames

theorem FramesFit.length_le {frames : List Frame} (h : FramesFit frames) :
    frames.length ≤ maxOpen := by
  cases frames with
  | nil => exact Nat.zero_le _
  | cons f frames =>
    have hlength : frames.length + 1 + f.depth ≤ maxOpen := h.1
    rw [List.length_cons]
    omega

namespace Progress

theorem fits_start {frames : List Frame} {t : Token} {q : Progress} (hframes : FramesFit frames)
    (h : start frames t = some q) : q.Fits := by
  unfold start at h
  split at h
  case h_5 | h_6 =>
    split at h
    · next hroom =>
      cases h
      exact ⟨hroom, hframes⟩
    · cases h
  case h_7 => cases h
  -- literals, numbers and strings are not deep
  all_goals
    cases h
    exact ⟨hframes.length_le, hframes⟩

/-- **One step.** -/
theorem fits_step {p q : Progress} {t : Token} (hp : p.Fits) (h : p.step t = some q) : q.Fits := by
  unfold step at h
  split at h
  case h_1 => exact fits_start hp h
  case h_3 =>
    -- the array has been opened, and holds nothing yet
    exact fits_start (show FramesFit (.array [] :: _) from hp) h
  case h_12 => cases h
  case h_8 | h_9 | h_10 | h_11 =>
    -- the complete value takes its place in the frame below, which a bracket or brace then closes
    cases h
    simp only [Fits, FramesFit, Frame.depth, Json.depth, depthItems_reverse, depthMembers_reverse,
      depthItems, depthMembers, List.length_cons] at hp ⊢
    exact ⟨by omega, hp.2.2⟩
  all_goals
    cases h
    simp only [Fits, FramesFit, Frame.depth, Json.depth, depthItems, depthMembers] at hp ⊢
    exact ⟨by omega, hp.2⟩

/-- **The run.** -/
theorem fits_run {p q : Progress} {ts : List Token} (hp : p.Fits) (h : p.run ts = (q, true)) :
    q.Fits := by
  induction ts generalizing p with
  | nil =>
    cases h
    exact hp
  | cons t ts ih =>
    rw [run] at h
    split at h
    · next p' hp' => exact ih (fits_step hp hp') h
    · cases h

end Progress

/-- **A text nests no deeper than the reader allows.** -/
theorem depth_le_of_parse? {text : String} {v : Json} (h : parse? text = some v) :
    v.depth ≤ maxOpen := by
  obtain ⟨ts, _, hrun⟩ := exists_run_of_parse? h
  have hfits := Progress.fits_run (show (Progress.value []).Fits from trivial) hrun
  simpa using hfits.1

end SecurityScan.Json
