import SecurityScan.Proofs.ConfigField

namespace SecurityScan

open Setting

/-!
# A source over earlier ones

What a source does to one field: it assigns settings to it, or to places inside it, one after the
other.

* `Setting.lookup_put`, `Setting.layOver_table`, `Setting.lookup_layEntriesOver` — what stands under
  a key after a table is laid over another;
* `Setting.path_eq_cons` — the place that a name stands for starts with a key;
* `Settings.SetsTables` — a source that sets sections as tables only;
* `ConfigField.assignments` — the assignments that an entry of a source makes to a field;
* `ConfigField.setting?_overlay` — the setting of a field after a source: the earlier one with the
  assignments made to it.
-/

namespace Settings

/-- The keys in their order. -/
def keys (es : Settings) : List String := es.map (·.1)

@[simp] theorem keys_nil : keys [] = [] := rfl

@[simp] theorem keys_cons (k : String) (v : Setting) (es : Settings) :
    keys ((k, v) :: es) = k :: keys es := rfl

theorem ne_nil_of_mem_keys {es : Settings} {k : String} (h : k ∈ es.keys) : es ≠ [] := by
  rintro rfl
  cases h

end Settings

namespace Setting

/-- The setting is a table. -/
def isTable : Setting → Bool
  | .table _ => true
  | _ => false

theorem eq_table_of_isTable {v : Setting} (h : v.isTable = true) : v = .table v.entries := by
  cases v with
  | table es => rfl
  | _ => cases h

theorem entries_of_not_isTable {v : Setting} (h : v.isTable = false) : v.entries = [] := by
  cases v with
  | table es => cases h
  | _ => rfl

/-! ### Tables -/

theorem lookup_cons (es : Settings) (key k : String) (v : Setting) :
    List.lookup k ((key, v) :: es) = if k = key then some v else es.lookup k := by
  by_cases h : k = key
  · simp [h]
  · have hbeq : (k == key) = false := beq_eq_false_iff_ne.mpr h
    rw [List.lookup_cons, hbeq, if_neg h]

theorem lookup_put (es : Settings) (key k : String) (v : Setting) :
    (put es key v).lookup k = if k = key then some v else es.lookup k := by
  induction es with
  | nil => exact lookup_cons [] key k v
  | cons p es ih =>
    obtain ⟨name, w⟩ := p
    by_cases hname : name = key
    · subst hname
      rw [put, if_pos rfl, lookup_cons, lookup_cons]
      split <;> rfl
    · rw [put, if_neg hname, lookup_cons, lookup_cons, ih]
      by_cases h : k = name
      · have hk : ¬ k = key := h ▸ hname
        rw [if_pos h, if_pos h, if_neg hk]
      · rw [if_neg h, if_neg h]

theorem mem_keys_put {es : Settings} {key k : String} {v : Setting} :
    k ∈ Settings.keys (put es key v) ↔ k = key ∨ k ∈ es.keys := by
  induction es with
  | nil => simp [put]
  | cons p es ih =>
    obtain ⟨name, w⟩ := p
    by_cases hname : name = key
    · simp [put, hname]
    · rw [put, if_neg hname, Settings.keys_cons, Settings.keys_cons, List.mem_cons, List.mem_cons,
        ih, or_left_comm]

theorem nodup_keys_put {es : Settings} (h : es.keys.Nodup) (key : String) (v : Setting) :
    (Settings.keys (put es key v)).Nodup := by
  induction es with
  | nil => exact List.pairwise_singleton _ key
  | cons p es ih =>
    obtain ⟨name, w⟩ := p
    obtain ⟨hnot, hes⟩ := List.nodup_cons.mp h
    by_cases hname : name = key
    · rw [put, if_pos hname]
      exact h
    · rw [put, if_neg hname]
      refine List.nodup_cons.mpr ⟨fun hmem => ?_, ih hes⟩
      exact (mem_keys_put.mp hmem).elim hname hnot

/-- A table over another setting: over its entries if it is a table, else over none. -/
theorem layOver_table (earlier : Option Setting) (es : Settings) :
    layOver earlier (.table es) = .table (layEntriesOver ((earlier.map entries).getD []) es) := rfl

theorem layOver_of_not_isTable {v : Setting} (h : v.isTable = false) (earlier : Option Setting) :
    layOver earlier v = v := by
  cases v with
  | table es => cases h
  | _ => rfl

/-- What stands under a key: the earlier setting with all that is laid over it there. -/
theorem lookup_layEntriesOver (old es : Settings) (key : String) :
    (layEntriesOver old es).lookup key =
      (es.filter (·.1 == key)).foldl (fun s p => some (layOver s p.2)) (old.lookup key) := by
  induction es generalizing old with
  | nil => rw [layEntriesOver]; rfl
  | cons p es ih =>
    obtain ⟨k, v⟩ := p
    rw [layEntriesOver, ih, lookup_put]
    by_cases h : k = key
    · subst h
      simp
    · have hkey : ¬ key = k := fun e => h e.symm
      simp [h, hkey]

theorem mem_keys_layEntriesOver {old es : Settings} {key : String} :
    key ∈ Settings.keys (layEntriesOver old es) ↔ key ∈ old.keys ∨ key ∈ es.keys := by
  induction es generalizing old with
  | nil => simp [layEntriesOver]
  | cons p es ih =>
    obtain ⟨k, v⟩ := p
    rw [layEntriesOver, ih, mem_keys_put, Settings.keys_cons, List.mem_cons, or_assoc, or_left_comm]

theorem layEntriesOver_eq_nil_iff {old es : Settings} :
    layEntriesOver old es = [] ↔ old = [] ∧ es = [] := by
  constructor
  · intro h
    cases es with
    | nil => exact ⟨by rwa [layEntriesOver] at h, rfl⟩
    | cons p es =>
      have hmem : p.1 ∈ Settings.keys (layEntriesOver old (p :: es)) :=
        mem_keys_layEntriesOver.mpr (.inr List.mem_cons_self)
      exact absurd h (Settings.ne_nil_of_mem_keys hmem)
  · rintro ⟨rfl, rfl⟩
    rw [layEntriesOver]

theorem nodup_keys_layEntriesOver {old es : Settings} (h : old.keys.Nodup) :
    (Settings.keys (layEntriesOver old es)).Nodup := by
  induction es generalizing old with
  | nil => rwa [layEntriesOver]
  | cons p es ih =>
    obtain ⟨k, v⟩ := p
    rw [layEntriesOver]
    exact ih (nodup_keys_put h k _)

/-! ### Places -/

/-- The steps to a name with indices start with a key. -/
theorem exists_key_of_namedSteps? {cs : List Char} {steps : List Step}
    (h : namedSteps? cs = some steps) : ∃ name rest, steps = .key name :: rest := by
  unfold namedSteps? at h
  split at h
  · cases h
  · split at h
    · cases h
    · obtain ⟨indices, -, rfl⟩ := Option.map_eq_some_iff.mp h
      exact ⟨_, _, rfl⟩

/-- The place that a name stands for starts with a key. -/
theorem path_eq_cons (name : String) : ∃ key rest, path name = .key key :: rest := by
  unfold path
  split
  · next steps hsteps =>
    obtain ⟨piece, pieces, hpieces⟩ :=
      List.exists_cons_of_ne_nil (Text.splitAt_ne_nil '.' name.toList)
    rw [hpieces, List.mapM_cons] at hsteps
    obtain ⟨first, hfirst, hsteps⟩ := Option.bind_eq_some_iff.mp hsteps
    obtain ⟨others, -, hsteps⟩ := Option.bind_eq_some_iff.mp hsteps
    obtain ⟨key, rest, rfl⟩ := exists_key_of_namedSteps? hfirst
    cases hsteps
    exact ⟨key, rest ++ others.flatten, rfl⟩
  · exact ⟨name, [], rfl⟩

end Setting

/-! ### Sections and fields -/

/-- A setting for a section as a whole is a table, and none is put in a section as if it were a
    list. -/
def setsTable : List Step → Setting → Bool
  | [.key name], v => !sectionNames.contains name || v.isTable
  | .key name :: .index _ :: _, _ => !sectionNames.contains name
  | _, _ => true

/-- Every section that the source sets is set as a table. -/
def Settings.SetsTables (src : Settings) : Prop := ∀ p ∈ src, setsTable (path p.1) p.2 = true

instance (src : Settings) : Decidable src.SetsTables :=
  inferInstanceAs (Decidable (∀ p ∈ src, setsTable (path p.1) p.2 = true))

theorem Settings.part_put (es : Settings) (key name : String) (v : Setting) :
    Settings.part (put es key v) name = if name = key then v.entries else es.part name := by
  rw [part, lookup_put]
  split <;> rfl

/-- A table over a section is laid over its entries. -/
theorem Settings.layOver_lookup (es : Settings) (name : String) (t : Settings) :
    layOver (es.lookup name) (.table t) = .table (layEntriesOver (es.part name) t) :=
  layOver_table (es.lookup name) t

theorem Settings.HasSections.put {es : Settings} (h : es.HasSections) {key : String} {v : Setting}
    (hv : key ∈ sectionNames → v = .table v.entries) : (Setting.put es key v).HasSections := by
  intro name hname w hw
  rw [lookup_put] at hw
  split at hw
  · next heq =>
    cases hw
    exact hv (heq ▸ hname)
  · exact h name hname w hw

namespace ConfigField

/-- The assignments to the field that a setting at a place makes: each puts a setting at a place
    inside the field. -/
def assignments (f : ConfigField) : List Step → Setting → List (List Step × Setting)
  | [.key part], v =>
    if f.part = part then (v.entries.filter (·.1 == f.key)).map fun p => ([], p.2) else []
  | .key part :: .key key :: rest, v => if f.part = part ∧ f.key = key then [(rest, v)] else []
  | _, _ => []

/-- A setting after an assignment. -/
def assign (s : Option Setting) (a : List Step × Setting) : Option Setting := some (place a.1 a.2 s)

variable {es src : Settings} (f : ConfigField)

theorem setting?_put (key : String) (v : Setting) :
    f.setting? (put es key v) = if f.part = key then v.entries.lookup f.key else f.setting? es := by
  rw [setting?, Settings.part_put]
  split <;> rfl

/-- A setting at a place makes its assignments, and leaves sections the tables that they are. -/
theorem setting?_place (hes : es.HasSections) (key : String) (rest : List Step) {v : Setting}
    (hv : setsTable (.key key :: rest) v = true) :
    (place (.key key :: rest) v (some (.table es))).entries.HasSections ∧
      f.setting? (place (.key key :: rest) v (some (.table es))).entries =
        (f.assignments (.key key :: rest) v).foldl assign (f.setting? es) := by
  have hplace : (place (.key key :: rest) v (some (.table es))).entries =
      put es key (place rest v (es.lookup key)) := rfl
  rw [hplace, setting?_put]
  match rest with
  | [] =>
    have htable : key ∈ sectionNames → place [] v (es.lookup key) =
        .table (layEntriesOver (es.part key) v.entries) := by
      intro hkey
      rw [eq_table_of_isTable (v := v) (by simpa [setsTable, hkey] using hv)]
      exact es.layOver_lookup key v.entries
    refine ⟨hes.put fun hkey => by rw [htable hkey]; rfl, ?_⟩
    by_cases hpart : f.part = key
    · rw [if_pos hpart, htable (hpart ▸ f.part_mem), assignments, if_pos hpart, List.foldl_map,
        Setting.entries, lookup_layEntriesOver, ← hpart]
      rfl
    · rw [if_neg hpart, assignments, if_neg hpart, List.foldl_nil]
  | .key k :: rest =>
    refine ⟨hes.put fun _ => rfl, ?_⟩
    by_cases hpart : f.part = key
    · subst hpart
      have hentries : (place (.key k :: rest) v (es.lookup f.part)).entries =
          put (es.part f.part) k (place rest v ((es.part f.part).lookup k)) := rfl
      rw [if_pos rfl, hentries, lookup_put]
      by_cases hkey : f.key = k
      · rw [if_pos hkey, assignments, if_pos ⟨rfl, hkey⟩, ← hkey]
        rfl
      · rw [if_neg hkey, assignments, if_neg fun h => hkey h.2]
        rfl
    · rw [if_neg hpart, assignments, if_neg fun h => hpart h.1, List.foldl_nil]
  | .index i :: rest =>
    have hkey : key ∉ sectionNames := by simpa [setsTable] using hv
    have hpart : ¬ f.part = key := fun h => hkey (h ▸ f.part_mem)
    refine ⟨hes.put fun h => absurd h hkey, ?_⟩
    rw [if_neg hpart]
    rfl

/-- All assignments to the field that a source makes. -/
def allAssignments (src : Settings) : List (List Step × Setting) :=
  src.flatMap fun p => f.assignments (path p.1) p.2

/-- **Overlaying.** After a source, the field has the earlier setting with the source's assignments
    made to it. -/
theorem setting?_overlay (hes : es.HasSections) (hsrc : src.SetsTables) :
    (es.overlay src).HasSections ∧
      f.setting? (es.overlay src) = (f.allAssignments src).foldl assign (f.setting? es) := by
  induction src generalizing es with
  | nil => exact ⟨hes, rfl⟩
  | cons p src ih =>
    obtain ⟨hp, hsrc⟩ := List.forall_mem_cons.mp hsrc
    obtain ⟨key, rest, hpath⟩ := path_eq_cons p.1
    rw [hpath] at hp
    obtain ⟨hsections, hsetting⟩ := f.setting?_place hes key rest hp
    obtain ⟨hall, heq⟩ := ih hsections hsrc
    have hcons : es.overlay (p :: src) =
        (place (.key key :: rest) p.2 (some (.table es))).entries.overlay src := by
      rw [← hpath]
      rfl
    rw [hcons]
    refine ⟨hall, ?_⟩
    rw [heq, hsetting, ← hpath, ← List.foldl_append]
    rfl

end ConfigField

end SecurityScan
