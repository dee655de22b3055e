import SecurityScan.Proofs.Parts
import SecurityScan.Proofs.ReplyMeaning
import SecurityScan.Proofs.TokenOrder

namespace SecurityScan

/-!
# The message of a failed reply

A failure carries what the server says about it.  A server may say it in a member of its text or in
a member of that, and a text that says nothing is carried as it stands.

* `Json.length_lt_of_part` — no string in a loaded text is as long as the text, so a text and a
  message in it can be told apart;
* `Reply.Names` and `Reply.Tells` — the message that a text names, and the message to carry;
* `Reply.Hides` — what the member `message` is hides the message of the member `error`;
* `Reply.tells_failureText_iff` — the message is the one to carry exactly if none is hidden;
* `Failure.Carries` and `Client.complete_carries` — so are those that exchanges fail with.
-/

/-! ### Strings in loaded texts -/

namespace Json

/-- Settling repeated keys leaves nothing in a value that was not there. -/
theorem exists_part_of_part_merged (v : Json) {w : Json} (h : v.merged.Part w) :
    ∃ u, v.Part u ∧ u.merged = w := by
  induction v using Json.induct with
  | null | bool | num | str =>
    cases h
    exact ⟨_, .self, rfl⟩
  | arr vs ih =>
    rw [merged, mergedItems_eq_map] at h
    cases h with
    | self => exact ⟨_, .self, by rw [merged, mergedItems_eq_map]⟩
    | item hmem hpart =>
      obtain ⟨v, hv, rfl⟩ := List.mem_map.mp hmem
      obtain ⟨u, hu, hw⟩ := ih v hv hpart
      exact ⟨u, .item hv hu, hw⟩
  | obj ms ih =>
    rw [merged, mergedMembers_eq_map] at h
    cases h with
    | self => exact ⟨_, .self, by rw [merged, mergedMembers_eq_map]⟩
    | member hmem hpart =>
      -- of a repeated key one member is left, which is one of those that were there
      obtain ⟨p, hp, rfl⟩ := List.mem_map.mp (Members.mem_ofPairs hmem)
      obtain ⟨u, hu, hw⟩ := ih p hp hpart
      exact ⟨u, .member hp hu, hw⟩

theorem mem_texts_of_part {v : Json} {s : String} (h : v.Part (.str s)) : s ∈ v.texts := by
  generalize hw : Json.str s = w at h
  induction h with
  | self => simp [← hw, texts]
  | item hmem _ ih =>
    rw [texts]
    exact mem_textsOfItems.mpr ⟨_, hmem, ih hw⟩
  | member hmem _ ih =>
    rw [texts]
    exact mem_textsOfMembers.mpr ⟨_, hmem, .inr (ih hw)⟩

/-- **A loaded text is longer than the strings in it.** -/
theorem length_lt_of_part {text s : String} {v : Json} (h : load? text = some v)
    (hs : v.Part (.str s)) : s.toList.length < text.toList.length := by
  obtain ⟨w, hw, rfl⟩ := Option.map_eq_some_iff.mp h
  obtain ⟨u, hu, hmerged⟩ := exists_part_of_part_merged w hs
  obtain rfl : u = .str s := by
    cases u <;> simp_all [merged]
  exact length_lt_of_mem_texts hw (mem_texts_of_part hu)

end Json

namespace Review

/-! ### Messages in texts -/

namespace Reply

/-- The text names the message `s`: in the member `message`, or in that of the member `error` if
    `message` is no string. -/
inductive Names (text s : String) : Prop where
  | own {v : Json} : Json.load? text = some v → v.get? "message" = some (.str s) → Names text s
  | ofError {v : Json} :
      Json.load? text = some v → (∀ t, v.get? "message" ≠ some (.str t)) →
      v.at? ["error", "message"] = some (.str s) → Names text s

/-- The message to carry: the one that the text names, or the text itself if it names none. -/
inductive Tells (text : String) : String → Prop where
  | named {s : String} : Names text s → Tells text s
  | raw : (∀ s, ¬ Names text s) → Tells text text

/-- A member `message` that is no string stands beside a message of the member `error`. -/
def Hides (text : String) : Prop :=
  ∃ v m s, Json.load? text = some v ∧ v.get? "message" = some m ∧ (∀ t, m ≠ .str t) ∧
    v.at? ["error", "message"] = some (.str s)

variable {text : String}

section

variable {v : Json} (hv : Json.load? text = some v)

include hv

theorem names_iff {s : String} :
    Names text s ↔ v.get? "message" = some (.str s) ∨
      (∀ t, v.get? "message" ≠ some (.str t)) ∧ v.at? ["error", "message"] = some (.str s) := by
  constructor
  · intro h
    cases h with
    | own hv' hmessage =>
      cases hv.symm.trans hv'
      exact .inl hmessage
    | ofError hv' hother hmessage =>
      cases hv.symm.trans hv'
      exact .inr ⟨hother, hmessage⟩
  · rintro (hmessage | ⟨hother, hmessage⟩)
    · exact .own hv hmessage
    · exact .ofError hv hother hmessage

theorem failureText_eq :
    failureText text = (((v.get? "message").or (v.at? ["error", "message"])).bind
      Json.asStr?).getD text := by
  cases hm : v.get? "message" <;> simp [failureText, hv, hm, Json.at?]

end

/-- A text is no message that it names. -/
theorem not_names_self : ¬ Names text text := by
  intro h
  cases h with
  | own hv hmessage =>
    exact Nat.lt_irrefl _ (Json.length_lt_of_part hv (Json.part_of_get? hmessage))
  | ofError hv _ hmessage =>
    exact Nat.lt_irrefl _ (Json.length_lt_of_part hv (Json.part_of_at? hmessage))

/-- What is hidden is lost: the text stands for the message. -/
theorem failureText_of_hides (h : Hides text) : failureText text = text := by
  obtain ⟨v, m, s, hv, hm, hother, -⟩ := h
  have hnone : m.asStr? = none :=
    Option.eq_none_iff_forall_ne_some.mpr fun t ht => hother t (Json.asStr?_eq_some_iff.mp ht)
  rw [failureText_eq hv, hm, Option.some_or, Option.bind_some, hnone, Option.getD_none]

theorem tells_failureText (h : ¬ Hides text) : Tells text (failureText text) := by
  cases hv : Json.load? text with
  | none =>
    have htext : failureText text = text := by simp [failureText, hv]
    rw [htext]
    refine .raw fun s hs => ?_
    cases hs with
    | own hv' _ | ofError hv' _ _ => cases hv.symm.trans hv'
  | some v =>
    rw [failureText_eq hv]
    have hnames : ∀ s, Names text s ↔
        ((v.get? "message").or (v.at? ["error", "message"])).bind Json.asStr? = some s := by
      intro s
      simp only [names_iff hv, Option.bind_eq_some_iff, Json.asStr?_eq_some_iff, exists_eq_right]
      cases hm : v.get? "message" with
      | none => simp
      | some m =>
        -- what is found is `m`, and the error has a message beside it only if that is hidden
        rw [Option.some_or]
        refine or_iff_left ?_
        rintro ⟨hother, hmessage⟩
        exact h ⟨v, m, s, hv, hm, fun t ht => hother t (congrArg some ht), hmessage⟩
    cases hs : ((v.get? "message").or (v.at? ["error", "message"])).bind Json.asStr? with
    | some s => exact .named ((hnames s).mpr hs)
    | none =>
      refine .raw fun s h => ?_
      cases hs.symm.trans ((hnames s).mp h)

/-- **The message is the one to carry** exactly if none is hidden. -/
theorem tells_failureText_iff : Tells text (failureText text) ↔ ¬ Hides text := by
  refine ⟨fun htells hhides => ?_, tells_failureText⟩
  -- the text itself would be the message: one that it names, though something else is named
  rw [failureText_of_hides hhides] at htells
  cases htells with
  | named h => exact not_names_self h
  | raw h =>
    obtain ⟨v, m, s, hv, hm, hother, hmessage⟩ := hhides
    refine h s ((names_iff hv).mpr (.inr ⟨fun t ht => hother t ?_, hmessage⟩))
    exact Option.some.inj (hm.symm.trans ht)

end Reply

/-! ### Messages of failures -/

/-- The failure that a status means carries the message. -/
def Failure.Carries (status : Nat) (message : String) : Failure → Prop
  | .rateLimited text _ | .authentication text | .serviceUnavailable text => text = message
  | .invalidResponse text => text = "API error " ++ Http.statusText status ++ ": " ++ message
  | _ => False

theorem Failure.Carries.unique {status : Nat} {m m' : String} {e : Failure}
    (h : e.Carries status m) (h' : e.Carries status m') : m = m' := by
  cases e with
  | rateLimited text _ | authentication text | serviceUnavailable text => exact h.symm.trans h'
  | invalidResponse text =>
    exact (String.append_right_inj _).mp (h.symm.trans h')
  | network | timeout | configuration | other => exact h.elim

theorem Reply.carries_failure (r : Reply) : r.failure.Carries r.status (failureText r.text) := by
  unfold failure
  dsimp only
  repeat' split
  all_goals rfl

namespace Client

section

variable {c : Client} {network : Post → Delivery} {q : Request} {p : Post} {r : Reply}
  (hsent : c.post? q = some p) (hreply : network p = .answered r)
  (hstatus : r.status < 200 ∨ 300 ≤ r.status)

include hsent hreply hstatus

theorem complete_of_status : c.complete network q = .error r.failure := by
  have hfails : ¬ Http.isSuccess r.status = true := by
    simp only [Http.isSuccess, Bool.and_eq_true, decide_eq_true_eq]
    omega
  simp only [complete, hsent, hreply]
  rw [outcome, if_neg hfails]

/-- **What failures say.** If what is sent for a request is answered without success, the exchange
    fails with one message of the reply.  It is the message to carry exactly if the text hides none,
    and if it hides one, the whole text is carried. -/
theorem complete_carries :
    ∃ e m, c.complete network q = .error e ∧ (∀ m', e.Carries r.status m' ↔ m' = m) ∧
      (Reply.Tells r.text m ↔ ¬ Reply.Hides r.text) ∧ (Reply.Hides r.text → m = r.text) := by
  refine ⟨r.failure, Reply.failureText r.text, complete_of_status hsent hreply hstatus,
    fun m' => ?_, Reply.tells_failureText_iff, Reply.failureText_of_hides⟩
  constructor
  · exact fun h => h.unique r.carries_failure
  · rintro rfl
    exact r.carries_failure

end

/-- What a server says of a key that it refuses. -/
def refusedKey : String := "\x7b\"error\":\x7b\"message\":\"bad key\"\x7d\x7d"

theorem complete_carries_refusedKey :
    localClient.complete (fun _ => .answered (.ascii 403 [] refusedKey)) {} =
      .error (.authentication "bad key") ∧
    Reply.Tells refusedKey "bad key" := by
  obtain ⟨p, hsent⟩ := exists_post_localClient
  have htext : (Reply.ascii 403 [] refusedKey).text = refusedKey :=
    Reply.text_ascii rfl (by decide +kernel)
  have hmessage : Reply.failureText refusedKey = "bad key" := by decide +kernel
  have hshown : ¬ Reply.Hides refusedKey := by
    rintro ⟨v, m, s, hv, hm, -, -⟩
    have hload : Json.load? refusedKey =
        some (.obj [("error", .obj [("message", .str "bad key")])]) := by
      decide +kernel
    cases hload.symm.trans hv
    cases hm
  have hfails : localClient.complete (fun _ => .answered (.ascii 403 [] refusedKey)) {} =
      .error (.authentication "bad key") := by
    rw [complete_of_status hsent rfl (.inr (by decide)), Reply.failure, htext, hmessage]
    rfl
  obtain ⟨e, m, he, hm, htells, -⟩ := @complete_carries _
    (fun _ => .answered (.ascii 403 [] refusedKey)) _ _ _ hsent rfl (.inr (by decide))
  cases hfails.symm.trans he
  obtain rfl : "bad key" = m := (hm _).mp rfl
  rw [htext] at htells
  exact ⟨hfails, htells.mpr hshown⟩

/-- What a server says of a quota that is used up, beside a message that is null. -/
def nullMessage : String :=
  "\x7b\"message\":null,\"error\":\x7b\"message\":\"quota\"\x7d\x7d"

/-- **A message that is null hides the one of the error**, and the failure carries the whole
    text. -/
theorem nullMessage_hides_error :
    Reply.Names nullMessage "quota" ∧
    localClient.complete (fun _ => .answered (.ascii 429 [] nullMessage)) {} =
      .error (.rateLimited nullMessage none) := by
  have hload : Json.load? nullMessage =
      some (.obj [("message", .null), ("error", .obj [("message", .str "quota")])]) := by
    decide +kernel
  obtain ⟨p, hsent⟩ := exists_post_localClient
  refine ⟨.ofError hload (by simp [Json.get?, Members.get?]) rfl, ?_⟩
  have htext : (Reply.ascii 429 [] nullMessage).text = nullMessage :=
    Reply.text_ascii rfl (by decide +kernel)
  have hmessage : Reply.failureText nullMessage = nullMessage := by decide +kernel
  rw [complete_of_status hsent rfl (.inr (by decide)), Reply.failure, htext, hmessage]
  rfl

end Client

end Review

end SecurityScan
