import SecurityScan.Proofs.AnswerForm
import SecurityScan.Proofs.Numeral
import SecurityScan.Proofs.RecordShape
import SecurityScan.Review.Client

namespace SecurityScan

/-!
# What replies mean

Every reply is an answer or a failure, and its status, its header fields and the form of its text
decide which.

* `Http.Counts` and `Http.count?_eq_some_iff` — the texts of header fields that are numbers;
* `Reply.Offers` and `Client.read_eq_ok_iff` — the completion that a reply offers, which is what is
  read from it; `Reply.offers_iff_of_parse?` — where its text has a value, what is left out of it
  does not matter;
* `Reply.Means` — what a reply means, case by case;
* `Reply.Means.isRetryable_iff` — the failures that may pass by themselves are told by the status;
* `Client.complete_means` — the exchange gives what the reply means.
-/

/-! ### Numbers in header fields -/

theorem Decimal.isDigitOf_ten (c : Char) : isDigitOf 10 c = c.isDigit := by
  rw [isDigitOf]
  cases hdigit : c.isDigit with
  | true => simpa using digitValue_lt hdigit
  | false =>
    -- a letter is worth ten at least
    have hvalue : 10 ≤ digitValue c ∨ ¬ ('a' ≤ c ∧ c ≤ 'f') ∧ ¬ ('A' ≤ c ∧ c ≤ 'F') := by
      rw [digitValue, hdigit, if_neg Bool.false_ne_true]
      split
      · exact .inl (Nat.le_add_left _ _)
      · split
        · exact .inl (Nat.le_add_left _ _)
        · exact .inr ⟨‹_›, ‹_›⟩
    rcases hvalue with hvalue | ⟨hlower, hupper⟩
    · rw [decide_eq_false (Nat.not_lt.mpr hvalue), Bool.and_false]
    · rw [← Bool.decide_and, ← Bool.decide_and, decide_eq_false hlower, decide_eq_false hupper]
      rfl

theorem Decimal.natIn?_ten_eq_some_iff {ds : List Char} {n : Nat} :
    natIn? 10 ds = some n ↔ ds ≠ [] ∧ (∀ d ∈ ds, d.isDigit = true) ∧ value ds = n := by
  simp [natIn?, value, isDigitOf_ten, and_assoc]

namespace Http

/-- The text is the number `n`: digits, perhaps behind a plus sign, and below `2 ^ 64`. -/
def Counts (s : String) (n : Nat) : Prop :=
  ∃ ds, (s.toList = ds ∨ s.toList = '+' :: ds) ∧ ds ≠ [] ∧ (∀ d ∈ ds, d.isDigit = true) ∧
    Decimal.value ds = n ∧ n < Nat.pow 2 64

theorem count?_eq_some_iff {s : String} {n : Nat} : count? s = some n ↔ Counts s n := by
  rw [count?, Option.filter_eq_some_iff, decide_eq_true_eq, Counts]
  split
  · next ds hs =>
    rw [Decimal.natIn?_ten_eq_some_iff, hs]
    constructor
    · rintro ⟨⟨hne, hdigits, hvalue⟩, hlt⟩
      exact ⟨ds, .inr rfl, hne, hdigits, hvalue, hlt⟩
    · rintro ⟨ds', hds | hds, hne, hdigits, hvalue, hlt⟩
      · -- a plus sign is no digit
        exact absurd (hdigits '+' (hds ▸ List.mem_cons_self)) (by decide)
      · obtain rfl : ds = ds' := (List.cons.inj hds).2
        exact ⟨⟨hne, hdigits, hvalue⟩, hlt⟩
  · next hs =>
    rw [Decimal.natIn?_ten_eq_some_iff]
    constructor
    · rintro ⟨⟨hne, hdigits, hvalue⟩, hlt⟩
      exact ⟨_, .inl rfl, hne, hdigits, hvalue, hlt⟩
    · rintro ⟨ds, rfl | hds, hne, hdigits, hvalue, hlt⟩
      · exact ⟨⟨hne, hdigits, hvalue⟩, hlt⟩
      · exact absurd hds (hs ds)

end Http

namespace Review

/-! ### What a reply offers -/

namespace Reply

/-- The reply offers the completion `k`: its text, as far as it is asked for, has the form of an
    answer whose first choice has a message, and the completion is taken from these, whatever choices
    come later. -/
def Offers (model : String) (r : Reply) (k : Completion) : Prop :=
  ∃ v a choice later m, Json.excerpt? Answer.shape r.text = some v ∧ IsAnswer v a ∧
    a.choices = choice :: later ∧ choice.message = some m ∧
    k = {
      id := a.id.getD ""
      model := a.model.getD model
      content := m.content.getD ""
      stopReason := .ofFinish choice.finishReason
      usage := a.usage.getD {} }

/-- If the text of the reply has a value, it is this value that has to have the form of an answer. -/
theorem offers_iff_of_parse? {model : String} {r : Reply} {k : Completion} {v : Json}
    (h : Json.parse? r.text = some v) :
    r.Offers model k ↔ ∃ a choice later m, IsAnswer v a ∧ a.choices = choice :: later ∧
      choice.message = some m ∧
      k = {
        id := a.id.getD ""
        model := a.model.getD model
        content := m.content.getD ""
        stopReason := .ofFinish choice.finishReason
        usage := a.usage.getD {} } := by
  have hform (a : Answer) : IsAnswer (Answer.shape.keep v) a ↔ IsAnswer v a := by
    rw [← reads_answer.decode?_eq_some_iff, ← reads_answer.decode?_eq_some_iff, suits_answer v]
  rw [Offers, Json.excerpt?_of_parse? h]
  simp [hform]

/-- The reply asks to wait `n` seconds. -/
def AsksToWait (r : Reply) (n : Nat) : Prop :=
  ∃ v, r.headers.get? "retry-after" = some v ∧ Http.Counts (Http.received v) n

theorem retryAfter?_eq_some_iff {r : Reply} {n : Nat} :
    r.retryAfter? = some n ↔ r.AsksToWait n := by
  rw [retryAfter?, Option.bind_eq_some_iff]
  exact exists_congr fun v => and_congr_right fun _ => Http.count?_eq_some_iff

/-- What a reply means to a client with a default model, by its status. -/
inductive Means (model : String) (r : Reply) : Except Failure Completion → Prop where
  /-- A success that offers a completion. -/
  | completion {k : Completion} :
      200 ≤ r.status → r.status < 300 → r.Offers model k → Means model r (.ok k)
  /-- A success that offers none. -/
  | unreadable {text : String} :
      200 ≤ r.status → r.status < 300 → (∀ k, ¬ r.Offers model k) →
      Means model r (.error (.invalidResponse text))
  | tooMany {text : String} {wait : Option Nat} :
      r.status = 429 → (∀ n, wait = some n ↔ r.AsksToWait n) →
      Means model r (.error (.rateLimited text wait))
  | forbidden {text : String} :
      r.status = 401 ∨ r.status = 403 → Means model r (.error (.authentication text))
  | faulty {text : String} :
      500 ≤ r.status → r.status < 600 → Means model r (.error (.serviceUnavailable text))
  /-- No success, and none of the statuses above. -/
  | unexpected {text : String} :
      ¬ (200 ≤ r.status ∧ r.status < 300) → r.status ∉ [401, 403, 429] →
      ¬ (500 ≤ r.status ∧ r.status < 600) → Means model r (.error (.invalidResponse text))

/-- **What may pass by itself** is told by the status. -/
theorem Means.isRetryable_iff {model : String} {r : Reply} {e : Failure}
    (h : r.Means model (.error e)) :
    e.isRetryable = true ↔ r.status = 429 ∨ 500 ≤ r.status ∧ r.status < 600 := by
  cases h with
  | unreadable hlow hhigh _ =>
    refine iff_of_false Bool.false_ne_true ?_
    omega
  | tooMany hstatus _ => exact iff_of_true rfl (.inl hstatus)
  | forbidden hstatus =>
    refine iff_of_false Bool.false_ne_true ?_
    omega
  | faulty hlow hhigh => exact iff_of_true rfl (.inr ⟨hlow, hhigh⟩)
  | unexpected _ hother hfault =>
    refine iff_of_false Bool.false_ne_true ?_
    rintro (hstatus | hstatus)
    · exact hother (by simp [hstatus])
    · exact hfault hstatus

/-- A reply that is no success means its failure. -/
theorem means_failure {model : String} {r : Reply} (h : ¬ (200 ≤ r.status ∧ r.status < 300)) :
    r.Means model (.error r.failure) := by
  unfold failure
  dsimp only
  split
  · next hstatus => exact .tooMany hstatus fun n => retryAfter?_eq_some_iff
  · next hlimit =>
    split
    · next hstatus => exact .forbidden hstatus
    · next hkey =>
      split
      · next hstatus =>
        obtain ⟨hlow, hhigh⟩ : 500 ≤ r.status ∧ r.status < 600 := by
          simpa [Http.isServerError] using hstatus
        exact .faulty hlow hhigh
      · next hfault =>
        refine .unexpected h ?_ (by simpa [Http.isServerError] using hfault)
        simp only [List.mem_cons, List.not_mem_nil, or_false]
        omega

/-- The reply with a text in ASCII. -/
def ascii (status : Nat) (headers : Http.Headers) (text : String) : Reply :=
  ⟨status, headers, text.toList.map fun c => UInt8.ofNat c.toNat⟩

theorem text_ascii {status : Nat} {headers : Http.Headers} {text : String}
    (hstatus : Http.isBodiless status = false)
    (htext : (text.toList.all fun c => c.toNat < 128) = true) :
    (ascii status headers text).text = text := by
  have hbody : ¬ Http.isBodiless status = true := by simp [hstatus]
  have hchars : ∀ c ∈ text.toList, c.toNat < 128 := by simpa using htext
  rw [Reply.text, ascii, if_neg hbody, Text.decodeOctets_ascii hchars, String.ofList_toList]

end Reply

/-! ### What is read from a reply -/

namespace Client

variable {c : Client} {r : Reply} {k : Completion}

/-- **What is read from a reply** is the completion that it offers. -/
theorem read_eq_ok_iff : c.read r.text = .ok k ↔ r.Offers c.model k := by
  rw [read, Reply.Offers]
  constructor
  · intro h
    split at h
    · cases h
    · next a ha =>
      obtain ⟨v, hv, ha⟩ := Option.bind_eq_some_iff.mp ha
      cases hchoices : a.choices with
      | nil => simp [Answer.completion, hchoices] at h
      | cons choice later =>
        cases hmessage : choice.message with
        | none => simp [Answer.completion, hchoices, hmessage] at h
        | some m =>
          simp only [Answer.completion, hchoices, hmessage, Except.ok.injEq] at h
          exact ⟨v, a, choice, later, m, hv, reads_answer.decode?_eq_some_iff.mp ha, hchoices,
            hmessage, h.symm⟩
  · rintro ⟨v, a, choice, later, m, hv, ha, hchoices, hmessage, rfl⟩
    have hanswer : (Json.excerpt? Answer.shape r.text).bind Wire.decode? = some a := by
      rw [hv]
      exact reads_answer.decode?_eq_some_iff.mpr ha
    simp only [hanswer, Answer.completion, hchoices, hmessage]

/-- What cannot be read is an answer that is not understood. -/
theorem exists_of_read {text : String} {e : Failure} (h : c.read text = .error e) :
    ∃ gap, e = .invalidResponse gap := by
  unfold read at h
  repeat' split at h
  all_goals cases h
  all_goals exact ⟨_, rfl⟩

theorem means_outcome : r.Means c.model (c.outcome (.answered r)) := by
  rw [outcome]
  split
  · next hsuccess =>
    obtain ⟨hlow, hhigh⟩ : 200 ≤ r.status ∧ r.status < 300 := by
      simpa [Http.isSuccess] using hsuccess
    cases hread : c.read r.text with
    | ok k => exact .completion hlow hhigh (read_eq_ok_iff.mp hread)
    | error e =>
      obtain ⟨gap, rfl⟩ := exists_of_read hread
      refine .unreadable hlow hhigh fun k hk => ?_
      cases hread.symm.trans (read_eq_ok_iff.mpr hk)
  · next hfailure => exact Reply.means_failure (by simpa [Http.isSuccess] using hfailure)

/-- **Replies are told apart.** If what is sent for a request is answered, the exchange gives what
    the reply means; so it fails for a cause that may pass by itself only if the status says so. -/
theorem complete_means {network : Post → Delivery} {q : Request} {p : Post}
    (hsent : c.post? q = some p) (hreply : network p = .answered r) :
    r.Means c.model (c.complete network q) ∧
      ∀ e, c.complete network q = .error e →
        (e.isRetryable = true ↔ r.status = 429 ∨ 500 ≤ r.status ∧ r.status < 600) := by
  have hmeans : r.Means c.model (c.complete network q) := by
    simp only [complete, hsent, hreply]
    exact means_outcome
  exact ⟨hmeans, fun e he => (he ▸ hmeans).isRetryable_iff⟩

/-- A client of a server on the same machine. -/
def localClient : Client := ⟨"http://localhost/v1", "sk-test", "gpt-4", 120⟩

theorem exists_post_localClient : ∃ p, localClient.post? {} = some p :=
  Option.isSome_iff_exists.mp (by decide +kernel)

/-- An answer whose first choice has a message without content, and whose second has no message. -/
def nullContent : Reply := .ascii 200 []
  ("\x7b\"choices\":[\x7b\"message\":\x7b\"role\":\"assistant\",\"content\":null\x7d\x7d," ++
    "\x7b\"message\":null\x7d]\x7d")

/-- A refusal for the time being. -/
def busy : Reply := ⟨429, [("Retry-After", " +5 ")], []⟩

theorem asksToWait_busy : busy.AsksToWait 5 := by
  have hsame : Text.sameWord "Retry-After" "retry-after" = true :=
    Text.sameWord_iff.mpr (by decide +kernel)
  have hfound : busy.headers.get? "retry-after" = some " +5 " := by
    simp [busy, Http.Headers.get?, hsame]
  exact ⟨_, hfound, Http.count?_eq_some_iff.mp (by decide +kernel)⟩

theorem complete_means_nullContent_busy :
    nullContent.Means "gpt-4" (.ok ⟨"", "gpt-4", "", .other, {}⟩) ∧
    busy.Means "gpt-4" (.error (.rateLimited "" (some 5))) ∧
    (Failure.rateLimited "" (some 5)).isRetryable = true := by
  obtain ⟨p, hsent⟩ := exists_post_localClient
  have hoffer : localClient.complete (fun _ => .answered nullContent) {} =
      .ok ⟨"", "gpt-4", "", .other, {}⟩ := by
    simp only [complete, hsent]
    show localClient.read nullContent.text = _
    -- the octets are decoded by the lemma, which spares the kernel the decoder's recursion
    rw [nullContent, Reply.text_ascii rfl (by decide +kernel)]
    decide +kernel
  have hwait : localClient.complete (fun _ => .answered busy) {} =
      .error (.rateLimited "" (some 5)) := by
    simp only [complete, hsent]
    show Except.error busy.failure = _
    rw [Reply.failure, Reply.retryAfter?_eq_some_iff.mpr asksToWait_busy]
    decide +kernel
  obtain ⟨hcontent, -⟩ := @complete_means _ _ (fun _ => .answered nullContent) _ _ hsent rfl
  obtain ⟨hbusy, hretry⟩ := @complete_means _ _ (fun _ => .answered busy) _ _ hsent rfl
  rw [hoffer] at hcontent
  rw [hwait] at hbusy
  exact ⟨hcontent, hbusy, (hretry _ hwait).mpr (.inl rfl)⟩

end Client

end Review

end SecurityScan
