import SecurityScan.Proofs.ConfigField
import SecurityScan.Proofs.Trimming
import SecurityScan.Service.Answer

namespace SecurityScan

open Review (Client)

/-!
# When the reviewer is configured

* `Review.Client.ofConfig_eq_ok_iff` — a client is made of a configuration with an address and a
  key, and uses both without the blanks at their ends;
* `ReviewerConfig.isConfigured_iff` — the predicate holds where a client is made;
* `ReviewerConfig.check_eq_ok_iff` and `startsWith_of_isWebEndpoint` — what the rules say of the
  reviewer, and of an address without the blanks at its ends;
* `Service.Asks` and `Service.answer_of_asks` — a request for a review, and its answer;
* `Service.configured_agree` — all readings of "the reviewer is configured" agree.
-/

/-! ### The client -/

/-- A client is made of an address and a key, both without the blanks at their ends. -/
theorem Review.Client.ofConfig_eq_ok_iff {c : ReviewerConfig} {client : Client} :
    Client.ofConfig c = .ok client ↔
      c.endpoint.bind nonblank = some client.endpoint ∧
      c.apiKey.bind nonblank = some client.apiKey ∧
      client.model = c.model ∧ client.timeoutSeconds = c.timeoutSeconds := by
  obtain ⟨endpoint, key, model, timeout⟩ := client
  unfold Client.ofConfig
  split
  · next hendpoint hkey =>
    rw [hendpoint, hkey]
    simp [eq_comm]
  · next hnone =>
    refine iff_of_false (by simp) fun h => ?_
    exact hnone _ _ h.1 h.2.1

theorem ReviewerConfig.isConfigured_iff {c : ReviewerConfig} :
    c.isConfigured = true ↔ ∃ client, Client.ofConfig c = .ok client := by
  simp only [Client.ofConfig_eq_ok_iff, ReviewerConfig.isConfigured, Bool.and_eq_true,
    Option.isSome_iff_exists]
  constructor
  · rintro ⟨⟨endpoint, hendpoint⟩, key, hkey⟩
    exact ⟨⟨endpoint, key, c.model, c.timeoutSeconds⟩, hendpoint, hkey, rfl, rfl⟩
  · rintro ⟨client, hendpoint, hkey, -⟩
    exact ⟨⟨_, hendpoint⟩, _, hkey⟩

/-- What `nonblank` gives of a text is not empty and has no blanks at its ends. -/
theorem ne_and_isTrimmed_of_nonblank {s t : String} (h : nonblank s = some t) :
    t ≠ "" ∧ Text.IsTrimmed t := by
  obtain ⟨rfl, hne⟩ := nonblank_eq_some_iff.mp h
  exact ⟨hne, Text.isTrimmed_trim s⟩

/-! ### The rules -/

theorem ReviewerConfig.check_eq_ok_iff {c : ReviewerConfig} :
    c.check = .ok () ↔ c.timeoutSeconds ≠ 0 ∧ (nonblank c.model).isSome = true ∧
      ∀ e ∈ c.endpoint, isWebEndpoint e = true := by
  unfold ReviewerConfig.check
  by_cases htimeout : c.timeoutSeconds = 0
  · simp [htimeout]
  by_cases hmodel : (nonblank c.model).isNone = true
  · simp [htimeout, Option.isNone_iff_eq_none.mp hmodel]
  · have hsome : (nonblank c.model).isSome = true := by
      simpa [Option.isSome_iff_ne_none] using hmodel
    rw [if_neg htimeout, if_neg hmodel]
    cases c.endpoint with
    | none => simp [htimeout, hsome]
    | some e => cases hweb : isWebEndpoint e <;> simp [htimeout, hsome, hweb]

/-- A web address that is not blank is one of the two schemes, also without the blanks at its
    ends. -/
theorem startsWith_of_isWebEndpoint {e t : String} (h : isWebEndpoint e = true)
    (ht : nonblank e = some t) :
    t.startsWith "http://" = true ∨ t.startsWith "https://" = true := by
  rw [isWebEndpoint, ht] at h
  obtain ⟨rfl, -⟩ := nonblank_eq_some_iff.mp ht
  simp only [Option.isNone_some, Bool.false_or, Bool.or_eq_true] at h
  exact h.imp (Text.startsWith_trim (by decide)) (Text.startsWith_trim (by decide))

namespace Service

/-! ### The route -/

/-- The code in the body of a response, if the body is a message with one. -/
def Response.code? (r : Response) : Option String :=
  match r.content with
  | .json v => (v.get? "code").bind Json.asStr?
  | _ => none

/-- The request asks for a review of a submitted text. -/
structure Asks (s : Service) (r : Request) (submission : CodeSubmission) : Prop where
  path : Route.ofPath? r.path = some .review
  method : r.method = "POST"
  announced : r.announced?.any (s.bodyLimit < ·) = false
  received : receive s CodeSubmission.form r = .ok submission

/-- The answer to a request for a review is that of the reviewer, with what concerns origins. -/
theorem answer_of_asks {s : Service} {r : Request} {submission : CodeSubmission}
    (h : Asks s r submission) :
    answer s r = (reviewResponse s submission).withHeaders (originHeaders s.origins r) := by
  have hhandle : handle s .review r = reviewResponse s submission := by
    simp [handle, h.received, Except.map]
  have hmethod : Route.review.methods.contains r.method = true := by
    rw [h.method]
    decide
  have hrespond : respond s r = reviewResponse s submission := by
    rw [respond, h.announced, h.path]
    dsimp only
    rw [if_neg Bool.false_ne_true, if_pos hmethod, hhandle]
  have hallow : allowHeaders r = [] := by
    rw [allowHeaders, h.path]
    exact if_pos hmethod
  have hoptions : ¬ "POST" = "OPTIONS" := by decide
  rw [answer, hrespond, hallow, h.method, if_neg hoptions, List.append_nil]
  exact if_neg (by decide)

/-- The response is that of a service without a reviewer. -/
def Response.MissesConfiguration (r : Response) : Prop :=
  r.status = 503 ∧ r.code? = some "CONFIGURATION_ERROR"

/-- A review misses its configuration where there is no generator.  What goes wrong with one is
    answered otherwise. -/
theorem missesConfiguration_reviewResponse_iff {s : Service} {submission : CodeSubmission} :
    (reviewResponse s submission).MissesConfiguration ↔ ∃ e, s.reviewer = .error e := by
  unfold reviewResponse
  cases s.reviewer with
  | error e =>
    exact iff_of_true ⟨rfl, rfl⟩ ⟨e, rfl⟩
  | ok g =>
    refine iff_of_false ?_ (by simp)
    dsimp only
    cases Review.review g submission.code submission.language with
    | ok report => simp [Response.MissesConfiguration, Response.of]
    | error e => simp [Response.MissesConfiguration, failed, Response.of]

theorem missesConfiguration_answer_iff {c : Config} {network : Review.Post → Review.Delivery}
    {r : Request} {submission : CodeSubmission} (h : Asks (ofConfig c network) r submission) :
    (answer (ofConfig c network) r).MissesConfiguration ↔ c.reviewer.isConfigured = false := by
  have hmisses : (answer (ofConfig c network) r).MissesConfiguration ↔
      ∃ e, (ofConfig c network).reviewer = .error e := by
    rw [answer_of_asks h]
    exact missesConfiguration_reviewResponse_iff
  rw [hmisses, ← Bool.not_eq_true, ReviewerConfig.isConfigured_iff, ofConfig]
  cases Client.ofConfig c.reviewer <;> simp [Except.map]

end Service

/-- **The reviewer is configured.**  The predicate, the client and the service agree on whether
    there is a reviewer; and the client of a configuration that keeps its rules uses an address of
    the web and a key, both without blanks at their ends, and waits for an answer. -/
theorem Service.configured_agree (c : Config) (network : Review.Post → Review.Delivery) :
    (c.reviewer.isConfigured = true ↔ ∃ client, Client.ofConfig c.reviewer = .ok client) ∧
    (∀ r submission, Asks (ofConfig c network) r submission →
      (c.reviewer.isConfigured = true ↔
        ¬ ((answer (ofConfig c network) r).status = 503 ∧
          (answer (ofConfig c network) r).code? = some "CONFIGURATION_ERROR"))) ∧
    ∀ client, c.check = .ok () → Client.ofConfig c.reviewer = .ok client →
      client.endpoint ≠ "" ∧ Text.IsTrimmed client.endpoint ∧
      client.apiKey ≠ "" ∧ Text.IsTrimmed client.apiKey ∧
      (client.endpoint.startsWith "http://" = true ∨ client.endpoint.startsWith "https://" = true) ∧
      client.timeoutSeconds ≠ 0 := by
  refine ⟨ReviewerConfig.isConfigured_iff, fun r submission h => ?_,
    fun client hcheck hclient => ?_⟩
  · rw [← Bool.not_eq_false, ← missesConfiguration_answer_iff h]
    rfl
  · obtain ⟨hendpoint, hkey, -, htimeout⟩ := Client.ofConfig_eq_ok_iff.mp hclient
    obtain ⟨hwait, -, hweb⟩ :=
      ReviewerConfig.check_eq_ok_iff.mp (Config.check_eq_ok_iff.mp hcheck).2.2
    obtain ⟨e, he, hendpoint⟩ := Option.bind_eq_some_iff.mp hendpoint
    obtain ⟨k, -, hkey⟩ := Option.bind_eq_some_iff.mp hkey
    obtain ⟨hne, htrimmed⟩ := ne_and_isTrimmed_of_nonblank hendpoint
    obtain ⟨hkeyne, hkeytrimmed⟩ := ne_and_isTrimmed_of_nonblank hkey
    exact ⟨hne, htrimmed, hkeyne, hkeytrimmed, startsWith_of_isWebEndpoint (hweb e he) hendpoint,
      htimeout ▸ hwait⟩

/-- A configuration with blanks of several kinds around the address and the key. -/
def paddedConfig : Config where
  reviewer := {
    endpoint := some "https://api.example.com/v1\u2003", apiKey := some "\t sk-test\u00a0" }

/-- A request for a review of a text. -/
def sampleReview : Service.Request where
  method := "POST"
  uri := "/api/v1/analyze/gpt?trace=1"
  headers := [("content-type", "application/json; charset=utf-8")]
  body := "\x7b\"code\": \"eval(x)\"\x7d"

/-- The padded configuration keeps the rules, its client uses the trimmed texts, and a review
    through a network that is down does not miss the configuration. -/
theorem Service.configured_agree_padded :
    ∃ client, Client.ofConfig paddedConfig.reviewer = .ok client ∧
      paddedConfig.check = .ok () ∧ Text.IsTrimmed client.endpoint ∧ client.apiKey ≠ "" ∧
      Asks (ofConfig paddedConfig fun _ => .refused) sampleReview ⟨"eval(x)", "javascript"⟩ ∧
      ¬ ((answer (ofConfig paddedConfig fun _ => .refused) sampleReview).status = 503 ∧
        (answer (ofConfig paddedConfig fun _ => .refused) sampleReview).code? =
          some "CONFIGURATION_ERROR") := by
  have hasks : Asks (ofConfig paddedConfig fun _ => .refused) sampleReview
      ⟨"eval(x)", "javascript"⟩ :=
    ⟨by decide +kernel, rfl, by decide +kernel, by decide +kernel⟩
  have hclient : Client.ofConfig paddedConfig.reviewer =
      .ok ⟨"https://api.example.com/v1", "sk-test", "gpt-4", 120⟩ := by decide +kernel
  have hcheck : paddedConfig.check = .ok () := by decide +kernel
  obtain ⟨-, hroute, huse⟩ := configured_agree paddedConfig fun _ => .refused
  obtain ⟨-, htrimmed, hkey, -⟩ := huse _ hcheck hclient
  exact ⟨_, hclient, hcheck, htrimmed, hkey, hasks,
    (hroute _ _ hasks).mp (by decide +kernel)⟩

end SecurityScan
