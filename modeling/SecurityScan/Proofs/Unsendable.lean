import SecurityScan.Proofs.Configured

namespace SecurityScan

/-!
# Requests that cannot be sent

A client is made of any address and key that are not blank, so there are clients whose requests are
never sent.

* `Http.isFieldValue_bearer_iff` — the keys that can be sent in a header field;
* `Review.Client.post?_eq_none_iff` — what it takes that nothing is sent;
* `Review.Client.broken_eq_network` — what goes wrong in none of the ways that are told apart counts
  as a fault of the network;
* `Review.Client.isConfiguration_of_complete` — no exchange fails for want of a configuration;
* `Review.complete_of_unsendable` — so a request that cannot be sent fails like one that may get
  through another time.
-/

/-! ### What can be sent -/

namespace Http

/-- A header field can hold the character. -/
def IsFieldChar (c : Char) : Prop := c = '\t' ∨ 0x20 ≤ c.toNat ∧ c.toNat ≠ 0x7f

theorem isFieldValue_iff {s : String} : isFieldValue s = true ↔ ∀ c ∈ s.toList, IsFieldChar c := by
  simp [isFieldValue, IsFieldChar]

/-- What stands in front of the key can be sent. -/
theorem isFieldValue_bearer_iff {key : String} :
    isFieldValue ("Bearer " ++ key) = true ↔ ∀ c ∈ key.toList, IsFieldChar c := by
  have hfront : ∀ c ∈ "Bearer ".toList, IsFieldChar c := isFieldValue_iff.mp (by decide)
  rw [isFieldValue_iff, String.toList_append, List.forall_mem_append]
  exact and_iff_right hfront

end Http

/-- The address of the reviewer is no URL, or a character of its key can stand in no header
    field. -/
def ReviewerConfig.Unsendable (c : ReviewerConfig) : Prop :=
  (∃ e ∈ c.endpoint, Url.parse? (Text.trim e) = none) ∨
    ∃ k ∈ c.apiKey, ∃ ch ∈ (Text.trim k).toList, ¬ Http.IsFieldChar ch

namespace Review

namespace Client

variable {c : Client} {network : Post → Delivery} {q : Request}

/-- **Nothing is sent** exactly if the address is none of the web or a character of the key can
    stand in no header field. -/
theorem post?_eq_none_iff :
    c.post? q = none ↔
      (∀ url, Url.parse? c.endpoint = some url → url.scheme ∉ ["http", "https"]) ∨
        ∃ ch ∈ c.apiKey.toList, ¬ Http.IsFieldChar ch := by
  have hkey : (∃ ch ∈ c.apiKey.toList, ¬ Http.IsFieldChar ch) ↔
      ¬ Http.isFieldValue ("Bearer " ++ c.apiKey) = true := by
    rw [Http.isFieldValue_bearer_iff]
    push Not
    rfl
  rw [hkey, post?]
  cases Url.parse? c.endpoint with
  | none => simp
  | some url =>
    simp only [Option.bind_eq_bind, Option.bind_some, Bool.and_eq_true, List.contains_iff_mem,
      Option.some.injEq, forall_eq', ← not_and_or, ite_eq_right_iff]
    exact ⟨fun h hsend => Option.some_ne_none _ (h hsend), fun h hsend => absurd hsend h⟩

/-! ### What goes wrong -/

/-- What goes wrong neither for want of time nor while connecting or decoding is a fault of the
    network. -/
theorem broken_eq_network {b : Breakdown} (htimeout : b.isTimeout = false)
    (hconnect : b.isConnect = false) (hdecode : b.isDecode = false) :
    c.broken b = .network b.text := by
  simp [broken, Failure.ofBreakdown, htimeout, hconnect, hdecode]

theorem isConfiguration_broken (b : Breakdown) : (c.broken b).isConfiguration = false := by
  unfold broken Failure.ofBreakdown
  repeat' split
  all_goals rfl

theorem isConfiguration_failure (r : Reply) : r.failure.isConfiguration = false := by
  unfold Reply.failure
  dsimp only
  repeat' split
  all_goals rfl

theorem isConfiguration_of_read {text : String} {e : Failure} (h : c.read text = .error e) :
    e.isConfiguration = false := by
  unfold read at h
  repeat' split at h
  all_goals cases h
  all_goals rfl

/-- No exchange fails for want of a configuration. -/
theorem isConfiguration_of_complete {e : Failure} (h : c.complete network q = .error e) :
    e.isConfiguration = false := by
  unfold complete at h
  split at h
  · next post _ =>
    cases hdelivery : network post with
    | refused | closed | silent =>
      rw [hdelivery] at h
      cases h
      exact isConfiguration_broken _
    | answered r =>
      rw [hdelivery, outcome] at h
      split at h
      · exact isConfiguration_of_read h
      · cases h
        exact isConfiguration_failure r
  · cases h
    exact isConfiguration_broken _

end Client

/-- **A request that cannot be sent counts as one that may get through later.** With an address that
    is no URL, or a key that no header field can hold, every request of the client fails as by a
    fault of the network, for which it may be sent again; and no exchange of any client fails for
    want of a configuration. -/
theorem complete_of_unsendable {config : ReviewerConfig} {c : Client}
    (hc : Client.ofConfig config = .ok c) (network : Post → Delivery) (q : Request) :
    (config.Unsendable → ∃ text, c.complete network q = .error (.network text) ∧
      (Failure.network text).isRetryable = true) ∧
    ∀ e, c.complete network q = .error e → e.isConfiguration = false := by
  refine ⟨fun hbad => ?_, fun e => Client.isConfiguration_of_complete⟩
  obtain ⟨hendpoint, hkey, -, -⟩ := Client.ofConfig_eq_ok_iff.mp hc
  obtain ⟨e, he, hendpoint⟩ := Option.bind_eq_some_iff.mp hendpoint
  obtain ⟨k, hk, hkey⟩ := Option.bind_eq_some_iff.mp hkey
  have hendpoint : c.endpoint = Text.trim e := (nonblank_eq_some_iff.mp hendpoint).1
  have hkey : c.apiKey = Text.trim k := (nonblank_eq_some_iff.mp hkey).1
  have hnone : c.post? q = none := by
    rw [Client.post?_eq_none_iff, hendpoint, hkey]
    rcases hbad with ⟨e', he', hparse⟩ | ⟨k', hk', ch, hch, hbad⟩
    · obtain rfl : e' = e := Option.mem_unique he' he
      exact .inl fun url hurl => nomatch hparse.symm.trans hurl
    · obtain rfl : k' = k := Option.mem_unique hk' hk
      exact .inr ⟨ch, hch, hbad⟩
  refine ⟨Breakdown.unsendable.text, ?_, rfl⟩
  rw [Client.complete, hnone, ← Client.broken_eq_network rfl rfl rfl]

/-- A key that a line break cuts in two. -/
def brokenKey : ReviewerConfig where
  endpoint := some "https://api.example.com/v1"
  apiKey := some " sk\ntest "

theorem complete_of_unsendable_brokenKey :
    ∃ c, Client.ofConfig brokenKey = .ok c ∧ brokenKey.Unsendable ∧
      ∀ network q, ∃ text, c.complete network q = .error (.network text) ∧
        (Failure.network text).isRetryable = true := by
  have hc : Client.ofConfig brokenKey =
      .ok ⟨"https://api.example.com/v1", "sk\ntest", "gpt-4", 120⟩ := by decide +kernel
  have hbad : brokenKey.Unsendable := by
    have hfeed : '\n' ∈ (Text.trim " sk\ntest ").toList := by decide +kernel
    have hnot : ¬ Http.IsFieldChar '\n' := by simp [Http.IsFieldChar]
    exact .inr ⟨_, rfl, '\n', hfeed, hnot⟩
  exact ⟨_, hc, hbad, fun network q => (complete_of_unsendable hc network q).1 hbad⟩

/-- **An address that is none counts as a fault of the network.** A client is made of it, and what
    its requests fail with is no want of a configuration, but something to try again. -/
theorem unusableAddress_retryable :
    Client.ofConfig { endpoint := some "not a url", apiKey := some "sk-test" } =
      .ok ⟨"not a url", "sk-test", "gpt-4", 120⟩ ∧
    Url.parse? "not a url" = none ∧
    (Client.complete ⟨"not a url", "sk-test", "gpt-4", 120⟩ (fun _ => .refused) {} =
      .error (.network "builder error")) ∧
    (Failure.network "builder error").isRetryable = true ∧
    (Failure.network "builder error").isConfiguration = false := by
  decide +kernel

end Review

end SecurityScan
