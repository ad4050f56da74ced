import Mathlib
import Restline.Proofs.Retries

/-!
What a call sends. Its request is sent until an attempt gets a response that is no failure of the service,
or until the limit is reached; every attempt sends the same request, and the pauses between them double. The
limit is a whole number of any sign, and one below zero allows no attempt at all.

* `Host.retries_spec` : the attempts that are made again.
* `Client.settledAt`, `Client.isLeast_retries` : the attempts that no other follows, and the first of them.
* `Client.exec_sendCall_of_ok` : **the requests and the pauses of a call**.
* `Client.execute_repeats` : **what a call comes to**, whatever responses and failures its attempts meet.
* `Client.execute_sends_iff` : **which calls send a request at all**, under a limit of any sign.
-/

set_option autoImplicit false

namespace Restline

/-- The outcome is a response, or a failure that another attempt may not meet. -/
def WebOutcome.IsRetriable : WebOutcome → Prop
  | .reply _ => True
  | .failed f _ => Client.isRetried f = true

/-- Such an outcome calls for no other attempt exactly if it is a response below 500. -/
theorem WebOutcome.retryCause?_eq_none_iff {o : WebOutcome} (ho : o.IsRetriable) :
    Client.retryCause? o = none ↔ ∃ r, o = .reply r ∧ r.status < 500 := by
  cases o with
  | reply r => simp [Client.retryCause?]
  | failed f text =>
      have hf : Client.isRetried f = true := ho
      simp [Client.retryCause?, hf]

/-- The attempts that are made again are the ones before the first that calls for no other, or before the last
that is allowed. -/
theorem Host.retries_spec (h : Host) (limit : ℕ) :
    h.retries limit ≤ limit ∧ (∀ i < h.retries limit, (Client.retryCause? (h.outcomeAfter i)).isSome) ∧
      (h.retries limit < limit → Client.retryCause? (h.outcomeAfter (h.retries limit)) = none) := by
  induction limit generalizing h with
  | zero => exact ⟨le_rfl, fun i hi => absurd hi (Nat.not_lt_zero i), fun hlt => absurd hlt (Nat.lt_irrefl 0)⟩
  | succ limit ih =>
      -- after the first request, whichever it is, the outcomes have moved up by one
      obtain ⟨hle, hagain, hlast⟩ := ih (h.afterSending ⟨"", "", [], none⟩)
      simp only [outcomeAfter_afterSending] at hagain hlast
      rw [h.retries_succ ⟨"", "", [], none⟩]
      cases hcause : Client.retryCause? (h.outcomeAfter 0) with
      | none => exact ⟨Nat.zero_le _, fun i hi => absurd hi (Nat.not_lt_zero i), fun _ => hcause⟩
      | some cause =>
          refine ⟨Nat.succ_le_succ hle, fun i hi => ?_, fun hlt => hlast (Nat.lt_of_succ_lt_succ hlt)⟩
          cases i with
          | zero => rw [hcause, Option.isSome_some]
          | succ i => exact hagain i (Nat.lt_of_succ_lt_succ hi)

namespace Client

open Act

variable {c : Client} {con : Console} {call : Call} {h : Host} {q : WebRequest}

/-! ### The attempt that settles a call -/

/-- The attempts that no other follows: the last that the limit allows, and each that gets a response which is
no failure of the service. -/
def settledAt (c : Client) (h : Host) : Set ℕ :=
  {i | (i : ℤ) = c.profile.limits.maxRetries ∨ ∃ r, h.outcomeAfter i = .reply r ∧ r.status < 500}

/-- As many attempts are made again as there are before the first that no other follows. -/
theorem isLeast_retries (hlimit : 0 ≤ c.profile.limits.maxRetries)
    (houtcomes : ∀ i : ℕ, (i : ℤ) ≤ c.profile.limits.maxRetries → (h.outcomeAfter i).IsRetriable) :
    IsLeast (c.settledAt h) (h.retries c.profile.limits.maxRetries.toNat) := by
  obtain ⟨n, hn⟩ := Int.eq_ofNat_of_zero_le hlimit
  have hmax : c.profile.limits.maxRetries.toNat = n := by rw [hn, Int.toNat_natCast]
  rw [hmax]
  obtain ⟨hle, hagain, hlast⟩ := h.retries_spec n
  have hretriable : ∀ i ≤ n, (h.outcomeAfter i).IsRetriable := fun i hi => houtcomes i (by omega)
  constructor
  · rcases Nat.lt_or_eq_of_le hle with hlt | heq
    · exact .inr ((WebOutcome.retryCause?_eq_none_iff (hretriable _ hle)).1 (hlast hlt))
    · exact .inl (by rw [heq, hn])
  · rintro i (hi | hreply)
    · rw [hn, Int.natCast_inj] at hi
      rwa [hi]
    · by_contra hlt
      rw [Nat.not_le] at hlt
      have hnone := (WebOutcome.retryCause?_eq_none_iff (hretriable i (by omega))).2 hreply
      have hsome := hagain i hlt
      rw [hnone] at hsome
      cases hsome

/-! ### Requests and pauses -/

/-- **The requests and the pauses of a call** whose request can be made. -/
theorem exec_sendCall_of_ok (con : Console) (hlimit : 0 ≤ c.profile.limits.maxRetries)
    (hrequest : c.request call = .ok q) (h : Host) :
    let ran := exec (c.sendCall con call) h
    let k := h.retries c.profile.limits.maxRetries.toNat
    ran.1 = settle c.profile.limits.maxRetries (h.outcomeAfter k) ∧
      ran.2.sent = h.sent ++ List.replicate (k + 1) q ∧
      ran.2.pauses = h.pauses ++ (List.range k).map (2 ^ ·) := by
  have hallowed : allowed c.profile.limits.maxRetries = c.profile.limits.maxRetries.toNat + 1 := by
    rw [allowed]
    omega
  have hsend : exec (c.sendCall con call) h =
      exec (attempts con c.profile.limits.maxRetries q (c.profile.limits.maxRetries.toNat + 1) 0) h := by
    rw [sendCall]
    dsimp only
    rw [if_neg (by rw [hallowed]; exact Nat.succ_ne_zero _), hrequest, Except.mapError_ok,
      exec_bind_ok (exec_of _ h), hallowed]
  dsimp only
  rw [hsend, List.range_eq_range']
  exact exec_attempts _ 0 h

/-- A request that cannot be made is not sent, under a limit that allows an attempt. -/
theorem exec_sendCall_of_unmade (con : Console) (hlimit : 0 ≤ c.profile.limits.maxRetries) {e : Crash}
    (hrequest : c.request call = .error e) (h : Host) :
    exec (c.sendCall con call) h = (.error (.ofCrash e), h) := by
  have hallowed : allowed c.profile.limits.maxRetries ≠ 0 := by
    rw [allowed]
    omega
  rw [sendCall]
  dsimp only
  rw [if_neg hallowed, hrequest]
  rfl

/-- Under a limit below zero nothing is sent. -/
theorem exec_sendCall_of_neg (con : Console) (call : Call) (hlimit : c.profile.limits.maxRetries < 0) (h : Host) :
    exec (c.sendCall con call) h = (.error noAttempt, h) := by
  have hallowed : allowed c.profile.limits.maxRetries = 0 := by
    rw [allowed]
    omega
  rw [sendCall]
  dsimp only
  rw [if_pos hallowed]
  rfl

/-- **What a call comes to.** Whatever responses and failures that call for another attempt the attempts under
a limit meet, a request that can be made is sent at each attempt up to the first that no other follows, with
pauses of one second, two, four and so on between them, and the call comes to the outcome of that attempt: its
response, or, for a failure, that the service was not reached. A response that is a failure of the service, and
a failure to reach it, are what the call comes to only at the last attempt that is allowed. A request that
cannot be made is not sent. -/
theorem execute_repeats (c : Client) (con : Console) (call : Call) (h : Host)
    (hlimit : 0 ≤ c.profile.limits.maxRetries)
    (houtcomes : ∀ i : ℕ, (i : ℤ) ≤ c.profile.limits.maxRetries → (h.outcomeAfter i).IsRetriable) :
    let n := c.profile.limits.maxRetries
    let ran := exec (c.execute con call) h
    (∀ q, c.request call = .ok q → ∃ k : ℕ, IsLeast (c.settledAt h) k ∧
        ran.2.sent = h.sent ++ List.replicate (k + 1) q ∧
        ran.2.pauses = h.pauses ++ (List.range k).map (2 ^ ·) ∧
        (∀ r, h.outcomeAfter k = .reply r → ran.1 = .ok r ∧ (500 ≤ r.status → (k : ℤ) = n)) ∧
        ∀ f text, h.outcomeAfter k = .failed f text → (k : ℤ) = n ∧
          ran.1 = .error { kind := .connection,
                           message := "Connection failed after " ++ toString (n + 1) ++ " attempts: " ++ text }) ∧
      ∀ e, c.request call = .error e →
        ran.1 = .error (.ofCrash e) ∧ ran.2.sent = h.sent ∧ ran.2.pauses = h.pauses := by
  obtain ⟨err, err', hran⟩ := exec_execute c con call h
  dsimp only
  rw [hran]
  constructor
  · intro q hrequest
    obtain ⟨hresult, hsent, hpauses⟩ := exec_sendCall_of_ok con hlimit hrequest { h with err := err }
    have hretries : Host.retries { h with err := err } c.profile.limits.maxRetries.toNat =
        h.retries c.profile.limits.maxRetries.toNat := Host.retries_congr rfl _
    rw [hretries] at hresult hsent hpauses
    have hleast := isLeast_retries hlimit houtcomes
    refine ⟨_, hleast, hsent, hpauses, fun r hr => ?_, fun f text hf => ?_⟩
    · refine ⟨hresult.trans (congrArg _ hr), fun hstatus => ?_⟩
      rcases hleast.1 with hlast | ⟨r', hr', hlow⟩
      · exact hlast
      · cases hr.symm.trans hr'
        omega
    · rcases hleast.1 with hlast | ⟨r, hr, -⟩
      · have hretried : isRetried f = true := by
          have hretriable := houtcomes _ hlast.le
          rwa [hf] at hretriable
        refine ⟨hlast, hresult.trans ((congrArg _ hf).trans ?_)⟩
        rw [settle, if_pos hretried]
        rfl
      · cases hr.symm.trans hf
  · intro e hrequest
    rw [exec_sendCall_of_unmade con hlimit hrequest]
    exact ⟨rfl, rfl, rfl⟩

/-- A service that fails once, is out of reach once, and answers at the third of four attempts. -/
theorem execute_repeats_of_things :
    let h : Host := { outcomes := [.reply ⟨503, .empty⟩, .failed .connectError "refused", .reply ⟨200, .empty⟩] }
    let ran := exec (thingsClient.execute {} getThings) h
    0 ≤ thingsClient.profile.limits.maxRetries ∧
      (∀ i : ℕ, (i : ℤ) ≤ thingsClient.profile.limits.maxRetries → (h.outcomeAfter i).IsRetriable) ∧
      ran.1 = .ok ⟨200, .empty⟩ ∧ ran.2.sent = List.replicate 3 thingsRequest ∧ ran.2.pauses = [1, 2] := by
  intro h ran
  have hlimit : thingsClient.profile.limits.maxRetries = 3 := rfl
  have houtcomes : ∀ i : ℕ, (i : ℤ) ≤ thingsClient.profile.limits.maxRetries → (h.outcomeAfter i).IsRetriable := by
    intro i hi
    have hcases : i = 0 ∨ i = 1 ∨ i = 2 ∨ i = 3 := by omega
    rcases hcases with rfl | rfl | rfl | rfl
    · exact trivial
    · exact (rfl : isRetried .connectError = true)
    · exact trivial
    · exact trivial
  refine ⟨by decide, houtcomes, ?_⟩
  obtain ⟨hsends, -⟩ := execute_repeats thingsClient {} getThings h (by decide) houtcomes
  obtain ⟨k, hk, hsent, hpauses, hreply, -⟩ := hsends thingsRequest request_getThings
  have htwo : k = 2 := by
    refine hk.unique ⟨.inr ⟨⟨200, .empty⟩, rfl, by decide⟩, ?_⟩
    rintro i (hi | ⟨r, hr, hlow⟩)
    · omega
    · by_contra hlt
      have hcases : i = 0 ∨ i = 1 := by omega
      rcases hcases with rfl | rfl
      · cases hr
        exact absurd hlow (by decide)
      · cases hr
  subst htwo
  exact ⟨(hreply ⟨200, .empty⟩ rfl).1, hsent, hpauses⟩

/-! ### Limits that allow no attempt -/

/-- No other failure of a call is told in the words of one without attempts. -/
theorem settle_ne_noAttempt (n : Int) (o : WebOutcome) : settle n o ≠ .error noAttempt := by
  cases o with
  | reply r => simp [settle]
  | failed f text =>
      rw [settle]
      split
      · intro heq
        have hmessage : (unreachable n text).message = noAttempt.message := by rw [Except.error.inj heq]
        have hfirst := congrArg (fun s => s.toList.head?) hmessage
        simp [unreachable, noAttempt] at hfirst
      · simp [Fault.ofCrash, noAttempt]

/-- A client is made from its profile. -/
theorem profile_of_enter {schemes : Option Registry} {p : Profile} (henter : enter schemes h p = .ok c) :
    c.profile = p := by
  rw [enter] at henter
  obtain ⟨base, -, hbase⟩ := Except.bind_eq_ok_iff.1 henter
  cases schemes with
  | none =>
      cases hbase
      rfl
  | some r =>
      obtain ⟨grant, -, hgrant⟩ := Except.bind_eq_ok_iff.1 hbase
      cases hgrant
      rfl

/-- **Which calls send a request.** A client sends a request for a call exactly if the limit of its profile is
not below zero and the request can be made; it ends as a run of attempts without any attempt exactly if the
limit is below zero. -/
theorem execute_sends_iff (schemes : Option Registry) (p : Profile) (entered : Host) (c : Client)
    (henter : enter schemes entered p = .ok c) (con : Console) (call : Call) (h : Host) :
    let ran := exec (c.execute con call) h
    (h.sent.length < ran.2.sent.length ↔ 0 ≤ p.limits.maxRetries ∧ ∃ q, c.request call = .ok q) ∧
      (ran.1 = .error noAttempt ↔ p.limits.maxRetries < 0) := by
  obtain ⟨err, err', hran⟩ := exec_execute c con call h
  have hprofile := profile_of_enter henter
  dsimp only
  rw [hran, ← hprofile]
  rcases Int.lt_or_le c.profile.limits.maxRetries 0 with hneg | hlimit
  · rw [exec_sendCall_of_neg con call hneg]
    exact ⟨⟨fun hlt => absurd hlt (lt_irrefl _), fun hlimit => absurd hneg hlimit.1.not_gt⟩,
      fun _ => hneg, fun _ => rfl⟩
  · cases hrequest : c.request call with
    | error e =>
        rw [exec_sendCall_of_unmade con hlimit hrequest]
        refine ⟨⟨fun hlt => absurd hlt (lt_irrefl _), ?_⟩, ?_, fun hneg => absurd hneg hlimit.not_gt⟩
        · rintro ⟨-, q, hq⟩
          cases hq
        · simp [Fault.ofCrash, noAttempt]
    | ok q =>
        obtain ⟨hresult, hsent, -⟩ := exec_sendCall_of_ok con hlimit hrequest { h with err := err }
        refine ⟨⟨fun _ => ⟨hlimit, q, rfl⟩, fun _ => ?_⟩, fun hnone => ?_, fun hneg => absurd hneg hlimit.not_gt⟩
        · have hlength := congrArg List.length hsent
          simp only [List.length_append, List.length_replicate] at hlength
          dsimp only at hlength ⊢
          omega
        · exact absurd (hresult.symm.trans hnone) (settle_ne_noAttempt _ _)

/-- The members of a profile under a limit. -/
def limitedSettings (limit : Int) : Json :=
  .obj [("name", .str "test"), ("endpoint", .str "https://m.example.test"),
    ("request", .obj [("max_retries", .int limit)])]

/-- The profile that they give. -/
def limitedProfile (limit : Int) : Profile :=
  { name := "test", endpoint := "https://m.example.test", limits := { maxRetries := limit } }

/-- Its client, without schemes. -/
def limitedClient (limit : Int) : Client :=
  ⟨limitedProfile limit, { scheme := "https", host := "m.example.test" }, {}⟩

/-- Every whole number is accepted as a limit. -/
theorem ofJson_limitedSettings (limit : Int) :
    Profile.ofJson (limitedSettings limit) = .valid (limitedProfile limit) := rfl

theorem enter_limitedProfile (limit : Int) (h : Host) :
    enter none h (limitedProfile limit) = .ok (limitedClient limit) := by
  have hbase : baseOf "https://m.example.test" = .ok { scheme := "https", host := "m.example.test" } := by
    decide +kernel
  rw [enter, limitedProfile, hbase]
  rfl

/-- The limit has no part in a request. -/
theorem request_limitedClient (limit : Int) : (limitedClient limit).request getThings = .ok thingsRequest := by
  have hsame : (limitedClient limit).request getThings = (limitedClient 0).request getThings := rfl
  rw [hsame]
  decide +kernel

/-- Under a limit of zero a client sends the request of a call for things, and under the limit below it does
not. -/
theorem execute_sends_of_limits :
    enter none {} (limitedProfile 0) = .ok (limitedClient 0) ∧
      enter none {} (limitedProfile (-1)) = .ok (limitedClient (-1)) ∧
      0 < (exec ((limitedClient 0).execute {} getThings) {}).2.sent.length ∧
      ¬ 0 < (exec ((limitedClient (-1)).execute {} getThings) {}).2.sent.length := by
  obtain ⟨hsends, -⟩ :=
    execute_sends_iff none (limitedProfile 0) {} (limitedClient 0) (enter_limitedProfile 0 {}) {} getThings {}
  obtain ⟨hsends', -⟩ :=
    execute_sends_iff none (limitedProfile (-1)) {} (limitedClient (-1)) (enter_limitedProfile (-1) {}) {}
      getThings {}
  exact ⟨enter_limitedProfile 0 {}, enter_limitedProfile (-1) {},
    hsends.2 ⟨by decide, _, request_limitedClient 0⟩, fun hlt => absurd (hsends'.1 hlt).1 (by decide)⟩

/-- A profile that is accepted, and a call whose request can be made, which its client does not send. -/
theorem exists_execute_not_sends :
    ∃ (j : Json) (p : Profile) (c : Client) (call : Call) (h : Host), Profile.ofJson j = .valid p ∧
      enter none h p = .ok c ∧ (∃ q, c.request call = .ok q) ∧
      (exec (c.execute {} call) h).2.sent = h.sent ∧
      (exec (c.execute {} call) h).1 = .error noAttempt := by
  obtain ⟨err, err', hran⟩ :=
    exec_execute (limitedClient (-1)) {} getThings { outcomes := [.reply ⟨200, .empty⟩] }
  refine ⟨limitedSettings (-1), limitedProfile (-1), limitedClient (-1), getThings,
    { outcomes := [.reply ⟨200, .empty⟩] }, ofJson_limitedSettings _, enter_limitedProfile _ _,
    ⟨_, request_limitedClient _⟩, ?_⟩
  rw [hran, exec_sendCall_of_neg {} getThings (by decide)]
  exact ⟨rfl, rfl⟩

end Client

end Restline
