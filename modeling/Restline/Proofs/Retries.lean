import Mathlib.Data.List.Basic
import Mathlib.Data.List.Range
import Restline.Client
import Restline.Proofs.HostActions

/-!
Requests that are sent again. What becomes of a call is the outcome of its last attempt: the first one that
calls for no other, or the last that the limit allows. Failures of the network and of time call for another
attempt, and are told as a failure to reach the service when they are the last; a failure of the protocol,
of a proxy or of an unknown scheme ends the attempts as well, but nobody tells it.

* `TransportFailure.isTransport` : the failures that a transport has.
* `Host.retries` : how many attempts are made again.
* `Client.exec_attempts` : what a run of attempts comes to, and what it leaves.
* `Client.exec_execute_fst` : **what becomes of a call**.
* `Client.execute_foreseen_iff` : **when a call gives a response or is told as unreachable**.
-/

set_option autoImplicit false

namespace Restline

/-! ### Failures of a transport -/

namespace TransportFailure

/-- A failure of the transport: of the network, of time, of the protocol, of a proxy, or of a scheme. The
others come from what is done around a request. -/
def isTransport : TransportFailure → Bool
  | .decoding | .tooManyRedirects | .request | .http | .invalidUrl => false
  | _ => true

/-- The failures of a transport that call for no other attempt. -/
def untold : List TransportFailure :=
  [.localProtocol, .remoteProtocol, .protocol, .proxy, .unsupportedProtocol, .transport]

theorem mem_untold_iff {f : TransportFailure} :
    f ∈ untold ↔ f.isTransport = true ∧ Client.isRetried f = false := by
  cases f <;> decide

end TransportFailure

/-- The outcome is one of a transport. -/
def WebOutcome.IsTransport : WebOutcome → Prop
  | .reply _ => True
  | .failed f _ => f.isTransport = true

namespace Client

variable {con : Console} {q : WebRequest} {call : Call} {maxRetries : Int}

/-! ### Requests that cannot be made -/

/-- A request fails to be made for its address or its contents, not for the transport. -/
theorem crash_of_make {base : Web.Address} {method path : String} {params : Keyed Json}
    {fields : Keyed String} {body : Option Json} {e : Crash}
    (h : WebRequest.make base method path params fields body = .error e) :
    e = .transport .invalidUrl ∨ e = .unencodable ∨ e = .badValue := by
  have haddress : ∀ {a : Option Web.Address} {e : Crash}, WebRequest.addressOr a = .error e →
      e = .transport .invalidUrl := by
    intro a e ha
    cases a with
    | none => exact (Except.error.inj ha).symm
    | some a => cases ha
  rw [WebRequest.make] at h
  rcases Except.bind_eq_error_iff.1 h with ha | ⟨a, -, h⟩
  · exact .inl (haddress ha)
  rcases Except.bind_eq_error_iff.1 h with ha | ⟨a, -, h⟩
  · exact .inl (haddress ha)
  rcases Except.bind_eq_error_iff.1 h with hf | ⟨fs, -, h⟩
  · rw [WebRequest.joinFields] at hf
    split at hf
    · cases hf
    · exact .inr (.inl (Except.error.inj hf).symm)
  rcases Except.bind_eq_error_iff.1 h with hb | ⟨text, -, h⟩
  · rw [WebRequest.bodyText.eq_def] at hb
    split at hb
    · cases hb
    · split at hb
      · cases hb
      · exact .inr (.inr (Except.error.inj hb).symm)
  · cases h

end Client

/-! ### Attempts that are made again -/

namespace Host

/-- How many attempts in a row, up to a limit, meet an outcome that calls for another attempt. -/
def retries (h : Host) (limit : ℕ) : ℕ :=
  ((List.range limit).takeWhile fun n => (Client.retryCause? (h.outcomeAfter n)).isSome).length

theorem retries_congr {h h' : Host} (heq : h'.outcomes = h.outcomes) (limit : ℕ) :
    h'.retries limit = h.retries limit := by
  simp only [retries, outcomeAfter_congr heq]

/-- Whether the next attempt is made again, and if it is, how many behind it. -/
theorem retries_succ (h : Host) (q : WebRequest) (limit : ℕ) :
    h.retries (limit + 1) =
      if (Client.retryCause? (h.outcomeAfter 0)).isSome then (h.afterSending q).retries limit + 1
      else 0 := by
  rw [retries, List.range_succ_eq_map, List.takeWhile_cons]
  split
  · have hmoved : (fun n => (Client.retryCause? (h.outcomeAfter n)).isSome) ∘ Nat.succ =
        fun n => (Client.retryCause? ((h.afterSending q).outcomeAfter n)).isSome := by
      funext n
      rw [outcomeAfter_afterSending]
      rfl
    rw [List.takeWhile_map, hmoved, List.length_cons, List.length_map, retries]
  · rfl

/-- So many attempts are made again, if each of them calls for another one, and the next one does not or is
the last. -/
theorem retries_eq {h : Host} {limit n : ℕ} (hn : n ≤ limit)
    (hagain : ∀ i < n, (Client.retryCause? (h.outcomeAfter i)).isSome)
    (hlast : n < limit → Client.retryCause? (h.outcomeAfter n) = none) : h.retries limit = n := by
  have hall : ∀ i ∈ List.range n, (Client.retryCause? (h.outcomeAfter i)).isSome := fun i hi =>
    hagain i (List.mem_range.1 hi)
  obtain ⟨m, rfl⟩ := Nat.exists_eq_add_of_le hn
  rw [retries, List.range_add, List.takeWhile_append_of_pos hall, List.length_append, List.length_range]
  cases m with
  | zero => rfl
  | succ m => simp [List.range_succ_eq_map, hlast (by omega)]

end Host

namespace Client

open Act

/-! ### Attempts -/

variable {con : Console} {q : WebRequest} {call : Call} {maxRetries : Int}

/-- A detail that is said changes nothing but the standard error. -/
theorem exec_debug (con : Console) (text : String) (h : Host) :
    ∃ err, exec (con.debug text) h = (.ok (), { h with err := err }) := by
  rw [Console.debug]
  split
  · exact ⟨_, exec_report _ h⟩
  · exact ⟨h.err, rfl⟩

/-- The host after an attempt that is made again, which was said and waited for. -/
def afterAgain (h : Host) (q : WebRequest) (n : ℕ) (err : String) : Host :=
  { h.afterSending q with err := err, pauses := h.pauses ++ [delay n] }

/-- The last attempt that is allowed settles what the run comes to. -/
theorem exec_attempts_last (n : ℕ) (h : Host) :
    exec (attempts con maxRetries q 1 n) h =
      (settle maxRetries (h.outcomeAfter 0), h.afterSending q) := by
  rw [attempts, exec_bind_ok (exec_transmit q h)]
  rfl

/-- An attempt that calls for no other settles what the run comes to. -/
theorem exec_attempts_settled {h : Host} (hnone : retryCause? (h.outcomeAfter 0) = none) (left n : ℕ) :
    exec (attempts con maxRetries q (left + 1) n) h =
      (settle maxRetries (h.outcomeAfter 0), h.afterSending q) := by
  rw [attempts, exec_bind_ok (exec_transmit q h), hnone]
  cases left <;> rfl

/-- An attempt that calls for another one is waited for and made again. -/
theorem exec_attempts_again (con : Console) (maxRetries : Int) (q : WebRequest) {h : Host} {cause : String}
    (hcause : retryCause? (h.outcomeAfter 0) = some cause) (left n : ℕ) :
    ∃ err, exec (attempts con maxRetries q (left + 2) n) h =
      exec (attempts con maxRetries q (left + 1) (n + 1)) (afterAgain h q n err) := by
  obtain ⟨err, hsaid⟩ := exec_debug con (announcement cause maxRetries n) (h.afterSending q)
  refine ⟨err, ?_⟩
  rw [attempts, exec_bind_ok (exec_transmit q h), hcause]
  dsimp only
  rw [exec_bind_ok hsaid, exec_bind_ok (exec_pause _ _)]
  dsimp only
  rw [Host.pauses_afterSending]
  rfl

/-- **What a run of attempts comes to, and what it leaves**: the attempts that call for another one, then the
one that settles it, all with the same request, and pauses between them that double. -/
theorem exec_attempts (left : ℕ) : ∀ (n : ℕ) (h : Host),
    let ran := exec (attempts con maxRetries q (left + 1) n) h
    ran.1 = settle maxRetries (h.outcomeAfter (h.retries left)) ∧
      ran.2.sent = h.sent ++ List.replicate (h.retries left + 1) q ∧
      ran.2.pauses = h.pauses ++ (List.range' n (h.retries left)).map delay := by
  -- on the attempts left; the host is any, since each attempt leaves another one
  induction left with
  | zero =>
      intro n h
      have hzero : h.retries 0 = 0 := rfl
      rw [hzero, exec_attempts_last]
      simp
  | succ left ih =>
      intro n h
      cases hcause : retryCause? (h.outcomeAfter 0) with
      | none =>
          have hzero : h.retries (left + 1) = 0 := by rw [h.retries_succ q, hcause]; rfl
          rw [hzero, exec_attempts_settled hcause]
          simp
      | some cause =>
          have hsucc : h.retries (left + 1) = (h.afterSending q).retries left + 1 := by
            rw [h.retries_succ q, hcause]; rfl
          obtain ⟨err, hagain⟩ := exec_attempts_again con maxRetries q hcause left n
          obtain ⟨hresult, hsent, hpauses⟩ := ih (n + 1) (afterAgain h q n err)
          -- what is said and waited for leaves the outcomes as the request left them
          have houtcomes : (afterAgain h q n err).outcomes = (h.afterSending q).outcomes := rfl
          have hsent' : (afterAgain h q n err).sent = h.sent ++ [q] := h.sent_afterSending q
          rw [Host.retries_congr houtcomes] at hresult hsent hpauses
          rw [Host.outcomeAfter_congr houtcomes, Host.outcomeAfter_afterSending] at hresult
          rw [hsucc, hagain]
          refine ⟨hresult, ?_, ?_⟩
          · rw [hsent, hsent', List.append_assoc]
            rfl
          · rw [hpauses, List.range'_succ]
            simp [afterAgain]

/-! ### Calls -/

/-- The outcome that settles what becomes of the next call. -/
def decisive (c : Client) (h : Host) : WebOutcome :=
  h.outcomeAfter (h.retries c.profile.limits.maxRetries.toNat)

variable {c : Client} {h : Host}

/-- What becomes of the request of a call. -/
theorem exec_sendCall_fst (con : Console) (hlimit : 0 ≤ c.profile.limits.maxRetries) :
    (exec (c.sendCall con call) h).1 =
      match c.request call with
      | .error e => .error (.ofCrash e)
      | .ok _ => settle c.profile.limits.maxRetries (c.decisive h) := by
  have hallowed : allowed c.profile.limits.maxRetries = c.profile.limits.maxRetries.toNat + 1 := by
    rw [allowed]
    omega
  rw [sendCall]
  dsimp only
  rw [if_neg (by rw [hallowed]; exact Nat.succ_ne_zero _)]
  cases hrequest : c.request call with
  | error e => rfl
  | ok q =>
      rw [Except.mapError_ok, exec_bind_ok (exec_of _ h), hallowed]
      exact (exec_attempts _ 0 h).1

/-- A call comes to what sending its request comes to; what is said before and after changes nothing but the
standard error. -/
theorem exec_execute (c : Client) (con : Console) (call : Call) (h : Host) :
    ∃ err err', exec (c.execute con call) h =
      ((exec (c.sendCall con call) { h with err := err }).1,
        { (exec (c.sendCall con call) { h with err := err }).2 with err := err' }) := by
  obtain ⟨err, hsaid⟩ := exec_debug con (call.method ++ " " ++ c.shownAddress call) h
  refine ⟨err, ?_⟩
  rw [execute, exec_bind_ok hsaid]
  cases hsent : exec (c.sendCall con call) { h with err := err } with
  | mk x h' =>
      cases x with
      | error e => exact ⟨h'.err, by rw [exec_bind_error hsent]⟩
      | ok reply =>
          obtain ⟨err', hsaid'⟩ := exec_debug con ("Response status: " ++ toString reply.status) h'
          exact ⟨err', by rw [exec_bind_ok hsent, exec_bind_ok hsaid', exec_pure]⟩

/-- **What becomes of a call**: a request that cannot be made fails, and any other gives what the outcome of
its last attempt comes to. -/
theorem exec_execute_fst (hlimit : 0 ≤ c.profile.limits.maxRetries) :
    (exec (c.execute con call) h).1 =
      match c.request call with
      | .error e => .error (.ofCrash e)
      | .ok _ => settle c.profile.limits.maxRetries (c.decisive h) := by
  obtain ⟨err, err', hran⟩ := exec_execute c con call h
  have hdecisive : c.decisive { h with err := err } = c.decisive h := by
    rw [decisive, decisive, Host.retries_congr rfl]
    exact Host.outcomeAfter_congr rfl _
  rw [hran, ← hdecisive, ← exec_sendCall_fst con hlimit]

/-! ### Failures that are foreseen -/

/-- The outcome of a call is a response, or a failure to reach the service. -/
def IsForeseen (x : Except Fault Reply) : Prop :=
  (∃ reply, x = .ok reply) ∨ ∃ f, x = .error f ∧ f.kind = .connection

theorem isForeseen_settle_iff {o : WebOutcome} :
    IsForeseen (settle maxRetries o) ↔ ∀ f text, o = .failed f text → isRetried f = true := by
  cases o with
  | reply r => simp [IsForeseen, settle]
  | failed f text => cases hf : isRetried f <;> simp [IsForeseen, settle, hf, unreachable, Fault.ofCrash]

/-- A failure that calls for no other attempt is left as it is. -/
theorem settle_eq_transport_iff {o : WebOutcome} {f : TransportFailure} :
    settle maxRetries o = .error (.ofCrash (.transport f)) ↔
      isRetried f = false ∧ ∃ text, o = .failed f text := by
  cases o with
  | reply r => simp [settle]
  | failed g text =>
      cases hg : isRetried g with
      | true =>
          have hne : g = f → isRetried f ≠ false := fun heq => by simp [← heq, hg]
          simpa [settle, hg, unreachable, Fault.ofCrash] using fun hf heq => hne heq hf
      | false =>
          simp only [settle, hg, Fault.ofCrash]
          constructor
          · intro heq
            obtain rfl : g = f := by simpa using heq
            exact ⟨hg, text, rfl⟩
          · rintro ⟨-, _, heq⟩
            obtain ⟨rfl, -⟩ := WebOutcome.failed.inj heq
            rfl

theorem decisive_isTransport (houtcomes : ∀ o ∈ h.outcomes, o.IsTransport) :
    (c.decisive h).IsTransport := by
  rcases h.outcomeAfter_mem (h.retries c.profile.limits.maxRetries.toNat) with hmem | hempty
  · exact houtcomes _ hmem
  · rw [decisive, hempty]
    trivial

/-- A failure of a transport that a call of a client ends with is that of its last attempt. -/
theorem exec_execute_transport_iff (hlimit : 0 ≤ c.profile.limits.maxRetries) {f : TransportFailure}
    (hf : f.isTransport = true) :
    (exec (c.execute con call) h).1 = .error (.ofCrash (.transport f)) ↔
      (∃ q, c.request call = .ok q) ∧ f ∈ TransportFailure.untold ∧
        ∃ text, c.decisive h = .failed f text := by
  rw [exec_execute_fst hlimit, TransportFailure.mem_untold_iff]
  cases hrequest : c.request call with
  | error e =>
      -- a request that cannot be made fails for something else
      have hother : e ≠ .transport f := by
        rintro rfl
        rcases crash_of_make hrequest with heq | heq | heq
        · cases heq
          cases hf
        · cases heq
        · cases heq
      simp [Fault.ofCrash, hother]
  | ok q =>
      dsimp only
      rw [settle_eq_transport_iff]
      simp [hf]

/-- **When a call gives a response or is told as unreachable**, whatever outcomes of a transport its attempts
meet: exactly if its request can be made and the outcome of the last attempt is no failure of the protocol,
of a proxy or of a scheme. Such a failure is what the call ends with, be it that of the first attempt or of a
later one, and no other failure of a transport is. -/
theorem execute_foreseen_iff (c : Client) (con : Console) (call : Call) (h : Host)
    (hlimit : 0 ≤ c.profile.limits.maxRetries) (houtcomes : ∀ o ∈ h.outcomes, o.IsTransport) :
    let x := (exec (c.execute con call) h).1
    (IsForeseen x ↔ (∃ q, c.request call = .ok q) ∧
        ∀ f ∈ TransportFailure.untold, ∀ text, c.decisive h ≠ .failed f text) ∧
      (∀ f : TransportFailure, f.isTransport = true →
        (x = .error (.ofCrash (.transport f)) ↔ (∃ q, c.request call = .ok q) ∧
          f ∈ TransportFailure.untold ∧ ∃ text, c.decisive h = .failed f text)) ∧
      ∀ (n : ℕ) (f : TransportFailure) (text : String), (n : ℤ) ≤ c.profile.limits.maxRetries →
        (∀ i < n, (retryCause? (h.outcomeAfter i)).isSome) → h.outcomeAfter n = .failed f text →
          f ∈ TransportFailure.untold → (∃ q, c.request call = .ok q) →
            x = .error (.ofCrash (.transport f)) := by
  intro x
  refine ⟨?_, fun f hf => exec_execute_transport_iff hlimit hf, ?_⟩
  · have hx : x = _ := exec_execute_fst hlimit
    rw [hx]
    cases hrequest : c.request call with
    | error e => simp [IsForeseen, Fault.ofCrash]
    | ok q =>
        have htransport : (c.decisive h).IsTransport := decisive_isTransport houtcomes
        dsimp only
        rw [isForeseen_settle_iff]
        constructor
        · intro hretried
          refine ⟨⟨q, rfl⟩, fun f hf text hfailed => ?_⟩
          rw [TransportFailure.mem_untold_iff, hretried f text hfailed] at hf
          exact absurd hf.2 (by decide)
        · rintro ⟨-, htold⟩ f text hfailed
          -- a failure of a transport that is told calls for another attempt
          rw [hfailed] at htransport
          by_contra hretried
          exact htold f (TransportFailure.mem_untold_iff.2 ⟨htransport, by simpa using hretried⟩) text hfailed
  · intro n f text hn hagain hfailed hf hrequest
    have hends := TransportFailure.mem_untold_iff.1 hf
    have hdecisive : c.decisive h = .failed f text := by
      have hretries : h.retries c.profile.limits.maxRetries.toNat = n :=
        Host.retries_eq (by omega) hagain fun _ => by simp [hfailed, retryCause?, hends.2]
      rw [decisive, hretries, hfailed]
    exact (exec_execute_transport_iff hlimit hends.1).2 ⟨hrequest, hf, text, hdecisive⟩

/-! ### A connection that is cut -/

/-- A client under the usual limit. -/
def thingsClient : Client where
  profile := { name := "test" }
  base := { scheme := "https", host := "m.example.test", path := "/" }

/-- A call for things. -/
def getThings : Call := ⟨"GET", "/things", none, none, []⟩

/-- The request of the call. -/
def thingsRequest : WebRequest :=
  ⟨"GET", "https://m.example.test/things", [("accept", "application/json")], none⟩

theorem request_getThings : thingsClient.request getThings = .ok thingsRequest := by decide +kernel

/-- A connection that is cut after an attempt that took too long ends the call unforeseen; a refused
connection that is there at the next attempt does not. -/
theorem execute_foreseen_of_things :
    let cut : Host := { outcomes := [.failed .connectTimeout "slow", .failed .remoteProtocol "cut"] }
    let late : Host := { outcomes := [.failed .connectError "refused", .reply ⟨200, .empty⟩] }
    0 ≤ thingsClient.profile.limits.maxRetries ∧
      (∀ o ∈ cut.outcomes, o.IsTransport) ∧ (∀ o ∈ late.outcomes, o.IsTransport) ∧
      (exec (thingsClient.execute {} getThings) cut).1 = .error (.ofCrash (.transport .remoteProtocol)) ∧
      IsForeseen (exec (thingsClient.execute {} getThings) late).1 := by
  intro cut late
  have hlimit : 0 ≤ thingsClient.profile.limits.maxRetries := by decide
  have hcut : ∀ o ∈ cut.outcomes, o.IsTransport := by simp [cut, WebOutcome.IsTransport]; decide
  have hlate : ∀ o ∈ late.outcomes, o.IsTransport := by simp [late, WebOutcome.IsTransport]; decide
  have hrequest : ∃ q, thingsClient.request getThings = .ok q := ⟨_, request_getThings⟩
  have hreply : thingsClient.decisive late = .reply ⟨200, .empty⟩ := rfl
  refine ⟨hlimit, hcut, hlate, ?_, ?_⟩
  · obtain ⟨-, -, hends⟩ := execute_foreseen_iff thingsClient {} getThings cut hlimit hcut
    refine hends 1 .remoteProtocol "cut" (by decide) (fun i hi => ?_) rfl (by decide) hrequest
    obtain rfl : i = 0 := by omega
    rfl
  · obtain ⟨hforeseen, -⟩ := execute_foreseen_iff thingsClient {} getThings late hlimit hlate
    refine hforeseen.2 ⟨hrequest, fun f _ text hfailed => ?_⟩
    rw [hreply] at hfailed
    cases hfailed

/-- A connection that is cut at the first attempt reaches the caller as it is. -/
theorem exists_execute_not_foreseen :
    ∃ (c : Client) (con : Console) (call : Call) (h : Host), 0 ≤ c.profile.limits.maxRetries ∧
      (∀ o ∈ h.outcomes, o.IsTransport) ∧ ¬ IsForeseen (exec (c.execute con call) h).1 := by
  let h : Host := { outcomes := [.failed .remoteProtocol "cut"] }
  have hlimit : 0 ≤ thingsClient.profile.limits.maxRetries := by decide
  have hx : (exec (thingsClient.execute {} getThings) h).1 =
      .error (.ofCrash (.transport .remoteProtocol)) :=
    (exec_execute_transport_iff hlimit rfl).2 ⟨⟨_, request_getThings⟩, by decide, "cut", rfl⟩
  refine ⟨thingsClient, {}, getThings, h, hlimit, by simp [h, WebOutcome.IsTransport]; decide, ?_⟩
  rw [hx]
  simp [IsForeseen, Fault.ofCrash]

end Client

end Restline
