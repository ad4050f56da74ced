import Mathlib.Data.List.Basic
import Restline.Proofs.HostActions
import Restline.Proofs.QueryParams
import Restline.Proofs.Retries

/-!
What is said about requests, and what authorizes them. A preview hides the value of one field and shows those
of all others, and of all parameters, whatever a scheme may use to carry a credential. Sending a request says
nothing of any of them.

* `Grant.SameNames` : two grants that differ in their values only.
* `Client.HidesField`, `Call.Sets` : the names whose granted values do not show in a preview.
* `Client.previewLines_eq_iff` : when two grants look alike in a preview.
* `Act.SoundsLike` : two actions that nobody can tell apart by what they say.
* `Client.err_execute_congr` : sending a request says the same for every grant.
* `Client.credentials_shown_iff` : **what is said about requests for two grants with the same names**.
-/

set_option autoImplicit false

namespace Restline

/-! ### Grants with the same names -/

/-- Two grants have the same names for fields and for parameters; their values are any. -/
structure Grant.SameNames (g g' : Grant) : Prop where
  fields : Keyed.keys g.fields = Keyed.keys g'.fields
  params : Keyed.keys g.params = Keyed.keys g'.params

/-- A call has a value of its own for a parameter. -/
def Call.Sets (call : Call) (name : String) : Prop :=
  name ∈ call.query.keys ∨ (call.version.isSome = true ∧ name = versionParam)

instance (call : Call) (name : String) : Decidable (call.Sets name) :=
  inferInstanceAs (Decidable (name ∈ call.query.keys ∨ (call.version.isSome = true ∧ name = versionParam)))

namespace Client

/-- The value that a grant has for a field does not show: it is hidden, or every request has one of its own. -/
def HidesField (name : String) : Prop := Text.lowerAscii name = "authorization" ∨ name = "Accept"

instance (name : String) : Decidable (HidesField name) :=
  inferInstanceAs (Decidable (Text.lowerAscii name = "authorization" ∨ name = "Accept"))

/-- The client with another grant. -/
def withGrant (c : Client) (g : Grant) : Client := { c with grant := g }

@[simp] theorem grant_withGrant (c : Client) (g : Grant) : (c.withGrant g).grant = g := rfl

variable {c : Client} {con : Console} {call : Call} {g g' : Grant}

/-! ### What a request carries -/

theorem get?_fields (c : Client) (name : String) :
    c.fields.get? name =
      (if name = "Accept" then some "application/json" else none).or (Keyed.last? c.grant.fields name) := by
  rw [fields, Keyed.get?_union, Keyed.get?_ofPairs, Keyed.last?_singleton]
  simp only [eq_comm]

theorem nodup_keys_fields (c : Client) : c.fields.keys.Nodup :=
  Keyed.nodup_keys_union (Keyed.nodup_keys_ofPairs _) _

theorem keys_fields_congr (h : g.SameNames g') :
    (c.withGrant g).fields.keys = (c.withGrant g').fields.keys :=
  Keyed.keys_union_congr (Keyed.keys_union_congr rfl h.fields) rfl

theorem keys_params_congr (h : g.SameNames g') :
    ((c.withGrant g).params call).keys = ((c.withGrant g').params call).keys := by
  have hgranted : Keyed.keys (g.params.map fun p => (p.1, Json.str p.2)) =
      Keyed.keys (g'.params.map fun p => (p.1, Json.str p.2)) := by
    have hnames := h.params
    simp only [Keyed.keys, List.map_map] at hnames ⊢
    exact hnames
  have hown : (Keyed.union (Keyed.ofPairs (g.params.map fun p => (p.1, Json.str p.2))) call.query).keys =
      (Keyed.union (Keyed.ofPairs (g'.params.map fun p => (p.1, Json.str p.2))) call.query).keys :=
    Keyed.keys_union_congr (Keyed.keys_union_congr rfl hgranted) rfl
  rw [params, params]
  cases call.version with
  | none => exact hown
  | some v =>
      dsimp only [withGrant]
      rw [Keyed.keys_put, Keyed.keys_put, hown]

/-! ### What a preview says -/

/-- A field that is hidden looks the same for every value. -/
theorem shownField_of_hidden {name : String} (h : Text.lowerAscii name = "authorization") (v v' : String) :
    shownField (name, v) = shownField (name, v') := by
  rw [shownField, shownField, if_pos h, if_pos h]

/-- Any other field shows its value. -/
theorem shownField_injective {name : String} (h : Text.lowerAscii name ≠ "authorization") :
    Function.Injective fun v => shownField (name, v) := by
  intro v v' heq
  simp only [shownField, if_neg h] at heq
  exact String.append_right_inj _ |>.1 heq

/-- A parameter shows its text. -/
theorem shownParam_injective (name : String) : Function.Injective fun v => shownParam (name, .str v) :=
  fun _ _ heq => String.append_right_inj _ |>.1 heq

/-- The fields look the same exactly if no granted value that shows differs. -/
theorem map_shownField_eq_iff (hnames : g.SameNames g') :
    (c.withGrant g).fields.map shownField = (c.withGrant g').fields.map shownField ↔
      ∀ name, ¬ HidesField name → Keyed.last? g.fields name = Keyed.last? g'.fields name := by
  rw [Keyed.map_eq_map_iff (keys_fields_congr hnames) (nodup_keys_fields _)]
  refine forall_congr' fun name => ?_
  rw [get?_fields, get?_fields, grant_withGrant, grant_withGrant, HidesField]
  by_cases haccept : name = "Accept"
  · simp [haccept]
  rw [if_neg haccept, Option.none_or, Option.none_or]
  by_cases hhidden : Text.lowerAscii name = "authorization"
  · have hnone : Keyed.last? g.fields name = none ↔ Keyed.last? g'.fields name = none := by
      rw [Keyed.last?_eq_none_iff, Keyed.last?_eq_none_iff, hnames.fields]
    refine iff_of_true ?_ fun hshown => absurd (.inl hhidden) hshown
    cases hv : Keyed.last? g.fields name with
    | none => rw [hnone.1 hv]
    | some v =>
        cases hv' : Keyed.last? g'.fields name with
        | none => cases (hnone.2 hv').symm.trans hv
        | some v' => exact congrArg some (shownField_of_hidden hhidden v v')
  · rw [(Option.map_injective (shownField_injective hhidden)).eq_iff]
    exact ⟨fun heq _ => heq, fun heq => heq (not_or.2 ⟨hhidden, haccept⟩)⟩

/-- The parameters look the same exactly if no granted value that the call leaves differs. -/
theorem map_shownParam_eq_iff (hnames : g.SameNames g') :
    ((c.withGrant g).params call).map shownParam = ((c.withGrant g').params call).map shownParam ↔
      ∀ name, ¬ call.Sets name → Keyed.last? g.params name = Keyed.last? g'.params name := by
  rw [Keyed.map_eq_map_iff (keys_params_congr hnames) (nodup_keys_params _ call)]
  refine forall_congr' fun name => ?_
  have hown : ((if name = versionParam then call.version.map Json.str else none).or
      (Keyed.last? call.query name)) = none ↔ ¬ call.Sets name := by
    rw [Option.or_eq_none_iff, Keyed.last?_eq_none_iff, Call.Sets, not_or, and_comm]
    by_cases hversion : name = versionParam <;> simp [hversion]
  rw [get?_params_eq_last?, get?_params_eq_last?, grant_withGrant, grant_withGrant]
  cases hset : (if name = versionParam then call.version.map Json.str else none).or
      (Keyed.last? call.query name) with
  | some j =>
      have hsets : ¬ ¬ call.Sets name := fun hnot => Option.some_ne_none j (hset ▸ hown.2 hnot)
      exact iff_of_true rfl fun hnot => absurd hnot hsets
  | none =>
      rw [Option.none_or, Option.none_or, Option.map_map, Option.map_map]
      refine (Option.map_injective (shownParam_injective name)).eq_iff.trans ?_
      exact ⟨fun heq _ => heq, fun heq => heq (hown.1 hset)⟩

/-- **When two grants look alike in a preview**: exactly if they agree on every field that is not hidden and on
every parameter that the call does not set. -/
theorem previewLines_eq_iff (hnames : g.SameNames g') :
    (c.withGrant g).previewLines call = (c.withGrant g').previewLines call ↔
      (∀ name, ¬ HidesField name → Keyed.last? g.fields name = Keyed.last? g'.fields name) ∧
      ∀ name, ¬ call.Sets name → Keyed.last? g.params name = Keyed.last? g'.params name := by
  have hlength : ((c.withGrant g).fields.map shownField).length =
      ((c.withGrant g').fields.map shownField).length := by
    simpa [Keyed.keys] using congrArg List.length (keys_fields_congr (c := c) hnames)
  rw [previewLines, previewLines, ← map_shownField_eq_iff hnames, ← map_shownParam_eq_iff hnames]
  constructor
  · intro heq
    exact List.append_inj (List.append_cancel_right (List.cons.inj heq).2) hlength
  · rintro ⟨hfields, hparams⟩
    rw [hfields, hparams]
    rfl

end Client

/-! ### What sending says -/

/-- Two hosts of which the same was said and that have the same outcomes before them. -/
structure Host.SoundsLike (h h' : Host) : Prop where
  err : h.err = h'.err
  outcomes : h.outcomes = h'.outcomes

namespace Act

variable {α β : Type}

/-- Two actions give the same result and say the same, on hosts that nobody can tell apart so far. -/
def SoundsLike (x x' : Act α) : Prop :=
  ∀ h h' : Host, h.SoundsLike h' →
    (exec x h).1 = (exec x' h').1 ∧ (exec x h).2.SoundsLike (exec x' h').2

theorem SoundsLike.of (x : Except Fault α) : SoundsLike (of x) (of x) := fun _ _ hsame => ⟨rfl, hsame⟩

theorem SoundsLike.bind {x x' : Act α} {f f' : α → Act β} (hx : SoundsLike x x')
    (hf : ∀ a, SoundsLike (f a) (f' a)) : SoundsLike (x >>= f) (x' >>= f') := by
  intro h h' hsame
  obtain ⟨hresult, hafter⟩ := hx h h' hsame
  rw [exec_bind, exec_bind]
  cases hrun : exec x h with
  | mk r k =>
      cases hrun' : exec x' h' with
      | mk r' k' =>
          rw [hrun, hrun'] at hresult hafter
          obtain rfl : r = r' := hresult
          cases r with
          | error e => exact ⟨rfl, hafter⟩
          | ok a => exact hf a k k' hafter

theorem SoundsLike.debug (con : Console) (text : String) : SoundsLike (con.debug text) (con.debug text) := by
  intro h h' hsame
  rw [Console.debug]
  split
  · exact ⟨rfl, by simp [hsame.err], hsame.outcomes⟩
  · exact ⟨rfl, hsame⟩

theorem SoundsLike.pause (seconds : ℕ) : SoundsLike (pause seconds) (pause seconds) :=
  fun _ _ hsame => ⟨rfl, hsame.err, hsame.outcomes⟩

/-- Two requests meet the same outcome. -/
theorem SoundsLike.transmit (q q' : WebRequest) : SoundsLike (transmit q) (transmit q') := by
  intro h h' hsame
  simp only [exec, Act.transmit, hsame.outcomes]
  cases h'.outcomes with
  | nil => exact ⟨rfl, hsame.err, rfl⟩
  | cons o rest =>
      cases rest with
      | nil => exact ⟨rfl, hsame.err, rfl⟩
      | cons o' rest => exact ⟨rfl, hsame.err, rfl⟩

end Act

namespace Client

open Act

variable {c : Client} {con : Console} {call : Call} {g g' : Grant}

/-- Attempts say nothing of the request that they are made with. -/
theorem soundsLike_attempts (con : Console) (maxRetries : Int) (q q' : WebRequest) (left : ℕ) :
    ∀ n, SoundsLike (attempts con maxRetries q left n) (attempts con maxRetries q' left n) := by
  induction left with
  | zero => exact fun _ => SoundsLike.of (.error noAttempt)
  | succ left ih =>
      intro n
      rw [attempts, attempts]
      refine SoundsLike.bind (SoundsLike.transmit q q') fun outcome => ?_
      split
      · exact SoundsLike.of _
      · exact SoundsLike.of _
      · exact SoundsLike.bind (SoundsLike.debug con _) fun _ =>
          SoundsLike.bind (SoundsLike.pause _) fun _ => ih (n + 1)

/-- Two requests that can be made are sent with the same words. -/
theorem soundsLike_sendCall {c' : Client} (hprofile : c'.profile = c.profile) {q q' : WebRequest}
    (hq : c.request call = .ok q) (hq' : c'.request call = .ok q') :
    SoundsLike (c.sendCall con call) (c'.sendCall con call) := by
  rw [sendCall, sendCall, hq, hq', hprofile]
  dsimp only
  by_cases hlimit : allowed c.profile.limits.maxRetries = 0
  · rw [if_pos hlimit, if_pos hlimit]
    exact SoundsLike.of (.error noAttempt)
  · rw [if_neg hlimit, if_neg hlimit]
    exact soundsLike_attempts con _ q q' _ 0

/-- A request that cannot be made is not sent, and nothing is said of it. -/
theorem exec_sendCall_of_error {e : Crash} (he : c.request call = .error e) (h : Host) :
    ∃ f, exec (c.sendCall con call) h = (.error f, h) := by
  rw [sendCall, he]
  dsimp only
  split
  · exact ⟨noAttempt, rfl⟩
  · exact ⟨.ofCrash e, rfl⟩

/-- **Sending a request says the same for every grant** for which it can be made, and the same for every grant
for which it cannot. -/
theorem err_execute_congr (h : Host)
    (hmade : (∃ q, (c.withGrant g).request call = .ok q) ↔ ∃ q, (c.withGrant g').request call = .ok q) :
    (exec ((c.withGrant g).execute con call) h).2.err =
      (exec ((c.withGrant g').execute con call) h).2.err := by
  have haddress : (c.withGrant g).shownAddress call = (c.withGrant g').shownAddress call := rfl
  rw [execute, execute, haddress]
  obtain ⟨err, hsaid⟩ := exec_debug con (call.method ++ " " ++ (c.withGrant g').shownAddress call) h
  cases hq : (c.withGrant g).request call with
  | ok q =>
      obtain ⟨q', hq'⟩ := hmade.1 ⟨q, hq⟩
      refine And.right (SoundsLike.bind (SoundsLike.debug con _) (fun _ => ?_) h h ⟨rfl, rfl⟩) |>.err
      refine SoundsLike.bind (soundsLike_sendCall rfl hq hq') fun reply => ?_
      exact SoundsLike.bind (SoundsLike.debug con _) fun _ => SoundsLike.of (.ok reply)
  | error e =>
      cases hq' : (c.withGrant g').request call with
      | ok q' =>
          obtain ⟨q, hmade⟩ := hmade.2 ⟨q', hq'⟩
          cases hq.symm.trans hmade
      | error e' =>
          obtain ⟨f, hfails⟩ := exec_sendCall_of_error hq { h with err := err }
          obtain ⟨f', hfails'⟩ := exec_sendCall_of_error hq' { h with err := err }
          rw [exec_bind_ok hsaid, exec_bind_ok hsaid, exec_bind_error hfails, exec_bind_error hfails']

/-! ### What is said -/

/-- The lines of a preview as they stand on the standard error; a quiet console says none of them. -/
def saidLines (con : Console) (lines : List String) : String :=
  if con.quiet then "" else lines.foldr (fun line rest => line ++ "\n" ++ rest) ""

theorem exec_sayAll (con : Console) (lines : List String) (h : Host) :
    exec (sayAll con lines) h = (.ok (), { h with err := h.err ++ saidLines con lines }) := by
  induction lines generalizing h with
  | nil => simp [sayAll, saidLines]
  | cons line rest ih =>
      rw [sayAll, exec_bind, Console.info]
      cases hquiet : con.quiet <;> simp [ih, saidLines, hquiet, String.append_assoc]

/-- **What is said about requests for two grants with the same names.** A preview says the lines that show the
request and does nothing else. These are the same for both grants exactly if the grants agree on every field
but the hidden one and `Accept`, and on every parameter that the call does not set. What is said when the
request is sent is the same for both, if it can be made for both or for neither. -/
theorem credentials_shown_iff (c : Client) (con : Console) (call : Call) (h : Host) {g g' : Grant}
    (hnames : g.SameNames g') :
    (∀ g, exec ((c.withGrant g).preview con call) h =
        (.ok (), { h with err := h.err ++ saidLines con ((c.withGrant g).previewLines call) })) ∧
      ((c.withGrant g).previewLines call = (c.withGrant g').previewLines call ↔
        (∀ name, ¬ HidesField name → Keyed.last? g.fields name = Keyed.last? g'.fields name) ∧
          ∀ name, ¬ call.Sets name → Keyed.last? g.params name = Keyed.last? g'.params name) ∧
      (((∃ q, (c.withGrant g).request call = .ok q) ↔ ∃ q, (c.withGrant g').request call = .ok q) →
        (exec ((c.withGrant g).execute con call) h).2.err =
          (exec ((c.withGrant g').execute con call) h).2.err) :=
  ⟨fun g => exec_sayAll con ((c.withGrant g).previewLines call) h, previewLines_eq_iff hnames,
    err_execute_congr h⟩

/-- A call for things in a version. -/
def getThingsVersion : Call := ⟨"GET", "/things", some "v1", none, []⟩

/-- A token, a key and a signature, and a version that the call sets. -/
def grantOf (token key signature version : String) : Grant where
  fields := [("authorization", "Bearer " ++ token), ("X-Api-Key", key)]
  params := [("sig", signature), (versionParam, version)]

theorem sameNames_grantOf (t k s v t' k' s' v' : String) :
    (grantOf t k s v).SameNames (grantOf t' k' s' v') := ⟨rfl, rfl⟩

/-- Another token and another version do not show; another key does. -/
theorem credentials_shown_of_things :
    (grantOf "t" "k" "s" "v").SameNames (grantOf "u" "k" "s" "w") ∧
      (grantOf "t" "k" "s" "v").SameNames (grantOf "t" "j" "s" "v") ∧
      (thingsClient.withGrant (grantOf "t" "k" "s" "v")).previewLines getThingsVersion =
        (thingsClient.withGrant (grantOf "u" "k" "s" "w")).previewLines getThingsVersion ∧
      (thingsClient.withGrant (grantOf "t" "k" "s" "v")).previewLines getThingsVersion ≠
        (thingsClient.withGrant (grantOf "t" "j" "s" "v")).previewLines getThingsVersion := by
  have hhides : ∀ {name}, ¬ HidesField name → name ≠ "authorization" := by
    rintro name hshown rfl
    exact hshown (.inl (by decide +kernel))
  have hsets : ∀ {name}, ¬ getThingsVersion.Sets name → name ≠ versionParam := by
    rintro name hnot rfl
    exact hnot (.inr ⟨rfl, rfl⟩)
  have hsame := sameNames_grantOf "t" "k" "s" "v" "u" "k" "s" "w"
  have hother := sameNames_grantOf "t" "k" "s" "v" "t" "j" "s" "v"
  obtain ⟨-, halike, -⟩ := credentials_shown_iff thingsClient {} getThingsVersion {} hsame
  obtain ⟨-, hunlike, -⟩ := credentials_shown_iff thingsClient {} getThingsVersion {} hother
  refine ⟨hsame, hother, halike.2 ⟨fun name hname => ?_, fun name hname => ?_⟩, fun heq => ?_⟩
  · simp [grantOf, Keyed.last?_cons, Ne.symm (hhides hname)]
  · simp [grantOf, Keyed.last?_cons, Ne.symm (hsets hname)]
  · have hkey := (hunlike.1 heq).1 "X-Api-Key" (by decide +kernel)
    exact absurd hkey (by decide)

/-- A key in another field shows in a preview, and so does a parameter, though the call sets neither. -/
theorem exists_credentials_shown :
    ∃ (c : Client) (call : Call), (∀ name, ¬ call.Sets name) ∧
      (∃ g g' : Grant, g.SameNames g' ∧ g.params = g'.params ∧ "Accept" ∉ Keyed.keys g.fields ∧
        (c.withGrant g).previewLines call ≠ (c.withGrant g').previewLines call) ∧
      ∃ g g' : Grant, g.SameNames g' ∧ g.fields = g'.fields ∧
        (c.withGrant g).previewLines call ≠ (c.withGrant g').previewLines call := by
  have hsets : ∀ name, ¬ getThings.Sets name := fun name => by simp [Call.Sets, getThings, Keyed.keys]
  refine ⟨thingsClient, getThings, hsets, ?_, ?_⟩
  · let g : Grant := ⟨[("X-Api-Key", "k")], []⟩
    let g' : Grant := ⟨[("X-Api-Key", "j")], []⟩
    have hnames : g.SameNames g' := ⟨rfl, rfl⟩
    refine ⟨g, g', hnames, rfl, by decide, fun heq => ?_⟩
    have hkey := ((previewLines_eq_iff hnames).1 heq).1 "X-Api-Key" (by decide +kernel)
    exact absurd hkey (by decide)
  · let g : Grant := ⟨[], [("sig", "s")]⟩
    let g' : Grant := ⟨[], [("sig", "r")]⟩
    have hnames : g.SameNames g' := ⟨rfl, rfl⟩
    refine ⟨g, g', hnames, rfl, fun heq => ?_⟩
    have hsig := ((previewLines_eq_iff hnames).1 heq).2 "sig" (hsets "sig")
    exact absurd hsig (by decide)

end Client

end Restline
