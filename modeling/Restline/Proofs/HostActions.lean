import Restline.Host
import Restline.Proofs.Results

/-!
Actions on a host, carried out. An action gives a result or a failure and leaves a host behind; in a
sequence, a failure ends it with the host as it is then.

* `apply_bind`, `apply_bind_cases` : one part of a run after the other.
* `Act.exec`, `Act.exec_bind` : an action carried out on a host, and one after the other.
* `Host.outcomeAfter`, `Host.afterSending` : the outcomes of requests to come, and the host after a request.
* `Act.exec_transmit` : **a request meets the next outcome, and those behind it move up**.
-/

set_option autoImplicit false

namespace Restline

/-- A failure of any kind ends a sequence, with the host as it is then. -/
theorem apply_bind {ε α β : Type} (x : ExceptT ε (StateM Host) α) (f : α → ExceptT ε (StateM Host) β)
    (h : Host) : (x >>= f) h =
      match x h with
      | (.ok a, h') => f a h'
      | (.error e, h') => (.error e, h') := by
  simp only [bind, ExceptT.bind, ExceptT.mk, StateT.bind, ExceptT.bindCont]
  cases x h with
  | mk r h' => cases r <;> rfl

/-- A sequence goes on from what its first part gives and leaves, or ends where that fails. -/
theorem apply_bind_cases {ε α β : Type} (x : ExceptT ε (StateM Host) α) (f : α → ExceptT ε (StateM Host) β)
    (h : Host) :
    (∃ a, (x h).1 = .ok a ∧ (x >>= f) h = f a (x h).2) ∨
      ∃ e, (x h).1 = .error e ∧ (x >>= f) h = (.error e, (x h).2) := by
  rw [apply_bind]
  cases x h with
  | mk r h' =>
      cases r with
      | ok a => exact .inl ⟨a, rfl, rfl⟩
      | error e => exact .inr ⟨e, rfl, rfl⟩

/-- A first part that succeeds hands on what it gives. -/
theorem apply_bind_of_ok {ε α β : Type} {x : ExceptT ε (StateM Host) α} {f : α → ExceptT ε (StateM Host) β}
    {h k : Host} {a : α} (hx : x h = (.ok a, k)) : (x >>= f) h = f a k :=
  (apply_bind x f h).trans (by simp only [hx])

/-- Where each part of a sequence leaves a host that is related to the one before it, so does the sequence. -/
theorem relates_bind {ε α β : Type} {R : Host → Host → Prop} (htrans : ∀ {h k l}, R h k → R k l → R h l)
    {x : ExceptT ε (StateM Host) α} {f : α → ExceptT ε (StateM Host) β} (hx : ∀ h, R h (x h).2)
    (hf : ∀ a h, R h (f a h).2) (h : Host) : R h ((x >>= f) h).2 := by
  rcases apply_bind_cases x f h with ⟨a, -, hthen⟩ | ⟨e, -, hends⟩
  · rw [hthen]
    exact htrans (hx h) (hf a _)
  · rw [hends]
    exact hx h

namespace Act

variable {α β : Type}

/-- The outcome of an action on a host, and the host then. -/
def exec (x : Act α) (h : Host) : Except Fault α × Host := x h

/-! ### One action after the other -/

@[simp] theorem exec_pure (a : α) (h : Host) : exec (pure a) h = (.ok a, h) := rfl

@[simp] theorem exec_throw (e : Fault) (h : Host) : exec (throw e : Act α) h = (.error e, h) := rfl

@[simp] theorem exec_of (x : Except Fault α) (h : Host) : exec (of x) h = (x, h) := rfl

@[simp] theorem exec_print (text : String) (h : Host) :
    exec (print text) h = (.ok (), { h with out := h.out ++ text ++ "\n" }) := rfl

@[simp] theorem exec_report (text : String) (h : Host) :
    exec (report text) h = (.ok (), { h with err := h.err ++ text ++ "\n" }) := rfl

@[simp] theorem exec_pause (seconds : Nat) (h : Host) :
    exec (pause seconds) h = (.ok (), { h with pauses := h.pauses ++ [seconds] }) := rfl

@[simp] theorem exec_get (h : Host) : exec (get : Act Host) h = (.ok h, h) := rfl

@[simp] theorem exec_ask (f : Host → Except Fault α) (h : Host) : exec (ask f) h = (f h, h) := rfl

theorem exec_changeFiles (f : Host → Option FileFault × Tree) (h : Host) :
    exec (changeFiles f) h =
      (match (f h).1 with
        | none => .ok ()
        | some e => .error (.ofCrash e.crash), { h with files := (f h).2 }) := rfl

theorem exec_writeText (p : Path) (text : String) (h : Host) :
    exec (writeText p text) h =
      match h.files.write h.workDir p text.toUTF8 with
      | .ok files => (.ok (), { h with files := files })
      | .error e => (.error (.ofCrash e.crash), h) := by
  rw [writeText, tryFiles, exec_changeFiles]
  cases h.files.write h.workDir p text.toUTF8 <;> rfl

/-- A failed action ends a sequence, with the host as it is then. -/
theorem exec_bind (x : Act α) (f : α → Act β) (h : Host) :
    exec (x >>= f) h =
      match exec x h with
      | (.ok a, h') => exec (f a) h'
      | (.error e, h') => (.error e, h') := by
  rw [exec, apply_bind, exec]
  cases x h with
  | mk r h' => cases r <;> rfl

theorem exec_bind_ok {x : Act α} {h h' : Host} {a : α} (hx : exec x h = (.ok a, h')) (f : α → Act β) :
    exec (x >>= f) h = exec (f a) h' := by
  rw [exec_bind, hx]

/-- A sequence gives what its second part gives on what the first one left. -/
theorem exec_bind_eq_ok_iff {x : Act α} {f : α → Act β} {h h'' : Host} {b : β} :
    exec (x >>= f) h = (.ok b, h'') ↔ ∃ a h', exec x h = (.ok a, h') ∧ exec (f a) h' = (.ok b, h'') := by
  rw [exec_bind]
  cases hx : exec x h with
  | mk r h' =>
      constructor
      · cases r with
        | ok a => exact fun hf => ⟨a, h', rfl, hf⟩
        | error e => exact fun hf => by cases hf
      · rintro ⟨a, k, heq, hf⟩
        cases heq
        exact hf

theorem exec_bind_error {x : Act α} {h h' : Host} {e : Fault} (hx : exec x h = (.error e, h'))
    (f : α → Act β) : exec (x >>= f) h = (.error e, h') := by
  rw [exec_bind, hx]

end Act

/-! ### Requests -/

namespace Host

/-- What becomes of a request after as many others: the last outcome repeats, and without any there is an
empty response. -/
def outcomeAfter (h : Host) (n : Nat) : WebOutcome :=
  (h.outcomes[n]?.or h.outcomes.getLast?).getD Act.emptyReply

/-- The host after a request was sent. -/
def afterSending (h : Host) (q : WebRequest) : Host := (Act.exec (Act.transmit q) h).2

/-- An outcome is one of those that the host has, or the empty response. -/
theorem outcomeAfter_mem (h : Host) (n : Nat) :
    h.outcomeAfter n ∈ h.outcomes ∨ h.outcomeAfter n = Act.emptyReply := by
  rw [outcomeAfter]
  cases hn : h.outcomes[n]? with
  | some o => exact .inl (List.mem_of_getElem? hn)
  | none =>
      cases hlast : h.outcomes.getLast? with
      | some o => exact .inl (List.mem_of_getLast? hlast)
      | none => exact .inr rfl

theorem outcomeAfter_congr {h h' : Host} (heq : h'.outcomes = h.outcomes) (n : Nat) :
    h'.outcomeAfter n = h.outcomeAfter n := by
  rw [outcomeAfter, outcomeAfter, heq]

end Host

/-- **A request meets the next outcome.** -/
theorem Act.exec_transmit (q : WebRequest) (h : Host) :
    exec (transmit q) h = (.ok (h.outcomeAfter 0), h.afterSending q) := by
  have houtcome : (exec (transmit q) h).1 = .ok (h.outcomeAfter 0) := by
    rw [exec, transmit, Host.outcomeAfter]
    cases h.outcomes with
    | nil => rfl
    | cons o rest => cases rest <;> rfl
  exact Prod.ext houtcome rfl

namespace Host

variable (h : Host) (q : WebRequest)

@[simp] theorem sent_afterSending : (h.afterSending q).sent = h.sent ++ [q] := by
  rw [afterSending, Act.exec, Act.transmit]
  cases h.outcomes with
  | nil => rfl
  | cons o rest => cases rest <;> rfl

@[simp] theorem pauses_afterSending : (h.afterSending q).pauses = h.pauses := by
  rw [afterSending, Act.exec, Act.transmit]
  cases h.outcomes with
  | nil => rfl
  | cons o rest => cases rest <;> rfl

/-- **After a request, the outcomes behind its own move up.** -/
theorem outcomeAfter_afterSending (n : Nat) : (h.afterSending q).outcomeAfter n = h.outcomeAfter (n + 1) := by
  cases houtcomes : h.outcomes with
  | nil =>
      have hnone : (h.afterSending q).outcomes = [] := by
        simp only [afterSending, Act.exec, Act.transmit, houtcomes]
      simp [outcomeAfter, hnone, houtcomes]
  | cons o rest =>
      cases rest with
      | nil =>
          -- the last outcome stays
          have hlast : (h.afterSending q).outcomes = [o] := by
            simp only [afterSending, Act.exec, Act.transmit, houtcomes]
          cases n <;> simp [outcomeAfter, hlast, houtcomes]
      | cons o' rest =>
          have hrest : (h.afterSending q).outcomes = o' :: rest := by
            simp only [afterSending, Act.exec, Act.transmit, houtcomes]
          simp [outcomeAfter, hrest, houtcomes]

end Host

end Restline
