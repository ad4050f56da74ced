import Restline.Invocation
import Restline.Proofs.Results

/-!
Runs whose calls and previews are kept. The service is any function of the calls made before, so that
what is shown of such runs holds for every sequence of answers and failures.

* `Trace`, `Recorded`, `Recorded.exec` : what a run leaves behind, actions that do so, and an action
  carried out after a trace.
* `Service.transport`, `Trace.preview` : sending and previewing, recorded.
* `exec_bind` : a failed action ends a sequence, with the trace so far.
* `CallsOnce` : actions of a single call.
* `CallsOnce.exec_mapM`, `exec_mapM_error` : a sequence of actions that succeeds makes a call for each,
  and one that fails is a sequence that succeeds followed by the action that fails.
-/

set_option autoImplicit false

namespace Restline

/-! ### Results without effects -/

section

variable {m : Type → Type} [Monad m] {ε α β : Type}

@[simp] theorem told_ok (report : ε → Fault) (a : α) :
    (told report (.ok a) : ExceptT Fault m α) = pure a := rfl

@[simp] theorem told_pure (report : ε → Fault) (a : α) :
    (told report (pure a) : ExceptT Fault m α) = pure a := rfl

@[simp] theorem told_error (report : ε → Fault) (e : ε) :
    (told report (.error e) : ExceptT Fault m α) = throw (report e) := rfl

/-- A failure can be told before or after. -/
@[simp] theorem told_mapError (report : ε → Fault) (x : Except ε α) :
    (told id (x.mapError report) : ExceptT Fault m α) = told report x := by
  cases x <;> rfl

variable [LawfulMonad m]

/-- Results without effects can be told one after the other. -/
@[simp] theorem told_bind (x : Except Fault α) (f : α → Except Fault β) :
    (told id (x >>= f) : ExceptT Fault m β) = told id x >>= fun a => told id (f a) := by
  cases x with
  | error e =>
      rw [told_error, ExceptT.bind_throw]
      rfl
  | ok a =>
      rw [told_ok, pure_bind]
      rfl

/-- Results without effects, one after the other, are one result without effects. -/
theorem told_mapM (f : α → Except Fault β) (as : List α) :
    (as.mapM (fun a => told id (f a)) : ExceptT Fault m (List β)) = told id (as.mapM f) := by
  induction as with
  | nil => rw [List.mapM_nil, List.mapM_nil, told_pure]
  | cons a as ih => simp only [List.mapM_cons, told_bind, told_pure, ih]

end

/-! ### Traces -/

/-- What a run leaves behind: the calls made and the requests previewed, in order. -/
structure Trace where
  calls : List Call := []
  previews : List ReadyRequest := []

/-- A service, which answers a call by the calls made before. -/
abbrev Service := List Call → Call → Except Fault Reply

/-- Actions that leave a trace. -/
abbrev Recorded (α : Type) := ExceptT Fault (StateM Trace) α

/-- Sending to a service. -/
def Service.transport (v : Service) : Transport (StateM Trace) := fun q t =>
  (v t.calls q, { t with calls := t.calls ++ [q] })

/-- Previewing a request. -/
def Trace.preview (q : ReadyRequest) : Recorded Unit := fun t =>
  (.ok (), { t with previews := t.previews ++ [q] })

namespace Recorded

variable {α β ι : Type}

/-- The outcome of an action after a trace, and the trace then. -/
def exec (x : Recorded α) (t : Trace) : Except Fault α × Trace := x t

/-! ### One action after the other -/

@[simp] theorem exec_pure (a : α) (t : Trace) : exec (pure a) t = (.ok a, t) := rfl

@[simp] theorem exec_throw (e : Fault) (t : Trace) :
    exec (throw e : Recorded α) t = (.error e, t) := rfl

@[simp] theorem exec_told {ε : Type} (report : ε → Fault) (x : Except ε α) (t : Trace) :
    exec (told report x) t = (x.mapError report, t) := rfl

@[simp] theorem exec_preview (q : ReadyRequest) (t : Trace) :
    exec (Trace.preview q) t = (.ok (), { t with previews := t.previews ++ [q] }) := rfl

/-- A failed action ends a sequence, with the trace so far. -/
theorem exec_bind (x : Recorded α) (f : α → Recorded β) (t : Trace) :
    exec (x >>= f) t =
      match exec x t with
      | (.ok a, t') => exec (f a) t'
      | (.error e, t') => (.error e, t') := by
  simp only [exec, bind, ExceptT.bind, ExceptT.mk, StateT.bind, ExceptT.bindCont]
  cases x t with
  | mk r t' => cases r <;> rfl

theorem exec_bind_ok {x : Recorded α} {t t' : Trace} {a : α} (h : exec x t = (.ok a, t'))
    (f : α → Recorded β) : exec (x >>= f) t = exec (f a) t' := by
  rw [exec_bind, h]

theorem exec_bind_error {x : Recorded α} {t t' : Trace} {e : Fault}
    (h : exec x t = (.error e, t')) (f : α → Recorded β) :
    exec (x >>= f) t = (.error e, t') := by
  rw [exec_bind, h]

theorem exec_bind_pure (x : Recorded α) (g : α → β) (t : Trace) :
    exec (x >>= fun a => pure (g a)) t = ((exec x t).1.map g, (exec x t).2) := by
  rw [exec_bind]
  cases exec x t with
  | mk r t' => cases r <;> rfl

/-- A sequence succeeds when its first part does and then its rest. -/
theorem exec_bind_eq_ok_iff {x : Recorded α} {f : α → Recorded β} {t t' : Trace} {b : β} :
    exec (x >>= f) t = (.ok b, t') ↔
      ∃ a mid, exec x t = (.ok a, mid) ∧ exec (f a) mid = (.ok b, t') := by
  rw [exec_bind]
  cases exec x t with
  | mk r mid => cases r <;> simp [and_assoc]

/-- A sequence fails when its first part does, or else its rest. -/
theorem exec_bind_eq_error_iff {x : Recorded α} {f : α → Recorded β} {t t' : Trace} {e : Fault} :
    exec (x >>= f) t = (.error e, t') ↔
      exec x t = (.error e, t') ∨
        ∃ a mid, exec x t = (.ok a, mid) ∧ exec (f a) mid = (.error e, t') := by
  rw [exec_bind]
  cases exec x t with
  | mk r mid => cases r <;> simp [and_assoc]

/-- **A sequence that fails** is a sequence that succeeds, followed by the action that fails; what
would have come later leaves nothing behind. -/
theorem exec_mapM_error {f : ι → Recorded α} {e : Fault} {t' : Trace} :
    ∀ {is : List ι} {t : Trace}, exec (is.mapM f) t = (.error e, t') →
      ∃ done i later as mid, is = done ++ i :: later ∧
        exec (done.mapM f) t = (.ok as, mid) ∧ exec (f i) mid = (.error e, t') := by
  intro is
  induction is with
  | nil => intro t h; simp at h
  | cons i is ih =>
      intro t h
      rw [List.mapM_cons] at h
      rcases exec_bind_eq_error_iff.1 h with hi | ⟨a, mid, hi, hrest⟩
      · exact ⟨[], i, is, [], t, rfl, rfl, hi⟩
      · -- what follows the rest of the sequence only collects the results
        rcases exec_bind_eq_error_iff.1 hrest with hr | ⟨as, mid', -, hpure⟩
        · obtain ⟨done, j, later, as, mid', rfl, hdone, hj⟩ := ih hr
          refine ⟨i :: done, j, later, a :: as, mid', rfl, ?_, hj⟩
          rw [List.mapM_cons, exec_bind_ok hi, exec_bind_ok hdone, exec_pure]
        · simp at hpure

/-! ### Actions of a single call -/

/-- The action makes at most one call, and exactly one if it succeeds. -/
def CallsOnce (x : Recorded α) : Prop :=
  ∀ t, ∃ sent : List Call, (exec x t).2 = { t with calls := t.calls ++ sent } ∧
    sent.length ≤ 1 ∧ ∀ a, (exec x t).1 = .ok a → sent.length = 1

theorem callsOnce_of_error {x : Recorded α} (h : ∀ t, ∃ e, exec x t = (.error e, t)) :
    CallsOnce x := by
  intro t
  obtain ⟨e, he⟩ := h t
  exact ⟨[], by simp [he], by simp, by simp [he]⟩

theorem CallsOnce.told_bind {ε : Type} {report : ε → Fault} {x : Except ε α}
    {f : α → Recorded β} (hf : ∀ a, CallsOnce (f a)) : CallsOnce (told report x >>= f) := by
  cases x with
  | error e => exact callsOnce_of_error fun t => ⟨report e, exec_bind_error rfl f⟩
  | ok a => exact hf a

/-- **A sequence of single calls that succeeds** makes a call for each and has a result for each. -/
theorem CallsOnce.exec_mapM {f : ι → Recorded α} (hf : ∀ i, CallsOnce (f i)) :
    ∀ {is : List ι} {t t' : Trace} {as : List α}, exec (is.mapM f) t = (.ok as, t') →
      as.length = is.length ∧ ∃ sent : List Call, t' = { t with calls := t.calls ++ sent } ∧
        sent.length = is.length := by
  intro is
  induction is with
  | nil =>
      intro t t' as h
      simp only [List.mapM_nil, exec_pure, Prod.mk.injEq, Except.ok.injEq] at h
      obtain ⟨rfl, rfl⟩ := h
      exact ⟨rfl, [], by simp, rfl⟩
  | cons i is ih =>
      intro t t' as h
      rw [List.mapM_cons] at h
      obtain ⟨a, mid, hi, hrest⟩ := exec_bind_eq_ok_iff.1 h
      obtain ⟨as', t'', hr, hpure⟩ := exec_bind_eq_ok_iff.1 hrest
      simp only [exec_pure, Prod.mk.injEq, Except.ok.injEq] at hpure
      obtain ⟨rfl, rfl⟩ := hpure
      obtain ⟨sent, hmid, -, hone⟩ := hf i t
      obtain ⟨hlen, sent', rfl, hsent'⟩ := ih hr
      rw [hi] at hmid hone
      have hsent : sent.length = 1 := hone a rfl
      dsimp only at hmid
      refine ⟨by simp [hlen], sent ++ sent', by simp [hmid], ?_⟩
      rw [List.length_append, List.length_cons]
      omega

/-! ### Sending -/

theorem exec_send_none (o : Operation) (q : ReadyRequest) (t : Trace) :
    exec (send none o q) t = (.error noTransport, t) := rfl

/-- Sending a request makes its call and takes the text of a declared reply. -/
theorem exec_send {o : Operation} {h : Http} (hh : o.http = some h) (v : Service) (q : ReadyRequest)
    (t : Trace) :
    exec (send (some v.transport) o q) t =
      ((v t.calls q.call).bind fun reply =>
          (reply.route h.responses).mapError UndeclaredFault.report,
        { t with calls := t.calls ++ [q.call] }) := by
  simp only [send, hh]
  have hcall : exec (v.transport q.call) t =
      (v t.calls q.call, { t with calls := t.calls ++ [q.call] }) := rfl
  rw [exec_bind, hcall]
  cases v t.calls q.call with
  | error e => rfl
  | ok reply => rfl

theorem callsOnce_send (v : Option Service) (o : Operation) (q : ReadyRequest) :
    CallsOnce (send (v.map Service.transport) o q) := by
  cases v with
  | none => exact callsOnce_of_error fun t => ⟨noTransport, exec_send_none o q t⟩
  | some v =>
      cases hh : o.http with
      | none =>
          refine callsOnce_of_error fun t => ⟨(RequestFault.notCallable o.operationId).report, ?_⟩
          simp only [send, hh, Option.map_some, exec_throw]
      | some h =>
          intro t
          exact ⟨[q.call], by rw [Option.map_some, exec_send hh], by simp, by simp⟩

end Recorded

end Restline
