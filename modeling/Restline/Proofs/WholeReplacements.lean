import Restline.Proofs.KeptFiles

/-!
Replacements that are whole. Whichever steps of a replacement fail, the target has its old contents or the new ones,
and no file but the target and the temporary one is changed. The temporary file is gone in the end, unless a step
fails while it is open and it cannot be closed then, as on a full disk, or it cannot be removed: nothing removes it
after that.

* `Replacement.course`, `Replacement.failed?` : the steps in their order, and the first of them that fails.
* `Replacement.Leaves` : the choices of failing steps for which the temporary file is left.
* `Replacement.run_cases` : **what a replacement comes to**.
* `Replacement.IsWhole`, `Replacement.run_isWhole_iff` : **when it is whole**.
-/

set_option autoImplicit false

namespace Restline

namespace Replacement

/-! ### Steps that fail -/

/-- The steps that lead to the new contents, in their order. -/
def course : List Step := [.create, .write, .flush, .sync, .close, .rename]

/-- The first of these steps that fails. -/
def failed? (fails : Step → Bool) : Option Step := course.find? fails

/-- When the step fails, the temporary file is open. -/
def Step.leavesOpen : Step → Bool
  | .write | .flush | .sync => true
  | _ => false

/-- The temporary file is left: it was made, a later step fails, and then it cannot be closed or not be removed. -/
def Leaves (fails : Step → Bool) : Prop :=
  ∃ step, failed? fails = some step ∧ step ≠ .create ∧
    (step.leavesOpen = true ∧ fails .closeAfterFailure = true ∨ fails .remove = true)

variable {fails : Step → Bool} {target temp : Spot} {data : ByteArray} {t : Tree}

/-- Without a failure, what was written is renamed. -/
theorem run_of_failed?_none (hfree : t.entry? temp = none) (h : failed? fails = none) :
    run fails target temp data t = (.replaced, t.put target (.file data)) := by
  simp only [failed?, course, List.find?_eq_none, List.mem_cons, List.not_mem_nil, or_false, forall_eq_or_imp,
    forall_eq, Bool.not_eq_true] at h
  simp [run, h, Tree.erase_put_of_free hfree]

/-- Where nothing can be made, nothing is. -/
theorem run_of_create (h : fails .create = true) : run fails target temp data t = (.failed .create, t) := by
  rw [run, if_pos h]

/-- A later step that fails leaves a temporary file to be looked after. -/
theorem exists_cleanUp_of_failed?_some (target temp : Spot) (data : ByteArray) (t : Tree) {step : Step}
    (h : failed? fails = some step) (hmade : step ≠ .create) :
    ∃ bytes, run fails target temp data t =
      cleanUp fails temp (t.put temp (.file bytes)) step.leavesOpen step := by
  simp only [failed?, course, List.find?_cons_eq_some, List.find?_nil] at h
  cases step with
  | create => exact absurd rfl hmade
  | write =>
      simp at h
      exact ⟨ByteArray.empty, by simp [run, h, Step.leavesOpen]⟩
  | flush =>
      simp at h
      exact ⟨ByteArray.empty, by simp [run, h, Step.leavesOpen]⟩
  | sync =>
      simp at h
      exact ⟨data, by simp [run, h, Step.leavesOpen]⟩
  | close =>
      simp at h
      exact ⟨data, by simp [run, h, Step.leavesOpen]⟩
  | rename =>
      simp at h
      exact ⟨data, by simp [run, h, Step.leavesOpen]⟩
  | closeAfterFailure => simp at h
  | remove => simp at h

/-- Looking after a temporary file takes it away again, or leaves it where it cannot be closed or not be removed. -/
theorem cleanUp_cases (fails : Step → Bool) (hfree : t.entry? temp = none) (bytes : ByteArray) (isOpen : Bool)
    (step : Step) :
    let stuck := isOpen = true ∧ fails .closeAfterFailure = true ∨ fails .remove = true
    (¬ stuck ∧ cleanUp fails temp (t.put temp (.file bytes)) isOpen step = (.failed step, t)) ∨
      stuck ∧ ∃ step', cleanUp fails temp (t.put temp (.file bytes)) isOpen step =
        (.failed step', t.put temp (.file bytes)) := by
  intro stuck
  rw [cleanUp]
  by_cases hclose : (isOpen && fails .closeAfterFailure) = true
  · rw [if_pos hclose]
    exact .inr ⟨.inl (Bool.and_eq_true_iff.1 hclose), _, rfl⟩
  · rw [if_neg hclose]
    by_cases hremove : fails .remove = true
    · rw [if_pos hremove]
      exact .inr ⟨.inr hremove, _, rfl⟩
    · rw [if_neg hremove, Tree.erase_put_of_free hfree]
      refine .inl ⟨?_, rfl⟩
      rintro (hboth | hremove')
      · exact hclose (Bool.and_eq_true_iff.2 hboth)
      · exact hremove hremove'

/-! ### What is left -/

/-- **What a replacement comes to**: the target has the new contents, or nothing has changed, or the temporary file
is left and nothing else has changed. -/
theorem run_cases (fails : Step → Bool) (target : Spot) (data : ByteArray) (hfree : t.entry? temp = none) :
    (failed? fails = none ∧ run fails target temp data t = (.replaced, t.put target (.file data))) ∨
      (∃ step, failed? fails = some step ∧ ¬ Leaves fails ∧ run fails target temp data t = (.failed step, t)) ∨
      Leaves fails ∧ ∃ step bytes, run fails target temp data t = (.failed step, t.put temp (.file bytes)) := by
  cases hfailed : failed? fails with
  | none => exact .inl ⟨rfl, run_of_failed?_none hfree hfailed⟩
  | some step =>
      refine .inr ?_
      by_cases hmade : step = .create
      · -- there is nothing to be left
        have hcreate : fails .create = true := by
          rw [← hmade]
          exact List.find?_some hfailed
        refine .inl ⟨step, rfl, ?_, by rw [run_of_create hcreate, hmade]⟩
        rintro ⟨step', hfailed', hmade', -⟩
        exact hmade' ((Option.some_inj.1 (hfailed'.symm.trans hfailed)).trans hmade)
      · obtain ⟨bytes, hrun⟩ := exists_cleanUp_of_failed?_some target temp data t hfailed hmade
        rcases cleanUp_cases fails hfree bytes step.leavesOpen step with
          ⟨hfree', hend⟩ | ⟨hstuck, step', hend⟩
        · refine .inl ⟨step, rfl, ?_, hrun.trans hend⟩
          rintro ⟨step', hfailed', -, hstuck⟩
          obtain rfl := Option.some_inj.1 (hfailed'.symm.trans hfailed)
          exact hfree' hstuck
        · exact .inr ⟨⟨step, hfailed, hmade, hstuck⟩, step', bytes, hrun.trans hend⟩

/-- A replacement is whole: it succeeded, and the target has the new contents, or it failed, and nothing stands
anywhere that did not stand there before; in both cases nothing else has changed. -/
def IsWhole (target : Spot) (data : ByteArray) (t : Tree) (r : Outcome × Tree) : Prop :=
  (r.1 = .replaced ∧ ∀ s, Tree.entry? r.2 s = if s = target then some (.file data) else t.entry? s) ∨
    (∃ step, r.1 = .failed step) ∧ ∀ s, Tree.entry? r.2 s = t.entry? s

/-- **When a replacement is whole**: where a temporary file is not left. Whatever fails, every other place is as
before, but for a target that was replaced. -/
theorem run_isWhole_iff (fails : Step → Bool) (target : Spot) (data : ByteArray) (hfree : t.entry? temp = none)
    (hdirectory : t.isDirAt target = true → fails .rename = true) :
    let r := run fails target temp data t
    (IsWhole target data t r ↔ ¬ Leaves fails) ∧
      ∀ s, s ≠ temp →
        Tree.entry? r.2 s = if r.1 = .replaced ∧ s = target then some (.file data) else t.entry? s := by
  intro r
  rcases run_cases fails target data hfree with ⟨hnone, hr⟩ | ⟨step, -, hnot, hr⟩ | ⟨hleaves, step, bytes, hr⟩
  · -- the root cannot be replaced
    have htarget : target ≠ [] := by
      rintro rfl
      have hrename := List.find?_eq_none.1 hnone .rename (by decide)
      exact hrename (hdirectory rfl)
    have hput := Tree.entry?_put t htarget (.file data)
    have hnot : ¬ Leaves fails := by
      rintro ⟨step, hstep, -⟩
      cases hstep.symm.trans hnone
    have hdone : r.1 = .replaced := by rw [show r = _ from hr]
    have hentry : ∀ s, Tree.entry? r.2 s = if s = target then some (.file data) else t.entry? s := fun s => by
      rw [show r = _ from hr, hput]
    exact ⟨iff_of_true (.inl ⟨hdone, hentry⟩) hnot, fun s _ => by simp [hentry, hdone]⟩
  · have hstop : r.1 = .failed step := by rw [show r = _ from hr]
    have hentry : ∀ s, Tree.entry? r.2 s = t.entry? s := fun s => by rw [show r = _ from hr]
    exact ⟨iff_of_true (.inr ⟨⟨step, hstop⟩, hentry⟩) hnot, fun s _ => by simp [hentry, hstop]⟩
  · have hstop : r.1 = .failed step := by rw [show r = _ from hr]
    have hentry : ∀ s, Tree.entry? r.2 s = if s = temp then some (.file bytes) else t.entry? s := fun s => by
      rw [show r = _ from hr, Tree.entry?_put t (Tree.ne_nil_of_entry?_eq_none hfree)]
    refine ⟨iff_of_false ?_ (not_not_intro hleaves), fun s hs => by simp [hentry, hstop, hs]⟩
    rintro (⟨hdone, -⟩ | ⟨-, hsame⟩)
    · cases hdone.symm.trans hstop
    · have htemp := hsame temp
      rw [hentry, if_pos rfl, hfree] at htemp
      cases htemp

/-- The tree with one file. -/
def settledTree : Tree := ⟨[(["config.json"], .file "old".toUTF8)]⟩

/-- Where only the renaming fails, the file is as before and nothing is left. -/
theorem run_isWhole_of_rename :
    settledTree.entry? [".config.json.0.tmp"] = none ∧ settledTree.isDirAt ["config.json"] = false ∧
      IsWhole ["config.json"] "new".toUTF8 settledTree
        (run (fun step => step = .rename) ["config.json"] [".config.json.0.tmp"] "new".toUTF8 settledTree) := by
  have hfree : settledTree.entry? [".config.json.0.tmp"] = none := by rfl
  have hfile : settledTree.isDirAt ["config.json"] = false := by rfl
  have hnot : ¬ Leaves fun step => step = .rename := by
    rintro ⟨step, hstep, -, ⟨-, hclose⟩ | hremove⟩
    · cases hclose
    · cases hremove
  refine ⟨hfree, hfile, ((run_isWhole_iff _ _ "new".toUTF8 hfree fun _ => ?_).1).2 hnot⟩
  rfl

/-- On a full disk neither flushing nor the flushing that closing tries again succeeds: the temporary file is
left. -/
theorem exists_run_not_isWhole :
    ∃ (fails : Step → Bool) (target temp : Spot) (data : ByteArray) (t : Tree), t.entry? temp = none ∧
      t.isDirAt target = false ∧ fails .remove = false ∧ ¬ IsWhole target data t (run fails target temp data t) := by
  let fails : Step → Bool := fun step => step = .flush ∨ step = .closeAfterFailure
  refine ⟨fails, ["config.json"], [".config.json.0.tmp"], "new".toUTF8, settledTree, rfl, rfl, rfl, ?_⟩
  rintro (⟨hdone, -⟩ | ⟨-, hsame⟩)
  · cases hdone
  · cases hsame [".config.json.0.tmp"]

end Replacement

end Restline
