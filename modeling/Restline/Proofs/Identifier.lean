import Mathlib.Data.List.Forall2
import Restline.ResourceId
import Restline.Proofs.UpperCase

/-!
Identifiers and the templates they fit. An identifier fits a template segment by segment, up to letter
case and but for placeholders.

* `ResourceId.ofText_text_ofText` : the text of an identifier stands for the identifier.
* `ResourceId.SegmentFits`, `ResourceId.countedSegments` : what is compared.
* `ResourceId.check_eq_ok_iff` : **fitting a template is fitting it segment by segment**.
* `ResourceId.endsInAction_iff` : only templates for POST end in an action.
-/

set_option autoImplicit false

namespace Restline

namespace ResourceId

/-- The text of an identifier stands for the identifier. -/
theorem ofText_text_ofText (s : String) : ofText (ofText s).text = ofText s := by
  simp only [ofText, Text.withoutTrailing_idem]

theorem fits_iff {r : ResourceId} {template : String} {method : Option String} :
    r.fits template method = true ↔ r.check template method = .ok () := by
  rw [fits]
  cases r.check template method with
  | error e => simp [Except.isOk, Except.toBool]
  | ok u => simp [Except.isOk, Except.toBool]

/-! ### Segment by segment -/

/-- A segment of an identifier fits a segment of a template: the latter is a placeholder, or both are
equal up to letter case. -/
def SegmentFits (t s : String) : Prop :=
  isPlaceholder (Text.upper t) = true ∨ Text.upper t = Text.upper s

/-- The segments of a template that count for the method. -/
def countedSegments (template : String) (method : Option String) : List String :=
  let all := Text.segments '/' (Text.withoutTrailing '/' template)
  if endsInAction method then all.dropLast else all

theorem templateSegments_eq (template : String) (method : Option String) :
    templateSegments template method = (countedSegments template method).map Text.upper := by
  rw [templateSegments, countedSegments, Text.segments_upper]
  cases endsInAction method with
  | true => exact List.map_dropLast.symm
  | false => rfl

theorem firstMismatch_eq_none_iff {es gs : List String} (h : gs.length = es.length) :
    firstMismatch es gs = none ↔ List.Forall₂ (fun e g => isPlaceholder e = true ∨ e = g) es gs := by
  induction es generalizing gs with
  | nil =>
      obtain rfl := List.length_eq_zero_iff.1 h
      exact iff_of_true rfl .nil
  | cons e es ih =>
      cases gs with
      | nil => cases h
      | cons g gs =>
          rw [List.forall₂_cons, ← ih (Nat.succ.inj h), firstMismatch]
          by_cases hp : isPlaceholder e = true
          · simp [hp]
          · by_cases he : e = g <;> simp [hp, he]

/-- **Fitting a template is fitting it segment by segment.** -/
theorem check_eq_ok_iff {r : ResourceId} {template : String} {method : Option String} :
    r.check template method = .ok () ↔
      List.Forall₂ SegmentFits (countedSegments template method) (Text.segments '/' r.text) := by
  have hfits : List.Forall₂ SegmentFits (countedSegments template method)
      (Text.segments '/' r.text) ↔
      List.Forall₂ (fun e g => isPlaceholder e = true ∨ e = g) (templateSegments template method)
        r.segments := by
    rw [templateSegments_eq, segments, Text.segments_upper, List.forall₂_map_left_iff,
      List.forall₂_map_right_iff]
    rfl
  rw [hfits, check]
  by_cases hlength : r.segments.length = (templateSegments template method).length
  · rw [← firstMismatch_eq_none_iff hlength]
    simp only [hlength, ne_eq, not_true_eq_false, if_false]
    cases firstMismatch (templateSegments template method) r.segments <;> simp
  · simp only [hlength, ne_eq, not_false_eq_true, if_true]
    exact iff_of_false (by simp) fun h => hlength h.length_eq.symm

/-! ### Actions -/

theorem endsInAction_post : endsInAction (some "POST") = true := by
  decide +kernel

/-- For a method in upper case, only POST has templates that end in an action. -/
theorem endsInAction_iff {method : String} (h : ∃ m, method = Text.upper m) :
    endsInAction (some method) = true ↔ method = "POST" := by
  constructor
  · intro hpost
    have heq : Text.upper method = "POST" := by simpa [endsInAction] using hpost
    obtain ⟨m, rfl⟩ := h
    rw [← heq]
    refine (Text.upper_upper_of_ascii ?_).symm
    rw [heq]
    decide
  · rintro rfl
    exact endsInAction_post

end ResourceId

end Restline
