import Restline.Proofs.Identifier
import Restline.Proofs.Reading
import Restline.Proofs.Template

/-!
Paths from identifiers. The path is the identifier itself, and for POST the identifier followed by the
last segment of the template, which is taken as it stands there: so the path fits the template in full,
and where that segment is a placeholder the placeholder is sent.

* `Http.action` : the last segment of a template.
* `Operation.segments_of_pathOfId` : the segments of a path for POST.
* `Operation.fits_of_request_id` : **the path from an identifier fits the template in full**.
* `Operation.request_post_fills_iff` : **when the placeholders of a POST template are filled**.
-/

set_option autoImplicit false

namespace Restline

theorem Text.segments_append_slash (s t : String) :
    Text.segments '/' (s ++ "/" ++ t) = Text.segments '/' s ++ Text.segments '/' t :=
  Text.segments_append (by simp)

/-- The last segment of the template, which for POST is the action. -/
def Http.action (h : Http) : String := Text.lastSegment '/' (Text.withoutTrailing '/' h.path)

namespace Operation

/-! ### Paths for POST -/

/-- The segments of a template are those that an identifier is compared with, the action, and empty
ones. -/
theorem segments_template_post {h : Http} (hm : h.request.method = "POST") :
    ∃ k, Text.segments '/' h.path =
      ResourceId.countedSegments h.path (some h.request.method) ++ h.action :: List.replicate k "" := by
  obtain ⟨k, hk⟩ := Text.segments_eq_append_replicate '/' h.path
  refine ⟨k, ?_⟩
  rw [hk, ResourceId.countedSegments, hm, if_pos ResourceId.endsInAction_post, Http.action,
    ← Text.dropLast_append_lastSegment '/' (Text.withoutTrailing '/' h.path),
    List.dropLast_concat, List.append_assoc, List.singleton_append]

/-- The action of a template that an identifier fits is not empty. -/
theorem action_ne_empty {h : Http} (hm : h.request.method = "POST") {r : ResourceId}
    (hfits : List.Forall₂ ResourceId.SegmentFits
      (ResourceId.countedSegments h.path (some h.request.method)) (Text.segments '/' r.text)) :
    h.action ≠ "" := by
  refine Text.lastSegment_withoutTrailing_ne fun hempty => ?_
  -- a template of slashes only has no segment but the action, and the identifier has one
  rw [ResourceId.countedSegments, hm, if_pos ResourceId.endsInAction_post, hempty,
    Text.segments_of_notMem (by simp)] at hfits
  exact Text.segments_ne_nil '/' r.text (List.forall₂_nil_left_iff.1 hfits)

/-- The path for POST has the segments of the identifier and the action. -/
theorem segments_of_pathOfId {h : Http} (hm : h.request.method = "POST") {r : ResourceId}
    {path : String} (hpath : pathOfId h r = .ok path) :
    Text.segments '/' path = Text.segments '/' r.text ++ [h.action] := by
  obtain ⟨-, rfl⟩ := pathOfId_eq_ok_iff.1 hpath
  have hslash : '/' ∉ h.action.toList := by
    refine Text.notMem_of_mem_segments (s := Text.withoutTrailing '/' h.path) ?_
    rw [← Text.dropLast_append_lastSegment]
    exact List.mem_append_right _ (List.mem_singleton_self _)
  rw [if_pos hm, Text.segments_append_slash, ← Http.action, Text.segments_of_notMem hslash]

/-! ### Paths that fit -/

/-- The path for POST has no slash at its end. -/
theorem ofText_of_pathOfId {h : Http} (hm : h.request.method = "POST") {r : ResourceId}
    {path : String} (hpath : pathOfId h r = .ok path) : (ResourceId.ofText path).text = path := by
  obtain ⟨hcheck, -⟩ := pathOfId_eq_ok_iff.1 hpath
  have haction := action_ne_empty hm (ResourceId.check_eq_ok_iff.1 hcheck)
  change Text.withoutTrailing '/' path = path
  refine Text.withoutTrailing_of_lastSegment_ne ?_
  rw [Text.lastSegment, segments_of_pathOfId hm hpath, List.getLast?_concat, Option.getD_some]
  exact haction

/-- The path from an identifier fits the template with its action. -/
theorem check_of_pathOfId {h : Http} (hmethod : ∃ m, h.request.method = Text.upper m) {s path : String}
    (hpath : pathOfId h (.ofText s) = .ok path) :
    (ResourceId.ofText path).check h.path none = .ok () := by
  obtain ⟨hcheck, hpath'⟩ := pathOfId_eq_ok_iff.1 hpath
  by_cases hm : h.request.method = "POST"
  · obtain ⟨k, hk⟩ := segments_template_post hm
    have hfits := ResourceId.check_eq_ok_iff.1 hcheck
    rw [ResourceId.check_eq_ok_iff, ofText_of_pathOfId hm hpath, segments_of_pathOfId hm hpath]
    have hall : ResourceId.countedSegments h.path none =
        ResourceId.countedSegments h.path (some h.request.method) ++ [h.action] := by
      rw [ResourceId.countedSegments, ResourceId.countedSegments, hm,
        if_pos ResourceId.endsInAction_post, Http.action, Text.dropLast_append_lastSegment]
      rfl
    rw [hall]
    exact List.rel_append hfits (.cons (.inr rfl) .nil)
  · rw [if_neg hm] at hpath'
    have hcounted : ResourceId.countedSegments h.path (some h.request.method) =
        ResourceId.countedSegments h.path none := by
      rw [ResourceId.countedSegments,
        if_neg fun hend => hm ((ResourceId.endsInAction_iff hmethod).1 hend)]
      rfl
    rw [← hpath', ResourceId.ofText_text_ofText, ResourceId.check_eq_ok_iff, ← hcounted]
    exact ResourceId.check_eq_ok_iff.1 hcheck

/-- **The path from an identifier fits the template in full**, and but for POST it is the identifier. -/
theorem fits_of_request_id {j : Json} {o : Operation} (hj : Operation.ofJson j = .valid o) {s : String}
    {b : Bound} {given : Option Json} {version : Option String} {q : ReadyRequest}
    (hq : o.request b (some (.ofText s)) given version = .ok q) :
    ∃ h, o.http = some h ∧ (ResourceId.ofText q.path).fits h.path none = true ∧
      (h.request.method ≠ "POST" → q.path = Text.withoutTrailing '/' s) := by
  obtain ⟨h, path, body, hh, hpath, -, rfl⟩ := request_eq_ok_iff.1 hq
  refine ⟨h, hh, ?_, fun hm => ?_⟩
  · rw [ResourceId.fits_iff]
    exact check_of_pathOfId (method_of_ofJson hj hh) hpath
  · obtain ⟨-, hpath⟩ := pathOfId_eq_ok_iff.1 hpath
    rw [if_neg hm] at hpath
    exact hpath.symm

/-- A POST operation on a thing, with its template. -/
def postOperation (template : String) : Operation := operationOf "POST" template [("name", "$name")]

theorem request_postOperation (template id path : String) (b : Bound)
    (hfits : (ResourceId.ofText id).fits template (some "POST") = true)
    (hpath : (ResourceId.ofText id).text ++ "/" ++
      Text.lastSegment '/' (Text.withoutTrailing '/' template) = path) :
    (postOperation template).request b (some (.ofText id)) none none =
      .ok ⟨"POST", path, [], none⟩ :=
  request_operationOf (pathOfId_eq_ok_iff.2 ⟨ResourceId.fits_iff.1 hfits, hpath⟩)

/-- Neither letter case nor slashes at the end keep the path from fitting. -/
theorem fits_of_request_id_start :
    ∃ h q, (postOperation "/things/\x7bname\x7d/start/").http = some h ∧
      (postOperation "/things/\x7bname\x7d/start/").request [] (some (.ofText "/THINGS/x//")) none none =
        .ok q ∧
      q.path = "/THINGS/x/start" ∧ (ResourceId.ofText q.path).fits h.path none = true := by
  have hq := request_postOperation "/things/\x7bname\x7d/start/" "/THINGS/x//" "/THINGS/x/start" []
    (by decide +kernel) (by decide +kernel)
  obtain ⟨h, hh, hfits, -⟩ :=
    fits_of_request_id (j := documentOf "post" "/things/\x7bname\x7d/start/" [("name", "$name")]) (by rfl) hq
  exact ⟨h, _, hh, hq, rfl, hfits⟩

/-! ### Placeholders of a POST template -/

/-- The text is that of a value bound to a placeholder of the name. -/
def GivesText (h : Http) (b : Bound) (name text : String) : Prop :=
  ∃ p ∈ h.request.pathParams, p.name = name ∧ ∃ v, b.get? p.arg = some v ∧ v.toText = text

/-- Where a segment of the template is a placeholder, the segment of the path is a segment of the
identifier or the text of a value bound to the placeholder. -/
def FillsPlaceholders (h : Http) (b : Bound) (r : ResourceId) (path : String) : Prop :=
  ∀ (i : Nat) (name s : String), Text.IsPlain name →
    (Text.segments '/' h.path)[i]? = some (placeholder name) →
    (Text.segments '/' path)[i]? = some s →
    s ∈ Text.segments '/' r.text ∨ GivesText h b name s

/-- No segment of the path is a placeholder among the segments of the template. -/
def LeavesNoPlaceholder (h : Http) (path : String) : Prop :=
  ∀ name, Text.IsPlain name → placeholder name ∈ Text.segments '/' h.path →
    placeholder name ∉ Text.segments '/' path

/-- The action stands at the same place in the path and in the template, behind the segments of the
identifier. -/
theorem getElem?_action {h : Http} (hm : h.request.method = "POST") {r : ResourceId} {path : String}
    (hpath : pathOfId h r = .ok path) :
    (Text.segments '/' path)[(Text.segments '/' r.text).length]? = some h.action ∧
      (Text.segments '/' h.path)[(Text.segments '/' r.text).length]? = some h.action := by
  obtain ⟨hcheck, -⟩ := pathOfId_eq_ok_iff.1 hpath
  have hlength := (ResourceId.check_eq_ok_iff.1 hcheck).length_eq
  obtain ⟨k, hk⟩ := segments_template_post hm
  constructor
  · rw [segments_of_pathOfId hm hpath, List.getElem?_concat_length]
  · rw [hk, ← hlength, List.getElem?_append_right (le_refl _), Nat.sub_self, List.getElem?_cons_zero]

/-- A segment of a path for POST is one of the identifier, or the action at its place. -/
theorem segment_of_pathOfId {h : Http} (hm : h.request.method = "POST") {r : ResourceId}
    {path : String} (hpath : pathOfId h r = .ok path) {i : Nat} {s : String}
    (hs : (Text.segments '/' path)[i]? = some s) :
    s ∈ Text.segments '/' r.text ∨ i = (Text.segments '/' r.text).length := by
  rw [segments_of_pathOfId hm hpath] at hs
  rcases Nat.lt_or_ge i (Text.segments '/' r.text).length with hi | hi
  · rw [List.getElem?_append_left hi] at hs
    exact .inl (List.mem_of_getElem? hs)
  · have hlast := (List.getElem?_eq_some_iff.1 hs).1
    rw [List.length_append, List.length_singleton] at hlast
    exact .inr (by omega)

/-- **When the placeholders of a POST template are filled**: exactly when the last segment of the template
is no placeholder, or by chance stands in the identifier or is the text bound to it. If the identifier
has no braces, no placeholder is left exactly when the last segment of the template is none. -/
theorem request_post_fills_iff {o : Operation} {h : Http} (hh : o.http = some h)
    (hm : h.request.method = "POST") {b : Bound} {r : ResourceId} {given : Option Json}
    {version : Option String} {q : ReadyRequest}
    (hq : o.request b (some r) given version = .ok q) :
    (FillsPlaceholders h b r q.path ↔
        ∀ name, Text.IsPlain name → h.action = placeholder name →
          placeholder name ∈ Text.segments '/' r.text ∨ GivesText h b name (placeholder name)) ∧
      ((∀ s ∈ Text.segments '/' r.text, Text.IsPlain s) →
        (LeavesNoPlaceholder h q.path ↔
          ∀ name, Text.IsPlain name → h.action ≠ placeholder name)) := by
  obtain ⟨h', path, body, hh', hpath, -, rfl⟩ := request_eq_ok_iff.1 hq
  obtain rfl := Option.some_inj.1 (hh.symm.trans hh')
  obtain ⟨hinPath, hinTemplate⟩ := getElem?_action hm hpath
  refine ⟨⟨fun hfills name hplain hname => ?_, fun hall i name s hplain ht hs => ?_⟩,
    fun hid => ⟨fun hleaves name hplain hname => ?_, fun hall name hplain _ hmem => ?_⟩⟩
  · rw [hname] at hinPath hinTemplate
    exact hfills _ name _ hplain hinTemplate hinPath
  · rcases segment_of_pathOfId hm hpath hs with hmem | rfl
    · exact .inl hmem
    · -- here the template and the path both have the action
      have hname : h.action = placeholder name := Option.some_inj.1 (hinTemplate.symm.trans ht)
      obtain rfl : h.action = s := Option.some_inj.1 (hinPath.symm.trans hs)
      rw [hname]
      exact hall name hplain hname
  · rw [hname] at hinPath hinTemplate
    exact hleaves name hplain (List.mem_of_getElem? hinTemplate) (List.mem_of_getElem? hinPath)
  · rw [segments_of_pathOfId hm hpath] at hmem
    rcases List.mem_append.1 hmem with hmem | hmem
    · exact not_isPlain_placeholder name (hid _ hmem)
    · exact hall name hplain (List.mem_singleton.1 hmem).symm

/-- With a plain action, the placeholder is filled by the identifier and none is left. -/
theorem request_post_fills_start :
    ∃ h q, (postOperation "/things/\x7bname\x7d/start").http = some h ∧
      (postOperation "/things/\x7bname\x7d/start").request [] (some (.ofText "/things/x")) none none =
        .ok q ∧
      FillsPlaceholders h [] (.ofText "/things/x") q.path ∧ LeavesNoPlaceholder h q.path := by
  have hq := request_postOperation "/things/\x7bname\x7d/start" "/things/x" "/things/x/start" []
    (by decide +kernel) (by decide +kernel)
  have haction : ∀ name : String, "start" ≠ placeholder name := by
    intro name hname
    exact not_isPlain_placeholder name (hname ▸ by decide)
  obtain ⟨hfills, hleaves⟩ := request_post_fills_iff rfl rfl hq
  refine ⟨_, _, rfl, hq, hfills.2 fun name _ hname => absurd hname (haction name),
    (hleaves ?_).2 fun name _ => haction name⟩
  decide +kernel

/-- With a placeholder for the action, the placeholder is sent although a value is bound to it. -/
theorem exists_request_post_not_fills :
    ∃ j o h b r q, Operation.ofJson j = .valid o ∧ o.http = some h ∧ h.request.method = "POST" ∧
      o.request b (some r) none none = .ok q ∧ (∀ s ∈ Text.segments '/' r.text, Text.IsPlain s) ∧
      ¬ FillsPlaceholders h b r q.path ∧ ¬ LeavesNoPlaceholder h q.path := by
  refine ⟨documentOf "post" "/things/\x7bname\x7d" [("name", "$name")], postOperation "/things/\x7bname\x7d", _,
    [("$name", .text "x")], .ofText "/things", ⟨"POST", "/things/\x7bname\x7d", [], none⟩, by rfl, rfl,
    rfl, request_postOperation _ _ _ _ (by decide +kernel) (by decide +kernel), by decide +kernel,
    fun hfills => ?_, fun hleaves => ?_⟩
  · rcases hfills 2 "name" (placeholder "name") (by decide) (by decide +kernel) (by decide +kernel) with
      hmem | ⟨p, hp, -, v, hv, htext⟩
    · exact absurd hmem (by decide +kernel)
    · obtain rfl := List.mem_singleton.1 hp
      obtain rfl : Value.text "x" = v := Option.some_inj.1 hv
      exact absurd htext (by decide)
  · exact hleaves "name" (by decide) (by decide +kernel) (by decide +kernel)

end Operation

end Restline
