import Restline.Proofs.IdentifiedPath

/-!
Two ways to a resource. A path can be made from a template and bound values, or from an identifier; where
the segments of the template are plain texts and placeholders, and the texts of the values are words, the
identifier that stands in a path made in the first way leads back to it in the second.

* `Text.IsWord` : texts that can stand for a segment.
* `Operation.IsRegular`, `Operation.identifierIn` : templates of plain segments and placeholders, and the
  identifier in a path.
* `Operation.keepsSegments_of_closed` : words put into such a template move no slash.
* `Operation.request_identifierIn` : **the identifier in a path leads to the same request**.
-/

set_option autoImplicit false

namespace Restline

/-! ### Texts of segments -/

namespace Text

/-- The text can stand for a segment: it is not empty and has no slash and no brace. -/
def IsWord (s : String) : Prop := s ≠ "" ∧ '/' ∉ s.toList ∧ IsPlain s

instance (s : String) : Decidable (IsWord s) := by
  unfold IsWord
  infer_instance

/-- A text begins with a slash, and no segment behind it is empty. -/
def IsRooted (s : String) : Prop :=
  ∃ segs, segments '/' s = "" :: segs ∧ ∀ x ∈ segs, x ≠ ""

/-- A rooted text has no slash at its end, unless it is empty. -/
theorem IsRooted.withoutTrailing_eq {s : String} (h : IsRooted s) : withoutTrailing '/' s = s := by
  obtain ⟨segs, hs, hne⟩ := h
  cases segs using List.reverseRecOn with
  | nil =>
      refine withoutTrailing_eq_self fun hlast => ?_
      have hcount := List.count_pos_iff.2 (List.mem_of_getLast? hlast)
      have hlength := length_segments '/' s
      rw [hs, List.length_singleton] at hlength
      omega
  | append_singleton front x =>
      refine withoutTrailing_of_lastSegment_ne ?_
      rw [lastSegment, hs, ← List.cons_append, List.getLast?_concat, Option.getD_some]
      exact hne x (List.mem_append_right _ (List.mem_singleton_self x))

/-- The text before the last separator, empty if there is none. -/
def withoutLastSegment (c : Char) (s : String) : String :=
  .ofList ([c].intercalate ((segments c s).dropLast.map String.toList))

theorem withoutLastSegment_eq {c : Char} {s t : String} (h : segments c t = (segments c s).dropLast) :
    withoutLastSegment c s = t := by
  rw [withoutLastSegment, ← h, segments, List.map_map]
  have hid : String.toList ∘ String.ofList = id := funext fun _ => String.toList_ofList
  rw [hid, List.map_id, List.intercalate_splitOn, String.ofList_toList]

end Text

namespace Operation

/-! ### Words put into placeholders -/

/-- The segment is a plain text, or the placeholder of a plain name. -/
def IsClosed (s : String) : Prop :=
  Text.IsPlain s ∨ ∃ name, Text.IsPlain name ∧ s = placeholder name

/-- The placeholder of a plain name with a slash does not stand in a text of closed segments. -/
theorem not_infix_of_closed {t name : String} (ht : ∀ s ∈ Text.segments '/' t, IsClosed s)
    (hplain : Text.IsPlain name) (hslash : '/' ∈ name.toList) :
    ¬ (placeholder name).toList <:+: t.toList := by
  rintro ⟨front, back, heq⟩
  obtain ⟨x, y, hname, hx⟩ := List.eq_append_cons_of_mem hslash
  -- the segment that ends at the slash has the opening brace, and no closing one behind it
  have hsplit : t.toList = (String.ofList (front ++ '\x7b' :: x)).toList ++
      '/' :: (String.ofList (y ++ '\x7d' :: back)).toList := by
    rw [← heq, toList_placeholder, hname]
    simp
  have hpart : '/' ∉ '\x7b' :: x := by simpa using hx
  obtain ⟨s, hs, hsuffix⟩ := Text.exists_segment_of_suffix (s := .ofList (front ++ '\x7b' :: x)) hpart
    (by rw [String.toList_ofList]; exact List.suffix_append _ _)
  have hmem : s ∈ Text.segments '/' t := by
    rw [Text.segments_append hsplit]
    exact List.mem_append_left _ hs
  rcases ht s hmem with hs | ⟨m, hm, rfl⟩
  · exact hs.1 (hsuffix.mem List.mem_cons_self)
  · have hclosing : '\x7d' ∉ '\x7b' :: x := by
      have hx' : '\x7d' ∉ x := fun hmem => hplain.2 (by rw [hname]; exact List.mem_append_left _ hmem)
      simpa using hx'
    obtain ⟨rest, hrest⟩ := hsuffix
    have hlast := congrArg List.getLast? hrest
    rw [toList_placeholder, ← List.cons_append, List.getLast?_concat,
      List.getLast?_append_of_ne_nil _ (List.cons_ne_nil _ _)] at hlast
    exact hclosing (List.mem_of_getLast? hlast)

/-- A closed segment stays closed when a word is put in. -/
theorem IsClosed.replaceAll {s text : String} (h : IsClosed s) (htext : Text.IsWord text)
    (name : String) : IsClosed (Text.replaceAll (placeholder name) text s) := by
  rcases h with hplain | ⟨n, hn, rfl⟩
  · rw [Text.replaceAll_of_not_infix (not_infix_of_isPlain hplain name)]
    exact .inl hplain
  · by_cases hname : name = n
    · subst hname
      rw [Text.replaceAll_self (placeholder_ne_empty name)]
      exact .inl htext.2.2
    · rw [replaceAll_placeholder_of_ne hn hname]
      exact .inr ⟨n, hn, rfl⟩

/-- **Words put into a text of closed segments move no slash.** -/
theorem keepsSegments_of_closed {puts : Keyed String}
    (hnames : ∀ e ∈ puts, Text.IsPlain e.1 ∨ '/' ∉ e.1.toList)
    (hwords : ∀ e ∈ puts, Text.IsWord e.2) {t : String}
    (ht : ∀ s ∈ Text.segments '/' t, IsClosed s) : KeepsSegments puts t := by
  induction puts generalizing t with
  | nil => trivial
  | cons e later ih =>
      rw [List.forall_mem_cons] at hnames hwords
      have hstep : Text.contains t (placeholder e.1) = true →
          '/' ∉ e.1.toList ∧ '/' ∉ e.2.toList := by
        intro hc
        refine ⟨fun hslash => ?_, hwords.1.2.1⟩
        have hplain := hnames.1.resolve_right fun h => h hslash
        exact not_infix_of_closed ht hplain hslash (Text.contains_iff.1 hc)
      refine ⟨hstep, ih hnames.2 hwords.2 ?_⟩
      rw [segments_replaceAll_placeholder hstep, List.forall_mem_map]
      exact fun s hs => (ht s hs).replaceAll hwords.1 e.1

/-- The placeholder of a plain name becomes a word if one is given for the name. -/
theorem isWord_putIn {puts : Keyed String} (hwords : ∀ e ∈ puts, Text.IsWord e.2) {name : String}
    (hplain : Text.IsPlain name) (h : ∃ e ∈ puts, e.1 = name) :
    Text.IsWord (putIn puts (placeholder name)) := by
  induction puts with
  | nil => simp at h
  | cons e later ih =>
      rw [List.forall_mem_cons] at hwords
      rw [putIn]
      by_cases hn : e.1 = name
      · rw [hn, Text.replaceAll_self (placeholder_ne_empty name), putIn_of_isPlain hwords.1.2.2]
        exact hwords.1
      · rw [replaceAll_placeholder_of_ne hplain hn]
        refine ih hwords.2 ?_
        obtain ⟨e', he', rfl⟩ := h
        rcases List.mem_cons.1 he' with rfl | he'
        · exact absurd rfl hn
        · exact ⟨e', he', rfl⟩

/-! ### Regular templates -/

/-- The segment is plain, or the placeholder of a plain name that is declared. -/
def IsDeclared (h : Http) (s : String) : Prop :=
  Text.IsPlain s ∨ ∃ p ∈ h.request.pathParams, Text.IsPlain p.name ∧ s = placeholder p.name

instance (h : Http) (s : String) : Decidable (IsDeclared h s) := by
  unfold IsDeclared
  infer_instance

/-- The template is a slash and one or more segments, none of them empty, each plain or a placeholder that
is declared; for POST the last one is plain. -/
structure IsRegular (h : Http) : Prop where
  rooted : ∃ segs, segs ≠ [] ∧ Text.segments '/' h.path = "" :: segs ∧ ∀ s ∈ segs, s ≠ ""
  declared : ∀ s ∈ Text.segments '/' h.path, IsDeclared h s
  action : h.request.method = "POST" → Text.IsPlain (Text.lastSegment '/' h.path)

/-- The identifier that stands in a path: the path itself, for POST without its last segment. -/
def identifierIn (h : Http) (path : String) : ResourceId :=
  .ofText (if h.request.method = "POST" then Text.withoutLastSegment '/' path else path)

theorem isPlaceholder_upper_placeholder (name : String) :
    ResourceId.isPlaceholder (Text.upper (placeholder name)) = true := by
  have hbrace : Text.upperChar '\x7b' = ['\x7b'] := by decide +kernel
  rw [ResourceId.isPlaceholder, String.startsWith_string_iff, Text.toList_upper, toList_placeholder,
    List.flatMap_cons, hbrace]
  exact List.prefix_append _ _

/-- A word is put in for each placeholder that is declared. -/
def IsServed (h : Http) (puts : Keyed String) : Prop :=
  (∀ e ∈ puts, Text.IsWord e.2) ∧ ∀ p ∈ h.request.pathParams, ∃ e ∈ puts, e.1 = p.name

section

variable {h : Http} {puts : Keyed String}

theorem putIn_ne_empty (hserved : IsServed h puts) {s : String} (hs : IsDeclared h s)
    (hne : s ≠ "") : putIn puts s ≠ "" := by
  rcases hs with hplain | ⟨p, hp, hplain, rfl⟩
  · rwa [putIn_of_isPlain hplain]
  · exact (isWord_putIn hserved.1 hplain (hserved.2 p hp)).1

theorem segmentFits_putIn {s : String} (hs : IsDeclared h s) (puts : Keyed String) :
    ResourceId.SegmentFits s (putIn puts s) := by
  rcases hs with hplain | ⟨p, -, -, rfl⟩
  · rw [putIn_of_isPlain hplain]
    exact .inr rfl
  · exact .inl (isPlaceholder_upper_placeholder p.name)

/-- With words put in, a regular template is a slash and segments of which none is empty. -/
theorem putIn_rooted (hreg : IsRegular h) (hserved : IsServed h puts) :
    ∃ segs, segs ≠ [] ∧ (Text.segments '/' h.path).map (putIn puts) = "" :: segs ∧
      ∀ s ∈ segs, s ≠ "" := by
  obtain ⟨segs, hsegs, htemplate, hne⟩ := hreg.rooted
  refine ⟨segs.map (putIn puts), fun h => hsegs (List.map_eq_nil_iff.1 h), ?_, ?_⟩
  · rw [htemplate, List.map_cons, putIn_of_isPlain (by decide)]
  · intro x hx
    obtain ⟨s, hs, rfl⟩ := List.mem_map.1 hx
    refine putIn_ne_empty hserved (hreg.declared s ?_) (hne s hs)
    rw [htemplate]
    exact List.mem_cons_of_mem _ hs

/-- The segments of a regular template that count are all, or all but the action. -/
theorem countedSegments_of_isRegular (hreg : IsRegular h) (method : Option String) :
    ResourceId.countedSegments h.path method =
      if ResourceId.endsInAction method then (Text.segments '/' h.path).dropLast
      else Text.segments '/' h.path := by
  obtain ⟨segs, -, htemplate, hne⟩ := hreg.rooted
  rw [ResourceId.countedSegments, Text.IsRooted.withoutTrailing_eq ⟨segs, htemplate, hne⟩]

/-- Segments fit what they become when words are put in. -/
theorem forall₂_putIn {segs : List String} (hsegs : ∀ s ∈ segs, IsDeclared h s)
    (puts : Keyed String) : List.Forall₂ ResourceId.SegmentFits segs (segs.map (putIn puts)) :=
  List.forall₂_map_right_iff.2 (List.forall₂_same.2 fun s hs => segmentFits_putIn (hsegs s hs) puts)

/-- But for POST, a path with the segments of a regular template, with words put in, is the path of its
identifier. -/
theorem pathOfId_identifierIn_of_ne (hreg : IsRegular h)
    (hmethod : ∃ m, h.request.method = Text.upper m) (hm : h.request.method ≠ "POST")
    (hserved : IsServed h puts) {path : String}
    (hpath : Text.segments '/' path = (Text.segments '/' h.path).map (putIn puts)) :
    pathOfId h (identifierIn h path) = .ok path := by
  obtain ⟨segs, -, hrooted, hne⟩ := putIn_rooted hreg hserved
  have htext : (identifierIn h path).text = path := by
    rw [identifierIn, if_neg hm, ResourceId.ofText]
    exact Text.IsRooted.withoutTrailing_eq ⟨segs, hpath.trans hrooted, hne⟩
  refine pathOfId_eq_ok_iff.2 ⟨ResourceId.check_eq_ok_iff.2 ?_, by rw [if_neg hm, htext]⟩
  rw [htext, hpath, countedSegments_of_isRegular hreg,
    if_neg fun h => hm ((ResourceId.endsInAction_iff hmethod).1 h)]
  exact forall₂_putIn hreg.declared puts

/-- For POST, such a path is the path of its identifier too, which is all but the action. -/
theorem pathOfId_identifierIn_of_post (hreg : IsRegular h) (hm : h.request.method = "POST")
    (hserved : IsServed h puts) {path : String}
    (hpath : Text.segments '/' path = (Text.segments '/' h.path).map (putIn puts)) :
    pathOfId h (identifierIn h path) = .ok path := by
  obtain ⟨segs, hsegs, hrooted, hne⟩ := putIn_rooted hreg hserved
  have hslash : '/' ∈ path.toList := by
    have hlength := Text.length_segments '/' path
    have hpos := List.length_pos_iff.2 hsegs
    rw [hpath, hrooted, List.length_cons] at hlength
    exact List.count_pos_iff.1 (by omega)
  obtain ⟨t, hsplit, ht⟩ := Text.eq_append_lastSegment hslash
  have htrooted : Text.segments '/' t = "" :: segs.dropLast := by
    rw [ht, hpath, hrooted, List.dropLast_cons_of_ne_nil hsegs]
  have htext : (identifierIn h path).text = t := by
    rw [identifierIn, if_pos hm, ResourceId.ofText, Text.withoutLastSegment_eq ht]
    exact Text.IsRooted.withoutTrailing_eq
      ⟨segs.dropLast, htrooted, fun s hs => hne s (List.dropLast_subset segs hs)⟩
  have haction : Text.lastSegment '/' path = Text.lastSegment '/' h.path := by
    have hlast := congrArg List.getLast? hpath
    rwa [List.getLast?_map, Text.getLast?_segments, Text.getLast?_segments, Option.map_some,
      putIn_of_isPlain (hreg.action hm), Option.some_inj] at hlast
  refine pathOfId_eq_ok_iff.2 ⟨ResourceId.check_eq_ok_iff.2 ?_, ?_⟩
  · rw [htext, ht, hpath, countedSegments_of_isRegular hreg, hm,
      if_pos ResourceId.endsInAction_post, ← List.map_dropLast]
    exact forall₂_putIn (fun s hs => hreg.declared s (List.dropLast_subset _ hs)) puts
  · obtain ⟨segs', -, htemplate, hne'⟩ := hreg.rooted
    rw [if_pos hm, htext, Text.IsRooted.withoutTrailing_eq ⟨segs', htemplate, hne'⟩, ← haction]
    exact String.ext (by rw [hsplit]; simp)

end

/-! ### Requests -/

/-- The texts of the values bound to placeholders are words. -/
def BindsWords (h : Http) (b : Bound) : Prop :=
  ∀ p ∈ h.request.pathParams, ∀ v ∈ b.get? p.arg, Text.IsWord v.toText

instance (h : Http) (b : Bound) : Decidable (BindsWords h b) := by
  unfold BindsWords
  infer_instance

theorem isServed_insertions {h : Http} {b : Bound}
    (hbound : ∀ p ∈ h.request.pathParams, (b.get? p.arg).isSome = true) (hwords : BindsWords h b) :
    IsServed h (insertions b h.request.pathParams) := by
  constructor
  · intro e he
    obtain ⟨p, hp, v, hv, rfl⟩ := mem_insertions_iff.1 he
    exact hwords p hp v hv
  · intro p hp
    obtain ⟨v, hv⟩ := Option.isSome_iff_exists.1 (hbound p hp)
    exact ⟨_, mem_insertions_iff.2 ⟨p, hp, v, hv, rfl⟩, rfl⟩

/-- **The identifier in a path leads to the same request.** The request that bound values give is also
the one for the identifier that stands in its path. -/
theorem request_identifierIn {j : Json} {o : Operation} (hj : Operation.ofJson j = .valid o) {h : Http}
    (hh : o.http = some h) (hreg : IsRegular h)
    (hnames : ∀ p ∈ h.request.pathParams, Text.IsPlain p.name ∨ '/' ∉ p.name.toList) {b : Bound}
    (hwords : BindsWords h b) {given : Option Json} {version : Option String}
    {q : ReadyRequest} (hq : o.request b none given version = .ok q) :
    o.request b (some (identifierIn h q.path)) given version = .ok q := by
  obtain ⟨h', path, body, hh', hfill, hbody, rfl⟩ := request_eq_ok_iff.1 hq
  obtain rfl := Option.some_inj.1 (hh.symm.trans hh')
  obtain ⟨hbound, rfl⟩ := fill_eq_ok_iff.1 hfill
  have hserved := isServed_insertions hbound hwords
  have hclosed : ∀ s ∈ Text.segments '/' h.path, IsClosed s := by
    intro s hs
    rcases hreg.declared s hs with hplain | ⟨p, -, hplain, rfl⟩
    · exact .inl hplain
    · exact .inr ⟨p.name, hplain, rfl⟩
  have hinserted : ∀ e ∈ insertions b h.request.pathParams, Text.IsPlain e.1 ∨ '/' ∉ e.1.toList := by
    intro e he
    obtain ⟨p, hp, v, -, rfl⟩ := mem_insertions_iff.1 he
    exact hnames p hp
  have hpath := segments_putIn (keepsSegments_of_closed hinserted hserved.1 hclosed)
  refine request_eq_ok_iff.2 ⟨h, _, body, hh, ?_, hbody, rfl⟩
  by_cases hm : h.request.method = "POST"
  · exact pathOfId_identifierIn_of_post hreg hm hserved hpath
  · exact pathOfId_identifierIn_of_ne hreg (method_of_ofJson hj hh) hm hserved hpath

/-! ### Parts of things -/

/-- A template for starting a part of a thing; the placeholders are declared in the other order. -/
def startHttp : Http :=
  callOf "POST" "/things/\x7ba\x7d/parts/\x7bb\x7d/start" [("b", "$b"), ("a", "$a")]

/-- The identifier is the path without the action, and its letter case is kept. -/
theorem request_identifierIn_start :
    ∃ o : Operation, o.http = some startHttp ∧
      o.request [("$a", .text "x"), ("$b", .text "Y")] none none none =
        .ok ⟨"POST", "/things/x/parts/Y/start", [], none⟩ ∧
      o.request [("$a", .text "x"), ("$b", .text "Y")] (some (.ofText "/things/x/parts/Y")) none none =
        .ok ⟨"POST", "/things/x/parts/Y/start", [], none⟩ := by
  have hreg : IsRegular startHttp :=
    { rooted := ⟨["things", placeholder "a", "parts", placeholder "b", "start"], by decide,
        by decide +kernel, by decide +kernel⟩
      declared := by decide +kernel
      action := fun _ => by decide +kernel }
  have hid : identifierIn startHttp "/things/x/parts/Y/start" = .ofText "/things/x/parts/Y" := by
    decide +kernel
  have hq : (operationOf "POST" startHttp.path [("b", "$b"), ("a", "$a")]).request
      [("$a", .text "x"), ("$b", .text "Y")] none none none =
      .ok ⟨"POST", "/things/x/parts/Y/start", [], none⟩ := request_operationOf (by rfl)
  have hsame := request_identifierIn
    (j := documentOf "post" startHttp.path [("b", "$b"), ("a", "$a")]) (by rfl) rfl hreg
    (by decide +kernel) (by decide +kernel) hq
  rw [hid] at hsame
  exact ⟨_, rfl, hq, hsame⟩

/-- A template with two segments, and with a placeholder that reaches over both. -/
def wideHttp : Http :=
  callOf "GET" "/\x7ba\x7d/\x7bb\x7d" [("a\x7d/\x7bb", "$c"), ("a", "$a"), ("b", "$b")]

/-- A placeholder that reaches over a slash takes two segments at once, and the identifier in the path
has one segment less than the template. -/
theorem exists_request_not_identifierIn :
    ∃ j o h b q, Operation.ofJson j = .valid o ∧ o.http = some h ∧ IsRegular h ∧
      (h.request.pathParams.map (·.name)).Nodup ∧ BindsWords h b ∧
      o.request b none none none = .ok q ∧
      o.request b (some (identifierIn h q.path)) none none ≠ .ok q := by
  have hreg : IsRegular wideHttp :=
    { rooted := ⟨[placeholder "a", placeholder "b"], by decide, by decide +kernel, by decide +kernel⟩
      declared := by decide +kernel
      action := fun hm => absurd hm (by decide) }
  refine ⟨documentOf "get" "/\x7ba\x7d/\x7bb\x7d" [("a\x7d/\x7bb", "$c"), ("a", "$a"), ("b", "$b")],
    operationOf _ _ _, wideHttp, [("$a", .text "x"), ("$b", .text "y"), ("$c", .text "z")],
    ⟨"GET", "/z", [], none⟩, by rfl, rfl, hreg, by decide, by decide +kernel,
    request_operationOf (by rfl), fun hsame => ?_⟩
  obtain ⟨h, path, -, hh, hpath, -, -⟩ := request_eq_ok_iff.1 hsame
  obtain rfl : wideHttp = h := Option.some_inj.1 hh
  have hfits := ResourceId.fits_iff.2 (pathOfId_eq_ok_iff.1 hpath).1
  exact absurd hfits (by decide +kernel)

end Operation

end Restline
