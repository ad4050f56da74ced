import Mathlib.Data.List.Forall2
import Restline.Proofs.Requests
import Restline.Proofs.Substitution

/-!
Paths from templates. The texts of the bound values are put into a template one after the other, each
for every copy of its placeholder, also for those that earlier texts brought in. So the path has the
segments of the template, with the placeholders among them replaced, where no slash is put in or taken
away and each placeholder is declared, with a text that the later ones leave as it is.

* `Operation.insertions`, `Operation.putIn` : the texts, and a template with texts put in.
* `Operation.fill_eq_ok_iff` : filling in bound values is putting in their texts.
* `Operation.Instantiates` : a path that is a template segment by segment.
* `Operation.KeepsSegments`, `Operation.Settles`, `Operation.SettlesIn` : texts that settle.
* `Operation.segments_putIn` : texts put in segment by segment.
* `Operation.request_instantiates_iff` : **when the path of a request is its template, segment by
  segment**.
-/

set_option autoImplicit false

namespace Restline

/-- The text has no brace. -/
def Text.IsPlain (s : String) : Prop := '\x7b' ∉ s.toList ∧ '\x7d' ∉ s.toList

instance (s : String) : Decidable (Text.IsPlain s) := by
  unfold Text.IsPlain
  infer_instance

namespace Operation

/-! ### Texts put in -/

/-- The names of the placeholders with the texts of their bound values, in order. -/
def insertions (b : Bound) (ps : List PathParam) : Keyed String :=
  ps.filterMap fun p => (b.get? p.arg).map fun v => (p.name, v.toText)

theorem mem_insertions_iff {b : Bound} {ps : List PathParam} {e : String × String} :
    e ∈ insertions b ps ↔ ∃ p ∈ ps, ∃ v, b.get? p.arg = some v ∧ (p.name, v.toText) = e := by
  simp only [insertions, List.mem_filterMap, Option.map_eq_some_iff]

/-- The template with texts put in for placeholders, one after the other. -/
def putIn : Keyed String → String → String
  | [], t => t
  | (name, text) :: later, t => putIn later (Text.replaceAll (placeholder name) text t)

/-- Filling in bound values is putting in their texts; it fails only where a value is not bound. -/
theorem fill_eq_ok_iff {b : Bound} {ps : List PathParam} {t path : String} :
    fill b ps t = .ok path ↔
      (∀ p ∈ ps, (b.get? p.arg).isSome = true) ∧ putIn (insertions b ps) t = path := by
  induction ps generalizing t with
  | nil => simp [fill, insertions, putIn]
  | cons p ps ih =>
      cases hb : b.get? p.arg with
      | none =>
          by_cases hr : p.required == some true <;> simp [fill, hb, hr]
      | some v => simp [fill, insertions, putIn, hb, ih]

theorem toList_placeholder (name : String) :
    (placeholder name).toList = '\x7b' :: (name.toList ++ ['\x7d']) := by
  simp [placeholder]

theorem placeholder_ne_empty (name : String) : placeholder name ≠ "" := by
  intro h
  have hlist := toList_placeholder name
  rw [h] at hlist
  cases hlist

theorem not_isPlain_placeholder (name : String) : ¬ Text.IsPlain (placeholder name) := by
  intro h
  refine h.1 ?_
  rw [toList_placeholder]
  exact List.mem_cons_self

/-- No placeholder stands in a plain text. -/
theorem not_infix_of_isPlain {t : String} (h : Text.IsPlain t) (name : String) :
    ¬ (placeholder name).toList <:+: t.toList := by
  intro hinside
  refine h.1 (hinside.mem ?_)
  rw [toList_placeholder]
  exact List.mem_cons_self

/-- The placeholder of a plain name holds no placeholder but itself. -/
theorem eq_of_infix_placeholder {n name : String} (h : Text.IsPlain name)
    (hinside : (placeholder n).toList <:+: (placeholder name).toList) : n = name := by
  simp only [toList_placeholder] at hinside
  rcases List.infix_cons_iff.1 hinside with hprefix | hrest
  · rcases List.prefix_concat_iff.1 (List.cons_prefix_cons.1 hprefix).2 with heq | hshort
    · exact String.ext (List.append_cancel_right heq)
    · exact absurd (hshort.mem (List.mem_append_right _ (List.mem_singleton_self _))) h.2
  · -- the brace that opens the placeholder stands at its start only
    have hopen := hrest.mem List.mem_cons_self
    rcases List.mem_append.1 hopen with hmem | hmem
    · exact absurd hmem h.1
    · cases List.mem_singleton.1 hmem

theorem replaceAll_placeholder_of_ne {n name : String} (h : Text.IsPlain name) (hne : n ≠ name)
    (text : String) :
    Text.replaceAll (placeholder n) text (placeholder name) = placeholder name :=
  Text.replaceAll_of_not_infix (fun hinside => hne (eq_of_infix_placeholder h hinside)) text

theorem placeholder_injective {n name : String} (h : placeholder n = placeholder name) : n = name := by
  have hlist := congrArg String.toList h
  rw [toList_placeholder, toList_placeholder] at hlist
  exact String.ext (List.append_cancel_right (List.cons.inj hlist).2)

theorem slash_notMem_placeholder {name : String} (h : '/' ∉ name.toList) :
    '/' ∉ (placeholder name).toList := by
  rw [toList_placeholder]
  simp [h]

/-- A plain text stays as it is. -/
theorem putIn_of_isPlain {t : String} (h : Text.IsPlain t) (puts : Keyed String) :
    putIn puts t = t := by
  induction puts with
  | nil => rfl
  | cons e later ih =>
      rw [putIn, Text.replaceAll_of_not_infix (not_infix_of_isPlain h e.1), ih]

/-! ### Segments -/

/-- No slash is put in or taken away: a placeholder that stands in the template when its turn comes has
none, and neither has its text. -/
def KeepsSegments : Keyed String → String → Prop
  | [], _ => True
  | (name, text) :: later, t =>
    (Text.contains t (placeholder name) = true → '/' ∉ name.toList ∧ '/' ∉ text.toList) ∧
      KeepsSegments later (Text.replaceAll (placeholder name) text t)

/-- A text is given for the name, and the first one is left as it is when the later ones are put in. -/
def Settles : Keyed String → String → Prop
  | [], _ => False
  | (n, text) :: later, name =>
    if n = name then putIn later text = text else Settles later name

instance : (puts : Keyed String) → (name : String) → Decidable (Settles puts name)
  | [], _ => inferInstanceAs (Decidable False)
  | (n, text) :: later, name =>
    match decEq n name with
    | isTrue h => decidable_of_iff (putIn later text = text) (by rw [Settles, if_pos h])
    | isFalse h =>
      have := instDecidableSettles later name
      decidable_of_iff (Settles later name) (by rw [Settles, if_neg h])

/-- A segment of a path is what the segment `t` of a template asks for: a plain segment is itself, and
the placeholder of a plain name is the text that is given for the name. -/
def IsInstance (puts : Keyed String) (t s : String) : Prop :=
  (Text.IsPlain t → s = t) ∧
    ∀ name, Text.IsPlain name → t = placeholder name → puts.get? name = some s

/-- The path is the template segment by segment. -/
def Instantiates (puts : Keyed String) (template path : String) : Prop :=
  List.Forall₂ (IsInstance puts) (Text.segments '/' template) (Text.segments '/' path)

/-- One text put in segment by segment. -/
theorem segments_replaceAll_placeholder {name text t : String}
    (h : Text.contains t (placeholder name) = true → '/' ∉ name.toList ∧ '/' ∉ text.toList) :
    Text.segments '/' (Text.replaceAll (placeholder name) text t) =
      (Text.segments '/' t).map (Text.replaceAll (placeholder name) text) := by
  by_cases hc : Text.contains t (placeholder name) = true
  · obtain ⟨hname, htext⟩ := h hc
    exact Text.segments_replaceAll (placeholder_ne_empty name) (slash_notMem_placeholder hname) htext t
  · rw [Text.contains_iff] at hc
    have hsame : ∀ s ∈ Text.segments '/' t, Text.replaceAll (placeholder name) text s = s :=
      fun s hs => Text.replaceAll_of_not_infix
        (fun hinside => hc (hinside.trans (Text.infix_of_mem_segments hs))) text
    rw [Text.replaceAll_of_not_infix hc, List.map_congr_left hsame, List.map_id']

/-- **Texts put in segment by segment.** -/
theorem segments_putIn {puts : Keyed String} {t : String} (h : KeepsSegments puts t) :
    Text.segments '/' (putIn puts t) = (Text.segments '/' t).map (putIn puts) := by
  induction puts generalizing t with
  | nil => exact (List.map_id' _).symm
  | cons e later ih =>
      rw [putIn, ih h.2, segments_replaceAll_placeholder h.1, List.map_map]
      rfl

/-- For names without a slash, putting texts in takes no slash away, and it adds none exactly when no
text with a slash is put in. -/
theorem count_putIn {puts : Keyed String} (hnames : ∀ e ∈ puts, '/' ∉ e.1.toList) (t : String) :
    t.toList.count '/' ≤ (putIn puts t).toList.count '/' ∧
      ((putIn puts t).toList.count '/' = t.toList.count '/' ↔ KeepsSegments puts t) := by
  induction puts generalizing t with
  | nil => exact ⟨le_refl _, iff_of_true rfl trivial⟩
  | cons e later ih =>
      rw [List.forall_mem_cons] at hnames
      obtain ⟨hle, hiff⟩ := Text.count_replaceAll (placeholder_ne_empty e.1)
        (slash_notMem_placeholder hnames.1) e.2 t
      obtain ⟨hle', hiff'⟩ := ih hnames.2 (Text.replaceAll (placeholder e.1) e.2 t)
      rw [putIn, KeepsSegments, and_iff_right hnames.1, ← hiff, ← hiff']
      omega

/-- The placeholder of a plain name becomes the text that is given for the name exactly when that text
settles. -/
theorem get?_putIn_placeholder {name : String} (h : Text.IsPlain name) (puts : Keyed String) :
    puts.get? name = some (putIn puts (placeholder name)) ↔ Settles puts name := by
  induction puts with
  | nil => exact iff_of_false (by simp) id
  | cons e later ih =>
      by_cases hn : e.1 = name
      · subst hn
        rw [Keyed.get?_cons, if_pos rfl, putIn, Text.replaceAll_self (placeholder_ne_empty e.1),
          Settles, if_pos rfl, Option.some_inj, eq_comm]
      · rw [Keyed.get?_cons, if_neg hn, putIn, replaceAll_placeholder_of_ne h hn, Settles, if_neg hn,
          ih]

/-- The texts settle in the template: no slash is put in or taken away, and each placeholder among its
segments has a text that settles. -/
def SettlesIn (puts : Keyed String) (t : String) : Prop :=
  KeepsSegments puts t ∧
    ∀ name, Text.IsPlain name → placeholder name ∈ Text.segments '/' t → Settles puts name

/-- Where no slash is put in or taken away, a template with texts put in is the template segment by
segment exactly when the texts settle. -/
theorem instantiates_putIn_iff_of_keeps {puts : Keyed String} {t : String} (h : KeepsSegments puts t) :
    Instantiates puts t (putIn puts t) ↔ SettlesIn puts t := by
  rw [Instantiates, segments_putIn h, List.forall₂_map_right_iff, List.forall₂_same, SettlesIn,
    and_iff_right h]
  constructor
  · intro hall name hplain hmem
    exact (get?_putIn_placeholder hplain puts).1 ((hall _ hmem).2 name hplain rfl)
  · intro hall s hs
    refine ⟨fun hplain => putIn_of_isPlain hplain puts, ?_⟩
    rintro name hplain rfl
    exact (get?_putIn_placeholder hplain puts).2 (hall name hplain hs)

/-- For names without a slash, a template with texts put in is the template segment by segment only if
the texts settle. -/
theorem settlesIn_of_instantiates {puts : Keyed String} (hnames : ∀ e ∈ puts, '/' ∉ e.1.toList)
    {t : String} (h : Instantiates puts t (putIn puts t)) : SettlesIn puts t := by
  have hlength := h.length_eq
  rw [Text.length_segments, Text.length_segments] at hlength
  have hkeeps := (count_putIn hnames t).2.1 (by omega)
  exact (instantiates_putIn_iff_of_keeps hkeeps).1 h

/-! ### Requests -/

/-- **When the path of a request is its template segment by segment**: if no slash is put in or taken away
and each placeholder among the segments of the template is declared, with a text that the placeholders
declared after it leave as it is; and for names without a slash, only then. -/
theorem request_instantiates_iff {o : Operation} {h : Http} (hh : o.http = some h) {b : Bound}
    {given : Option Json} {version : Option String} {q : ReadyRequest}
    (hq : o.request b none given version = .ok q) :
    let puts := insertions b h.request.pathParams
    (SettlesIn puts h.path → Instantiates puts h.path q.path) ∧
      ((∀ p ∈ h.request.pathParams, '/' ∉ p.name.toList) → Instantiates puts h.path q.path →
        SettlesIn puts h.path) := by
  intro puts
  obtain ⟨h', path, body, hh', hpath, -, rfl⟩ := request_eq_ok_iff.1 hq
  obtain rfl := Option.some_inj.1 (hh.symm.trans hh')
  obtain ⟨-, rfl⟩ := fill_eq_ok_iff.1 hpath
  constructor
  · intro hsettles
    exact (instantiates_putIn_iff_of_keeps hsettles.1).2 hsettles
  · intro hnames
    refine settlesIn_of_instantiates fun e he => ?_
    obtain ⟨p, hp, v, -, rfl⟩ := mem_insertions_iff.1 he
    exact hnames p hp

/-! ### Two placeholders -/

/-- An operation on things that two arguments name. -/
def pairOperation : Operation :=
  operationOf "GET" "/things/\x7ba\x7d/\x7bb\x7d" [("a", "$a"), ("b", "$b")]

/-- The placeholders among the segments of the operation's template. -/
theorem eq_of_placeholder_mem_pair {name : String}
    (h : placeholder name ∈ Text.segments '/' "/things/\x7ba\x7d/\x7bb\x7d") :
    name = "a" ∨ name = "b" := by
  have hsegments : Text.segments '/' "/things/\x7ba\x7d/\x7bb\x7d" =
      ["", "things", placeholder "a", placeholder "b"] := by decide +kernel
  have hplain : ∀ s, Text.IsPlain s → placeholder name ≠ s := by
    rintro s hs rfl
    exact not_isPlain_placeholder name hs
  rw [hsegments] at h
  simp only [List.mem_cons, List.not_mem_nil, or_false] at h
  rcases h with h | h | h | h
  · exact absurd h (hplain "" (by decide))
  · exact absurd h (hplain "things" (by decide))
  · exact .inl (placeholder_injective h)
  · exact .inr (placeholder_injective h)

/-- Texts with braces are put in as they are when no later placeholder stands in them. -/
theorem request_instantiates_of_braces :
    ∃ h q, pairOperation.http = some h ∧
      pairOperation.request [("$a", .text "\x7bc\x7d"), ("$b", .text "\x7ba\x7d")] none none none =
        .ok q ∧
      q.path = "/things/\x7bc\x7d/\x7ba\x7d" ∧
      Instantiates [("a", "\x7bc\x7d"), ("b", "\x7ba\x7d")] h.path q.path := by
  let h := callOf "GET" "/things/\x7ba\x7d/\x7bb\x7d" [("a", "$a"), ("b", "$b")]
  have hq : pairOperation.request [("$a", .text "\x7bc\x7d"), ("$b", .text "\x7ba\x7d")] none none none =
      .ok ⟨"GET", "/things/\x7bc\x7d/\x7ba\x7d", [], none⟩ := request_operationOf (by rfl)
  have hsettles : SettlesIn [("a", "\x7bc\x7d"), ("b", "\x7ba\x7d")] h.path := by
    refine ⟨⟨fun _ => by decide, fun _ => by decide, trivial⟩, fun name _ hname => ?_⟩
    rcases eq_of_placeholder_mem_pair hname with rfl | rfl
    · decide +kernel
    · decide +kernel
  exact ⟨h, _, rfl, hq, rfl, (request_instantiates_iff (h := h) rfl hq).1 hsettles⟩

/-- When the text of the first placeholder is the second placeholder, the text of the second stands in
both places. -/
theorem exists_request_not_instantiates :
    ∃ j o h b q, Operation.ofJson j = .valid o ∧ o.http = some h ∧
      o.request b none none none = .ok q ∧
      ¬ Instantiates (insertions b h.request.pathParams) h.path q.path := by
  refine ⟨documentOf "get" "/things/\x7ba\x7d/\x7bb\x7d" [("a", "$a"), ("b", "$b")], pairOperation, _,
    [("$a", .text "\x7bb\x7d"), ("$b", .text "x")], ⟨"GET", "/things/x/x", [], none⟩, by rfl, rfl,
    request_operationOf (by rfl), fun h => ?_⟩
  have hsettles : SettlesIn [("a", "\x7bb\x7d"), ("b", "x")] "/things/\x7ba\x7d/\x7bb\x7d" :=
    settlesIn_of_instantiates (by decide) h
  exact absurd (hsettles.2 "a" (by decide) (by decide +kernel)) (by decide +kernel)

end Operation

end Restline
