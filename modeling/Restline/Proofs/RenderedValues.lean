import Mathlib
import Restline.Operation.Body
import Restline.Proofs.BuiltMembers
import Restline.Proofs.JsonText
import Restline.Proofs.RenderedOptions

/-!
Values on a rendered command line. A text stands there as it is and any other value as compact JSON, between
quotes from which the word can be told; given back to its argument, the word is converted by the family of
the argument's type, and a body node of that family makes a value of it again. That value is the one that was
rendered, but for a text of an opaque type that is JSON itself: of this the node reads the JSON.

* `Shell.escapeText_injective` : a word is told from its quoted form.
* `Json.IsOfKind` : the values that a family of types stands for.
* `Json.IsPlain` : texts that are no JSON.
* `Value.exists_toJson_asWord` : a word converted, and made a value again.
* `Rendering.rebuilds_iff` : **when a rendered option gives the value back that it was made from**.
-/

set_option autoImplicit false

namespace Restline

/-! ### Quoted words -/

namespace Shell

/-- Where a quote is escaped by a backslash, nothing in quotes begins with a quote. -/
theorem flatMap_escapeChar_ne (cs r : List Char) : cs.flatMap (escapeChar .unix) ≠ '"' :: r := by
  cases cs with
  | nil => exact (List.cons_ne_nil _ _).symm
  | cons c cs =>
      intro h
      rw [List.flatMap_cons, escapeChar] at h
      split at h
      · exact absurd (List.cons_eq_cons.1 h).1 (by decide)
      · rename_i hc
        exact hc (List.cons_eq_cons.1 h).1

/-- An escaped quote is told from any other character with what follows it. -/
theorem innerQuote_append_ne (sh : Shell) {d : Char} (hd : d ≠ '"') (cs ds : List Char) :
    sh.innerQuote ++ cs ≠ d :: ds.flatMap sh.escapeChar := by
  intro h
  cases sh with
  | unix => exact flatMap_escapeChar_ne ds cs (List.cons_eq_cons.1 h).2.symm
  | cmd => exact hd (List.cons_eq_cons.1 h).1.symm
  | powershell => exact hd (List.cons_eq_cons.1 h).1.symm

theorem escapeChar_ne_nil (sh : Shell) (c : Char) : sh.escapeChar c ≠ [] := by
  rw [escapeChar]
  split
  · cases sh <;> exact List.cons_ne_nil _ _
  · exact List.cons_ne_nil _ _

theorem flatMap_escapeChar_injective (sh : Shell) : Function.Injective (List.flatMap sh.escapeChar) := by
  intro cs ds h
  induction cs generalizing ds with
  | nil =>
      cases ds with
      | nil => rfl
      | cons d ds => exact absurd h.symm (List.append_ne_nil_of_left_ne_nil (sh.escapeChar_ne_nil d) _)
  | cons c cs ih =>
      cases ds with
      | nil => exact absurd h (List.append_ne_nil_of_left_ne_nil (sh.escapeChar_ne_nil c) _)
      | cons d ds =>
          rw [List.flatMap_cons, List.flatMap_cons, escapeChar, escapeChar] at h
          by_cases hc : c = '"' <;> by_cases hd : d = '"'
          · rw [if_pos hc, if_pos hd] at h
            rw [hc, hd, ih (List.append_cancel_left h)]
          · rw [if_pos hc, if_neg hd] at h
            exact absurd h (sh.innerQuote_append_ne hd _ ds)
          · rw [if_neg hc, if_pos hd] at h
            exact absurd h.symm (sh.innerQuote_append_ne hc _ cs)
          · rw [if_neg hc, if_neg hd] at h
            obtain ⟨rfl, hrest⟩ := List.cons_eq_cons.1 h
            rw [ih hrest]

/-- A word is told from its quoted form. -/
theorem escapeText_injective (sh : Shell) : Function.Injective sh.escapeText := by
  intro s t h
  have hlist := congrArg String.toList h
  simp only [escapeText, String.toList_ofList, List.cons_eq_cons, true_and, List.append_cancel_right_eq] at hlist
  exact String.toList_inj.1 (flatMap_escapeChar_injective sh hlist)

end Shell

theorem renderOption_injective (sh : Shell) (name : String) :
    Function.Injective fun word => renderOption name (some (sh.escapeText word)) := by
  intro s t h
  simp only [renderOption] at h
  have hlist := congrArg String.toList h
  simp only [String.toList_append, List.append_cancel_left_eq] at hlist
  exact sh.escapeText_injective (String.toList_inj.1 hlist)

/-! ### Types of values -/

/-- The value has the JSON type that the family of types stands for; an opaque type stands for any. -/
def Json.IsOfKind : Json → Kind → Prop
  | _, .opaqueJson => True
  | .obj _, .object => True
  | .arr _, .array => True
  | .str _, .string => True
  | .int _, .integer => True
  | .bool _, .boolean => True
  | _, _ => False

/-- The text is no JSON. -/
def Json.IsPlain (t : String) : Prop := ∃ what left, Json.read t = .error (.malformed what left)

/-! ### From words to values -/

namespace Value

/-- A text of an opaque type is kept exactly if it is no JSON. -/
theorem readOpaque_eq_str_iff (t : String) : readOpaque t = .ok (.str t) ↔ Json.IsPlain t := by
  rw [readOpaque, Json.IsPlain]
  cases h : Json.read t with
  | ok j =>
      simp only [Except.ok.injEq, reduceCtorEq, exists_false, iff_false]
      exact Json.ne_of_read h
  | error f => cases f <;> simp

/-- What is JSON names no file. -/
theorem jsonTextOf_of_read (readFile : String → Except Fault String) {s : String} {j : Json}
    (h : Json.read s = .ok j) : jsonTextOf readFile s = .ok s := by
  have hat : s.startsWith "@" = false := by
    rw [← Bool.not_eq_true, String.startsWith_string_iff]
    rintro ⟨r, hr⟩
    rw [Json.read, ← hr] at h
    cases h
  rw [jsonTextOf, hat]
  rfl

theorem readOpaque_write {j : Json} (hj : j.Proper) : readOpaque (j.write Json.compact) = .ok j := by
  rw [readOpaque, Json.read_write Json.Layout.isReadable_compact hj]

theorem readJson_write {j : Json} (hj : j.Proper) (arg : String) :
    readJson arg (j.write Json.compact) = .ok j := by
  rw [readJson, Json.read_write Json.Layout.isReadable_compact hj]

/-- An object or a list is given as JSON text and read from it. -/
theorem exists_raw_toJson {w : Json} (hw : w.Proper) (hword : w.asWord = w.write Json.compact) (arg : String)
    (readFile : String → Except Fault String) {k : Kind}
    (hgiven : ∀ g, ofGiven readFile g k = (jsonTextOf readFile g.toText).map Value.raw)
    (hparse : ∀ v : Value, v.toJson arg k = v.parse arg) :
    ∃ v, ofGiven readFile (.text w.asWord) k = .ok v ∧ v.toJson arg k = .ok w := by
  have hread := Json.read_write Json.Layout.isReadable_compact hw
  refine ⟨.raw (w.write Json.compact), ?_, ?_⟩
  · rw [hgiven, hword, GivenValue.toText, jsonTextOf_of_read readFile hread]
    rfl
  · rw [hparse, parse, readJson_write hw]

/-- The word of a value is converted by the type of its argument, and gives the value back, but for a text of
an opaque type that is JSON. -/
theorem exists_toJson_asWord {w : Json} {k : Kind} (hw : w.Proper) (hkind : w.IsOfKind k) (arg : String)
    (readFile : String → Except Fault String) :
    ∃ v, Value.ofGiven readFile (.text w.asWord) k = .ok v ∧
      (v.toJson arg k = .ok w ↔ (k = .opaqueJson → ∀ t, w = .str t → Json.IsPlain t)) := by
  cases k with
  | opaqueJson =>
      refine ⟨.text w.asWord, rfl, ?_⟩
      cases w with
      | str t =>
          simp only [forall_const, Json.str.injEq, forall_eq']
          exact readOpaque_eq_str_iff t
      | _ => exact ⟨fun _ _ _ h => (by cases h), fun _ => readOpaque_write hw⟩
  | object =>
      cases w with
      | obj ms =>
          obtain ⟨v, hv, hjson⟩ := exists_raw_toJson hw rfl arg readFile (k := .object) (fun _ => rfl) fun _ => rfl
          exact ⟨v, hv, fun _ h => (by cases h), fun _ => hjson⟩
      | _ => cases hkind
  | array =>
      cases w with
      | arr items =>
          obtain ⟨v, hv, hjson⟩ := exists_raw_toJson hw rfl arg readFile (k := .array) (fun _ => rfl) fun _ => rfl
          exact ⟨v, hv, fun _ h => (by cases h), fun _ => hjson⟩
      | _ => cases hkind
  | string =>
      cases w with
      | str t => exact ⟨.text t, rfl, fun _ h => (by cases h), fun _ => rfl⟩
      | _ => cases hkind
  | integer =>
      cases w with
      | int n =>
          rw [Json.Proper] at hw
          refine ⟨.int n, ?_, fun _ h => (by cases h), fun _ => rfl⟩
          have hword : (Json.int n).asWord = toString n := rfl
          simp only [ofGiven, GivenValue.toInt, hword, Text.ofNumeral?_toString hw]
          rfl
      | _ => cases hkind
  | boolean =>
      cases w with
      | bool b =>
          refine ⟨.bool b, ?_, fun _ h => (by cases h), fun _ => rfl⟩
          rw [ofGiven]
          cases b <;> decide +kernel
      | _ => cases hkind

end Value

/-! ### Rendered options and body nodes -/

namespace Rendering

variable {r : Rendering} {ms : Keyed Json} {a : Arg} {o : String}

/-- An option from the body shows the value that the key of its argument leads to. -/
theorem exists_of_argOption {sh : Shell} {body : Json} (h : argOption sh body a = .ok (some o)) :
    ∃ way name w, a.bodyWay? = some way ∧ a.options.head? = some name ∧ body.follow way = .ok (some w) ∧
      o = renderOption name (some (sh.escapeText w.asWord)) := by
  rw [argOption] at h
  split at h
  · rename_i way name names hway hnames
    obtain ⟨j, hj, h⟩ := Except.bind_eq_ok_iff.1 h
    obtain ⟨w, rfl, rfl⟩ := Option.map_eq_some_iff.1 (Except.ok.inj h)
    exact ⟨way, name, w, hway, by rw [hnames]; rfl, hj, by rw [Shell.escape_eq]⟩
  · cases h

theorem mem_argOptions {sh : Shell} {body : Json} {as : List Arg} {os : List String}
    (hos : argOptions sh body as = .ok os) (ha : a ∈ as) (h : argOption sh body a = .ok (some o)) : o ∈ os := by
  obtain ⟨m, hm, rfl⟩ := Option.map_eq_some_iff.1 (Leaf.argOption_eq_ok h).symm
  rw [Leaf.argOptions_eq_ok hos]
  exact List.mem_map_of_mem (List.mem_filterMap.2 ⟨a, ha, hm⟩)

/-- **When a rendered option gives the value back that it was made from.** The word between its quotes is
converted whenever the value is of the type of the argument, and a node of this type makes the value of it
again exactly if the value is no text of an opaque type that is JSON. -/
theorem rebuilds_iff {text : String} (hread : Json.read text = .ok (.obj ms)) (hbody : r.body = some (.obj ms))
    {os : List String} (hos : r.options = .ok os) (ha : a ∈ r.bodyArgs)
    (ho : argOption r.shell (.obj ms) a = .ok (some o)) :
    o ∈ os ∧ ∃ way name w, a.bodyWay? = some way ∧ a.options.head? = some name ∧
      (Json.obj ms).follow way = .ok (some w) ∧
      (∀ word, o = renderOption name (some (r.shell.escapeText word)) ↔ word = w.asWord) ∧
      (w.IsOfKind a.kind → ∀ readFile, ∃ v, Value.ofGiven readFile (.text w.asWord) a.kind = .ok v ∧
        ∀ (b : Bound) (s : Schema), b.get? a.var = some v → s.arg = some a.var → s.kind = a.kind →
          (s.build b = .ok (some w) ↔ (a.kind = .opaqueJson → ∀ t, w = .str t → Json.IsPlain t))) := by
  obtain ⟨way, name, w, hway, hname, hfollow, hshown⟩ := exists_of_argOption ho
  have hproper : w.Proper := Json.proper_of_follow (Json.proper_of_read hread) hfollow
  refine ⟨?_, way, name, w, hway, hname, hfollow, fun word => ?_, fun hkind readFile => ?_⟩
  · rw [options, hbody] at hos
    obtain ⟨fromBody, hfrom, hos⟩ := Except.bind_eq_ok_iff.1 hos
    obtain rfl := Except.ok.inj hos
    exact List.mem_append_right _ (mem_argOptions hfrom ha ho)
  · rw [hshown]
    exact ⟨fun h => (renderOption_injective r.shell name h).symm, fun h => by rw [h]⟩
  · obtain ⟨v, hv, hjson⟩ := Value.exists_toJson_asWord hproper hkind a.var readFile
    refine ⟨v, hv, fun b s hb harg hsame => ?_⟩
    rw [Schema.build_of_arg harg, Schema.argValue, hb, hsame, ← hjson]
    simp only [Except.map_eq_ok_iff, Option.some_inj, exists_eq_right]

/-! ### The place of a thing -/

/-- An argument of a type that says nothing about its values. -/
def placeArg : Arg := { type := "ResourceLocation", var := "$parameters.location", options := ["location"] }

/-- The body node of the argument. -/
def placeNode : Schema :=
  .node { type := "ResourceLocation", name := some "location", arg := some "$parameters.location" } none none none

/-- The command line for a body that gives a thing its place. -/
def placeRendering (place : String) : Rendering where
  shell := .unix
  argGroups := [{ name := "Parameters", args := [placeArg] }]
  body := some (.obj [("location", .str place)])

theorem placeArg_mem_bodyArgs (place : String) : placeArg ∈ (placeRendering place).bodyArgs := by
  simp [bodyArgs, placeRendering]

theorem bodyWay?_placeArg : placeArg.bodyWay? = some ["location"] := by
  cbv

theorem follow_location (place : String) :
    (Json.obj [("location", .str place)]).follow ["location"] = .ok (some (.str place)) :=
  rfl

theorem kind_placeArg : placeArg.kind = .opaqueJson := by
  decide +kernel

theorem isOfKind_placeArg (w : Json) : w.IsOfKind placeArg.kind := by
  rw [kind_placeArg]
  trivial

/-- A place that is no JSON is given back. -/
theorem rebuilds_west :
    Json.read "\x7b\"location\":\"west\"\x7d" = .ok (.obj [("location", .str "west")]) ∧
      (placeRendering "west").options = .ok ["--location \"west\""] ∧
      placeArg ∈ (placeRendering "west").bodyArgs ∧
      argOption .unix (.obj [("location", .str "west")]) placeArg = .ok (some "--location \"west\"") ∧
      ∃ v, Value.ofGiven (fun _ => .ok "") (.text "west") placeArg.kind = .ok v ∧
        placeNode.build [("$parameters.location", v)] = .ok (some (.str "west")) := by
  have hread : Json.read "\x7b\"location\":\"west\"\x7d" = .ok (.obj [("location", .str "west")]) := by cbv
  have hos : (placeRendering "west").options = .ok ["--location \"west\""] := by cbv
  have ho : argOption .unix (.obj [("location", .str "west")]) placeArg =
      .ok (some "--location \"west\"") := by cbv
  have ha := placeArg_mem_bodyArgs "west"
  obtain ⟨-, way, name, w, hway, -, hfollow, -, hrebuilds⟩ := rebuilds_iff hread rfl hos ha ho
  obtain rfl := Option.some_inj.1 (hway.symm.trans bodyWay?_placeArg)
  obtain rfl := Option.some_inj.1 (Except.ok.inj (hfollow.symm.trans (follow_location "west")))
  obtain ⟨v, hv, hbuild⟩ := hrebuilds (isOfKind_placeArg _) fun _ => .ok ""
  refine ⟨hread, hos, ha, ho, v, hv, ?_⟩
  refine (hbuild [("$parameters.location", v)] placeNode rfl rfl rfl).2 fun _ t ht => ?_
  obtain rfl := Json.str.inj ht
  exact ⟨.value, 4, by cbv⟩

/-- A place that is JSON is not given back. -/
theorem exists_not_rebuilds :
    ∃ (r : Rendering) (text : String) (ms : Keyed Json) (os : List String) (a : Arg) (o : String)
      (way : List String) (w : Json) (v : Value) (b : Bound) (s : Schema),
      Json.read text = .ok (.obj ms) ∧ r.body = some (.obj ms) ∧ r.options = .ok os ∧ a ∈ r.bodyArgs ∧
        argOption r.shell (.obj ms) a = .ok (some o) ∧ a.isHidden = false ∧ a.bodyWay? = some way ∧
        (Json.obj ms).follow way = .ok (some w) ∧ w.IsOfKind a.kind ∧
        Value.ofGiven (fun _ => .ok "") (.text w.asWord) a.kind = .ok v ∧ b.get? a.var = some v ∧
        s.arg = some a.var ∧ s.kind = a.kind ∧ s.build b ≠ .ok (some w) := by
  have hread : Json.read "\x7b\"location\":\"123\"\x7d" = .ok (.obj [("location", .str "123")]) := by cbv
  have hos : (placeRendering "123").options = .ok ["--location \"123\""] := by cbv
  have ho : argOption .unix (.obj [("location", .str "123")]) placeArg =
      .ok (some "--location \"123\"") := by cbv
  have hv : Value.ofGiven (fun _ => .ok "") (.text (Json.str "123").asWord) placeArg.kind =
      .ok (.text "123") := by
    rw [kind_placeArg]
    rfl
  have hnumber : Json.read "123" = .ok (.int 123) := by
    have hproper : (Json.int 123).Proper := by
      rw [Json.Proper]
      decide +kernel
    exact Json.read_write Json.Layout.isReadable_compact hproper
  have hbuild : placeNode.build [("$parameters.location", .text "123")] = .ok (some (.int 123)) := by
    have hopaque : Value.readOpaque "123" = .ok (.int 123) := by rw [Value.readOpaque, hnumber]
    have harg : placeNode.arg = some "$parameters.location" := rfl
    rw [Schema.build_of_arg harg, show placeNode.kind = .opaqueJson from kind_placeArg]
    exact congrArg (Except.map some) hopaque
  refine ⟨_, _, _, _, placeArg, _, _, _, _, [("$parameters.location", .text "123")], placeNode, hread, rfl, hos,
    placeArg_mem_bodyArgs "123", ho, rfl, bodyWay?_placeArg, follow_location "123", isOfKind_placeArg _, hv,
    rfl, rfl, rfl, fun h => ?_⟩
  rw [hbuild] at h
  cases h

end Rendering

end Restline
