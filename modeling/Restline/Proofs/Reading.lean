import Restline.Metadata.Command

/-!
What was read from a document. A reader that succeeds has read each of its parts; so what a reader of
fields makes of its values holds of whatever a document gives.

* `Checked.and_eq_valid_iff`, `Checked.map_eq_valid_iff`, `Checked.record_eq_valid_iff` : readers put
  together.
* `requiredField_eq_valid`, `exists_of_optionalField_eq_valid` : fields.
* `Command.ofJson_eq_valid_iff` : documents.
* `Operation.method_of_ofJson` : **the method of an operation is in upper case**.
* `Command.when_ne_nil_of_ofJson` : where there are conditions, each operation names one.
-/

set_option autoImplicit false

namespace Restline

variable {α β : Type}

namespace Checked

theorem and_eq_valid_iff {f : Checked (α → β)} {x : Checked α} {b : β} :
    f.and x = .valid b ↔ ∃ g a, f = .valid g ∧ x = .valid a ∧ g a = b := by
  cases f <;> cases x <;> simp [Checked.and]

theorem map_eq_valid_iff {f : α → β} {x : Checked α} {b : β} :
    x.map f = .valid b ↔ ∃ a, x = .valid a ∧ f a = b := by
  cases x <;> simp [Checked.map]

theorem under_eq_valid_iff {p : Place} {x : Checked α} {a : α} :
    x.under p = .valid a ↔ x = .valid a := by
  cases x <;> simp [Checked.under]

theorem andThen_eq_valid_iff {x : Checked α} {f : α → Checked β} {b : β} :
    x.andThen f = .valid b ↔ ∃ a, x = .valid a ∧ f a = .valid b := by
  cases x <;> simp [Checked.andThen]

theorem record_eq_valid_iff {read : Keyed Json → Checked α} {j : Json} {a : α} :
    record read j = .valid a ↔ ∃ ms, j = .obj ms ∧ read ms = .valid a := by
  cases j <;> simp [record, flaw]

end Checked

/-! ### Fields -/

/-- A field that was found was read. -/
theorem exists_of_optionalField_eq_valid {ms : Keyed Json} {f : Field} {read : Json → Checked α} {a : α}
    (h : optionalField ms f read = .valid (some a)) : ∃ j, read j = .valid a := by
  rw [optionalField] at h
  split at h
  · cases h
  · cases h
  · obtain ⟨a', ha, heq⟩ := Checked.map_eq_valid_iff.1 (Checked.under_eq_valid_iff.1 h)
    obtain rfl := Option.some_inj.1 heq
    exact ⟨_, ha⟩

/-- A field that must be there was read. -/
theorem exists_of_requiredField_eq_valid {ms : Keyed Json} {f : Field} {read : Json → Checked α} {a : α}
    (h : requiredField ms f read = .valid a) : ∃ j, read j = .valid a := by
  rw [requiredField] at h
  split at h
  · exact absurd (Checked.under_eq_valid_iff.1 h) (by simp [Checked.flaw])
  · exact ⟨_, Checked.under_eq_valid_iff.1 h⟩

/-! ### Operations -/

theorem Request.method_of_ofJson {j : Json} {q : Request} (h : Request.ofJson j = .valid q) :
    ∃ m, q.method = Text.upper m := by
  obtain ⟨ms, -, hfields⟩ := Checked.record_eq_valid_iff.1 h
  obtain ⟨withQuery, body, hquery, -, rfl⟩ := Checked.and_eq_valid_iff.1 hfields
  obtain ⟨withPath, query, hpath, -, rfl⟩ := Checked.and_eq_valid_iff.1 hquery
  obtain ⟨withMethod, path, hmethod, -, rfl⟩ := Checked.and_eq_valid_iff.1 hpath
  obtain ⟨make, m, hmake, -, rfl⟩ := Checked.and_eq_valid_iff.1 hmethod
  cases hmake
  exact ⟨m, rfl⟩

theorem Http.request_of_ofJson {j : Json} {h : Http} (hj : Http.ofJson j = .valid h) :
    ∃ j, Request.ofJson j = .valid h.request := by
  obtain ⟨ms, -, hfields⟩ := Checked.record_eq_valid_iff.1 hj
  obtain ⟨withRequest, responses, hchain, -, rfl⟩ := Checked.and_eq_valid_iff.1 hfields
  obtain ⟨withPath, request, hpath, hrequest, rfl⟩ := Checked.and_eq_valid_iff.1 hchain
  obtain ⟨make, path, hmake, -, rfl⟩ := Checked.and_eq_valid_iff.1 hpath
  cases hmake
  exact exists_of_requiredField_eq_valid hrequest

/-- **The method of an operation is in upper case.** -/
theorem Operation.method_of_ofJson {j : Json} {o : Operation} (hj : Operation.ofJson j = .valid o)
    {h : Http} (hh : o.http = some h) : ∃ m, h.request.method = Text.upper m := by
  obtain ⟨ms, -, hfields⟩ := Checked.record_eq_valid_iff.1 hj
  obtain ⟨withHttp, tags, hchain, -, rfl⟩ := Checked.and_eq_valid_iff.1 hfields
  obtain ⟨withId, http, hid, hhttp, rfl⟩ := Checked.and_eq_valid_iff.1 hchain
  obtain ⟨make, id, hmake, -, rfl⟩ := Checked.and_eq_valid_iff.1 hid
  cases hmake
  obtain rfl : http = some h := hh
  obtain ⟨j, hj⟩ := exists_of_optionalField_eq_valid hhttp
  obtain ⟨j, hrequest⟩ := Http.request_of_ofJson hj
  exact Request.method_of_ofJson hrequest

/-! ### Commands -/

namespace Command

/-- A document is read if its fields are and it breaks no rule. -/
theorem ofJson_eq_valid_iff {j : Json} {c : Command} :
    ofJson j = .valid c ↔ readFields j = .valid c ∧ c.flaw? = none := by
  rw [ofJson, Checked.andThen_eq_valid_iff]
  constructor
  · rintro ⟨c', hread, hrule⟩
    cases hflaw : c'.flaw? with
    | none =>
        rw [hflaw] at hrule
        obtain rfl := Checked.valid.inj hrule
        exact ⟨hread, hflaw⟩
    | some message =>
        rw [hflaw] at hrule
        cases hrule
  · rintro ⟨hread, hflaw⟩
    exact ⟨c, hread, by rw [hflaw]⟩

/-- A document that was read breaks no rule. -/
theorem flaw?_of_ofJson {j : Json} {c : Command} (h : ofJson j = .valid c) : c.flaw? = none :=
  (ofJson_eq_valid_iff.1 h).2

/-- Where there are conditions, each operation names one. -/
theorem when_ne_nil_of_ofJson {j : Json} {c : Command} (h : ofJson j = .valid c)
    {cs : List Condition} (hc : c.conditions = some cs) {o : Operation} (ho : o ∈ c.operations) :
    o.when ≠ [] := by
  have hflaw := flaw?_of_ofJson h
  rw [flaw?, hc] at hflaw
  have htags := List.findSome?_eq_none_iff.1 (Option.or_eq_none_iff.1 hflaw).1 o ho
  intro hnil
  rw [tagFlaw?, hnil] at htags
  cases htags

end Command

end Restline
