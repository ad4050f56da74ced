import Restline.Operation.Request
import Restline.Operation.Selection
import Restline.Proofs.Identifier
import Restline.Proofs.Results

/-!
Selection by an identifier, and whether the selected operation can be called with it.

An identifier points at an operation in two passes. The first finds the first operation whose template
the identifier fits and takes its last tag; the second takes the first operation with that tag. The two
passes end at the same operation only if no operation before the fitting one carries the tag as well.

* `Operation.accepts_iff` : an identifier is accepted by an operation that can be called and whose
  template it fits.
* `Operation.request_ne_mismatch` : a request for an accepted identifier never fails for the
  identifier's shape.
* `Command.select_id_eq_ok_iff` : the two passes as an equivalence.
* `Command.serves_select_iff` : **when the selected operation is one for the identifier**.
-/

set_option autoImplicit false

namespace Restline

namespace Operation

/-! ### Identifiers that fit -/

theorem accepts_iff {o : Operation} {r : ResourceId} :
    o.accepts r = true ↔
      ∃ h, o.http = some h ∧ r.fits h.path (some h.request.method) = true := by
  rw [accepts, Option.any_eq_true_iff_get]
  constructor
  · rintro ⟨hs, hfit⟩
    exact ⟨_, (Option.some_get hs).symm, hfit⟩
  · rintro ⟨h, hh, hfit⟩
    exact ⟨by simp [hh], by simpa [hh] using hfit⟩

/-- The path for an identifier that fits is there. -/
theorem pathOfId_ne_error {h : Http} {r : ResourceId}
    (hfit : r.fits h.path (some h.request.method) = true) (e : RequestFault) :
    pathOfId h r ≠ .error e := by
  rw [ResourceId.fits_iff] at hfit
  rw [pathOfId, hfit]
  by_cases hm : h.request.method = "POST" <;> simp [hm]

/-- **A request for an accepted identifier never fails for the identifier's shape.** -/
theorem request_ne_mismatch {o : Operation} {r : ResourceId} (h : o.accepts r = true) (b : Bound)
    (given : Option Json) (version : Option String) (e : MismatchFault) :
    o.request b (some r) given version ≠ .error (.mismatch e) := by
  obtain ⟨http, hhttp, hfit⟩ := accepts_iff.1 h
  rw [request, hhttp]
  cases hp : pathOfId http r with
  | error f => exact absurd hp (pathOfId_ne_error hfit f)
  | ok path =>
      cases hb : o.requestBody b given with
      | error f => simp [hp]
      | ok body => simp [hp]

/-- The operation is one for the identifier: it can be called, the identifier fits its template, and
no request for the identifier fails for the identifier's shape. -/
def Serves (o : Operation) (r : ResourceId) : Prop :=
  (∃ h, o.http = some h ∧ r.fits h.path (some h.request.method) = true) ∧
    ∀ b given version e, o.request b (some r) given version ≠ .error (.mismatch e)

theorem serves_iff_accepts {o : Operation} {r : ResourceId} :
    o.Serves r ↔ o.accepts r = true :=
  ⟨fun h => accepts_iff.2 h.1,
    fun h => ⟨accepts_iff.1 h, fun b given version e => request_ne_mismatch h b given version e⟩⟩

/-! ### The two passes -/

theorem tagForId_eq_some_iff {os : List Operation} {r : ResourceId} {tag : String} :
    tagForId os r = some tag ↔
      ∃ m, os.find? (·.accepts r) = some m ∧ m.when.getLast? = some tag := by
  rw [tagForId, Option.bind_eq_some_iff]

/-- The last tag of an operation is one of its tags. -/
theorem contains_of_getLast? {o : Operation} {tag : String} (h : o.when.getLast? = some tag) :
    o.when.contains tag = true := by
  rw [List.contains_iff_mem]
  exact List.mem_of_getLast? h

end Operation

/-- Looking for the first element with `p` and then for the first with `q`, which the former also has,
ends at an element with `p` exactly when none before the former has `q`; and then it is the former. -/
theorem find?_then_find? {α : Type} (p q : α → Bool) {m o : α} (hq : q m = true) :
    ∀ {l : List α}, l.find? p = some m → l.find? q = some o →
      ((p o = true ↔ ∀ x ∈ l.takeWhile (fun x => !p x), q x = false) ∧
        (p o = true → o = m)) := by
  intro l
  induction l with
  | nil => intro hm; simp at hm
  | cons a l ih =>
      intro hm ho
      by_cases hpa : p a = true
      · -- the first pass stops here, so the second one does too
        rw [List.find?_cons_of_pos hpa] at hm
        obtain rfl := Option.some_inj.1 hm
        rw [List.find?_cons_of_pos hq] at ho
        obtain rfl := Option.some_inj.1 ho
        simp [hpa]
      · rw [List.find?_cons_of_neg hpa] at hm
        by_cases hqa : q a = true
        · rw [List.find?_cons_of_pos hqa] at ho
          obtain rfl := Option.some_inj.1 ho
          simp [hpa, hqa]
        · rw [List.find?_cons_of_neg hqa] at ho
          have hrest := ih hm ho
          simpa [List.takeWhile_cons, hpa, hqa] using hrest

namespace Command

theorem select_id_eq_ok_iff {c : Command} {cs : List Condition} (hc : c.conditions = some cs)
    {b : Bound} {r : ResourceId} {o : Operation} :
    c.select b (some r) = .ok o ↔
      ∃ tag, Operation.tagForId c.operations r = some tag ∧
        Operation.tagged c.operations tag = some o := by
  simp only [select, hc]
  rw [← Option.bind_eq_some_iff]
  cases h : (Operation.tagForId c.operations r).bind (Operation.tagged c.operations) with
  | none => simp
  | some o' => simp

/-- **When the selected operation is one for the identifier**: exactly when no operation before the
first one that the identifier fits carries that one's last tag. It is then that first one. -/
theorem serves_select_iff {c : Command} {cs : List Condition} (hc : c.conditions = some cs)
    {b : Bound} {r : ResourceId} {o : Operation} (h : c.select b (some r) = .ok o) :
    (o.Serves r ↔
        ∀ tag ∈ Operation.tagForId c.operations r,
          ∀ p ∈ c.operations.takeWhile (fun p => !p.accepts r), tag ∉ p.when) ∧
      (o.Serves r → c.operations.find? (·.accepts r) = some o) := by
  obtain ⟨tag, htag, htagged⟩ := (select_id_eq_ok_iff hc).1 h
  have ho : c.operations.find? (fun p => p.when.contains tag) = some o := htagged
  obtain ⟨m, hm, hlast⟩ := Operation.tagForId_eq_some_iff.1 htag
  have hq := Operation.contains_of_getLast? hlast
  obtain ⟨hiff, heq⟩ := find?_then_find? (fun p : Operation => p.accepts r)
    (fun p : Operation => p.when.contains tag) hq hm ho
  rw [Operation.serves_iff_accepts]
  refine ⟨?_, fun hacc => by rw [heq hacc]; exact hm⟩
  rw [hiff]
  constructor
  · intro hall tag' htag' p hp
    rw [htag] at htag'
    obtain rfl := Option.some_inj.1 htag'
    simpa using hall p hp
  · intro hall p hp
    simpa using hall tag htag p hp

/-! ### Two operations that share a tag -/

/-- A document of two operations, on the items of a thing and on the thing, with their tags. -/
def thingsDocument (onItems onThing : List String) : Json :=
  let condition (var arg : String) : Json :=
    .obj [("var", .str var), ("operator", .obj [("type", .str "hasValue"), ("arg", .str arg)])]
  let get (id path : String) (tags : List String) : Json :=
    .obj [("operationId", .str id), ("when", .arr (tags.map .str)),
      ("http", .obj [("path", .str path), ("request", .obj [("method", .str "get")])])]
  .obj [("conditions", .arr [condition "$A" "$a", condition "$B" "$b"]),
    ("operations", .arr [get "Items_List" "/things/\x7bname\x7d/items" onItems,
      get "Things_Get" "/things/\x7bname\x7d" onThing])]

/-- The command of the document. -/
def thingsCommand (onItems onThing : List String) : Command where
  conditions := some [⟨"$A", .hasValue "$a"⟩, ⟨"$B", .hasValue "$b"⟩]
  operations :=
    [{ operationId := some "Items_List", tags := some onItems,
       http := some { path := "/things/\x7bname\x7d/items", request := { method := "GET" } } },
     { operationId := some "Things_Get", tags := some onThing,
       http := some { path := "/things/\x7bname\x7d", request := { method := "GET" } } }]

/-- With tags of their own, an identifier of a thing selects the operation on the thing. -/
theorem serves_select_of_thing :
    ∃ o, (thingsCommand ["$A"] ["$B"]).select [] (some (.ofText "/things/x")) = .ok o ∧
      o.operationId = some "Things_Get" ∧ o.Serves (.ofText "/things/x") := by
  have h : (thingsCommand ["$A"] ["$B"]).select [] (some (.ofText "/things/x")) =
      .ok ((thingsCommand ["$A"] ["$B"]).operations[1]) :=
    (select_id_eq_ok_iff rfl).2 ⟨"$B", by decide +kernel, by rfl⟩
  refine ⟨_, h, rfl, (serves_select_iff rfl h).1.2 ?_⟩
  decide +kernel

/-- With a tag that the operation on the items carries as well, an identifier of a thing selects the
operation on the items, which is none for it. -/
theorem select_shared_tag_not_serves :
    ∃ j c o, Command.ofJson j = .valid c ∧ c.conditions.isSome = true ∧
      c.select [] (some (.ofText "/things/x")) = .ok o ∧ ¬ o.Serves (.ofText "/things/x") := by
  refine ⟨thingsDocument ["$A", "$B"] ["$A"], thingsCommand ["$A", "$B"] ["$A"],
    (thingsCommand ["$A", "$B"] ["$A"]).operations[0], by rfl, rfl,
    (select_id_eq_ok_iff rfl).2 ⟨"$A", by decide +kernel, by rfl⟩, ?_⟩
  rw [Operation.serves_iff_accepts]
  decide +kernel

end Command

end Restline
