import Restline.Proofs.Reading
import Restline.Proofs.Selection

/-!
Whether an identifier selects an operation. A command with conditions was read only if each of its
operations names one of them. So the first operation whose template the identifier fits has a last tag, and
the second pass finds some operation with it; what is bound plays no part, and neither does anything about
the identifier that its segments in upper case do not show.

* `ResourceId.fits_congr` : identifiers with the same segments in upper case fit the same templates.
* `Command.exists_select_id_iff` : an operation is selected when some operation accepts the identifier.
* `Command.select_id_iff_served` : **when an identifier selects an operation, and on what that depends**.
-/

set_option autoImplicit false

namespace Restline

/-! ### Identifiers alike -/

namespace ResourceId

/-- Identifiers are alike up to letter case and slashes at the end. -/
def Alike (s t : String) : Prop :=
  Text.withoutTrailing '/' (Text.upper s) = Text.withoutTrailing '/' (Text.upper t)

instance (s t : String) : Decidable (Alike s t) := by
  unfold Alike
  infer_instance

theorem Alike.segments_eq {s t : String} (h : Alike s t) :
    (ofText s).segments = (ofText t).segments := by
  rw [Alike, Text.withoutTrailing_upper, Text.withoutTrailing_upper] at h
  rw [segments, segments, ofText, ofText, h]

/-- Identifiers with the same segments in upper case fit the same templates. -/
theorem fits_congr {r r' : ResourceId} (h : r.segments = r'.segments) (template : String)
    (method : Option String) : r.fits template method = r'.fits template method := by
  rw [fits, fits, check, check, h]

end ResourceId

namespace Operation

theorem accepts_congr {r r' : ResourceId} (h : r.segments = r'.segments) (o : Operation) :
    o.accepts r = o.accepts r' := by
  simp only [accepts, ResourceId.fits_congr h]

theorem tagForId_congr {r r' : ResourceId} (h : r.segments = r'.segments) (os : List Operation) :
    tagForId os r = tagForId os r' := by
  simp only [tagForId, accepts_congr h]

/-- With tags on every operation, one that accepts the identifier gives a tag, and some operation has it. -/
theorem exists_tagged {os : List Operation} {r : ResourceId} (htags : ∀ o ∈ os, o.when ≠ [])
    (h : ∃ o ∈ os, o.accepts r = true) :
    ∃ tag o, tagForId os r = some tag ∧ tagged os tag = some o := by
  obtain ⟨m, hm⟩ := Option.isSome_iff_exists.1 (List.find?_isSome.2 h)
  have hmem := List.mem_of_find?_eq_some hm
  obtain ⟨tag, hlast⟩ := Option.isSome_iff_exists.1 (List.getLast?_isSome.2 (htags m hmem))
  have htag : tagForId os r = some tag := tagForId_eq_some_iff.2 ⟨m, hm, hlast⟩
  -- the operation that gave the tag has it, so the second pass does not come to the end
  have hsecond : (tagged os tag).isSome :=
    List.find?_isSome.2 ⟨m, hmem, contains_of_getLast? hlast⟩
  obtain ⟨o, ho⟩ := Option.isSome_iff_exists.1 hsecond
  exact ⟨tag, o, htag, ho⟩

end Operation

namespace Command

/-! ### Whether an operation is selected -/

variable {c : Command} {cs : List Condition}

/-- What is bound plays no part when an identifier selects. -/
theorem select_id_congr (hc : c.conditions = some cs) {r r' : ResourceId}
    (h : r.segments = r'.segments) (b b' : Bound) :
    c.select b (some r) = c.select b' (some r') := by
  simp only [select, hc, Operation.tagForId_congr h]

theorem exists_select_id_iff (hc : c.conditions = some cs) (htags : ∀ o ∈ c.operations, o.when ≠ [])
    {b : Bound} {r : ResourceId} :
    (∃ o, c.select b (some r) = .ok o) ↔ ∃ o ∈ c.operations, o.accepts r = true := by
  constructor
  · rintro ⟨o, ho⟩
    obtain ⟨tag, htag, -⟩ := (select_id_eq_ok_iff hc).1 ho
    obtain ⟨m, hm, -⟩ := Operation.tagForId_eq_some_iff.1 htag
    exact ⟨m, List.mem_of_find?_eq_some hm, by simpa using List.find?_some hm⟩
  · intro h
    obtain ⟨tag, o, htag, ho⟩ := Operation.exists_tagged htags h
    exact ⟨o, (select_id_eq_ok_iff hc).2 ⟨tag, htag, ho⟩⟩

/-- With conditions there is one way to select nothing. -/
theorem select_eq_undetermined (hc : c.conditions = some cs) {b : Bound} {r : Option ResourceId}
    {e : SelectFault} (h : c.select b r = .error e) : e = .undetermined := by
  rw [select, hc] at h
  dsimp only at h
  split at h
  · cases h
  · exact (Except.error.inj h).symm

/-- **When an identifier selects an operation, and on what that depends.** It does exactly when it fits the
template of some operation that can be called; else no operation is found. The selection is the same
whatever is bound, and for all identifiers that are alike up to letter case and slashes at the end. -/
theorem select_id_iff_served {j : Json} (hj : ofJson j = .valid c) (hc : c.conditions = some cs)
    (b : Bound) (s : String) :
    ((∃ o, c.select b (some (.ofText s)) = .ok o) ↔
        ∃ o ∈ c.operations, ∃ h, o.http = some h ∧
          (ResourceId.ofText s).fits h.path (some h.request.method) = true) ∧
      ((¬ ∃ o ∈ c.operations, ∃ h, o.http = some h ∧
          (ResourceId.ofText s).fits h.path (some h.request.method) = true) →
        ∃ e, c.select b (some (.ofText s)) = .error e ∧ e.report.kind = .operationNotFound) ∧
      ∀ b' t, ResourceId.Alike s t →
        c.select b' (some (.ofText t)) = c.select b (some (.ofText s)) := by
  have hselected : (∃ o, c.select b (some (.ofText s)) = .ok o) ↔
      ∃ o ∈ c.operations, ∃ h, o.http = some h ∧
        (ResourceId.ofText s).fits h.path (some h.request.method) = true := by
    rw [exists_select_id_iff hc fun o => when_ne_nil_of_ofJson hj hc]
    simp only [Operation.accepts_iff]
  refine ⟨hselected, fun hnone => ?_, fun b' t halike => ?_⟩
  · cases hselect : c.select b (some (.ofText s)) with
    | ok o => exact absurd (hselected.1 ⟨o, hselect⟩) hnone
    | error e =>
        obtain rfl := select_eq_undetermined hc hselect
        exact ⟨_, rfl, rfl⟩
  · exact (select_id_congr hc halike.segments_eq b b').symm

/-- Of the operations on the items of a thing and on the thing, an identifier of a thing selects one, also
in capitals, with slashes at the end and with an argument bound; an identifier of something else selects
none. -/
theorem select_id_of_things :
    ∃ j c, ofJson j = .valid c ∧ c.conditions.isSome = true ∧
      (∃ o, c.select [] (some (.ofText "/things/x")) = .ok o) ∧
      c.select [("$a", .int 1)] (some (.ofText "/THINGS/X//")) =
        c.select [] (some (.ofText "/things/x")) ∧
      ∃ e, c.select [] (some (.ofText "/parts/x")) = .error e ∧ e.report.kind = .operationNotFound := by
  have hj : ofJson (thingsDocument ["$A"] ["$B"]) = .valid (thingsCommand ["$A"] ["$B"]) := by rfl
  refine ⟨_, _, hj, rfl, ?_, ?_, ?_⟩
  · refine (select_id_iff_served hj rfl [] "/things/x").1.2 ?_
    exact ⟨(thingsCommand ["$A"] ["$B"]).operations[1], by simp, _, rfl, by decide +kernel⟩
  · exact (select_id_iff_served hj rfl [] "/things/x").2.2 _ "/THINGS/X//" (by decide +kernel)
  · refine (select_id_iff_served hj rfl [] "/parts/x").2.1 ?_
    rintro ⟨o, ho, h, hh, hfits⟩
    rcases List.mem_cons.1 ho with rfl | ho
    · obtain rfl := Option.some_inj.1 hh
      revert hfits
      decide +kernel
    · obtain rfl := List.mem_singleton.1 ho
      obtain rfl := Option.some_inj.1 hh
      revert hfits
      decide +kernel

end Command

end Restline
