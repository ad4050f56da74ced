import Restline.Config.Directory
import Restline.Proofs.HeldSettings
import Restline.Proofs.JsonText
import Restline.Proofs.Reading

/-!
Settings that are written and read again. What is written into a file of settings is one text in ASCII, with no
carriage return in it; so it is the same text when it is read, and the same value. A configuration is the one that
its members give, and so is a profile whose further members are members of an object and no fields.

* `Json.return_notMem_write` : no carriage return in the text of a value.
* `settingsOf?_jsonFileText` : **a value that is written into a file is read from it**.
* `Config.ofJson_toJson`, `Profile.ofJson_toJson` : settings come back from their members.
* `Config.settingsOf?_save`, `Profile.settingsOf?_save` : **what is kept is what is read again**.
-/

set_option autoImplicit false

namespace Restline

open Number (Binary64)

/-! ### Texts without carriage returns -/

namespace Json

theorem return_notMem_of_areDigits {ds : List Char} (h : AreDigits ds) : '\r' ∉ ds := fun hmem => by
  cases h _ hmem

theorem return_notMem_exponentText (x : ℤ) : '\r' ∉ Binary64.exponentText x := by
  obtain ⟨ds, -, hds, -, htext⟩ := exists_exponentText x
  rw [htext, List.mem_cons, List.mem_cons, not_or, not_or]
  refine ⟨by decide, ?_, return_notMem_of_areDigits hds⟩
  split <;> decide

theorem return_notMem_notated {ds : List Char} (h : '\r' ∉ ds) (p : ℤ) : '\r' ∉ Binary64.notated ds p := by
  have hzeros : ∀ n, '\r' ∉ List.replicate n '0' := fun n => return_notMem_of_areDigits (areDigits_zeros n)
  unfold Binary64.notated
  split
  · split
    · simp [hzeros, h]
    · dsimp only
      split
      · simp [hzeros, h]
      · have htake : '\r' ∉ ds.take p.toNat := fun hmem => h (List.mem_of_mem_take hmem)
        have hdrop : '\r' ∉ ds.drop p.toNat := fun hmem => h (List.mem_of_mem_drop hmem)
        simp [htake, hdrop]
  · split
    · exact h
    · rw [List.mem_cons, not_or] at h ⊢
      exact ⟨h.1, return_notMem_exponentText _⟩
    · rw [List.mem_cons, not_or] at h
      simp [h.1, h.2, return_notMem_exponentText]

theorem return_notMem_magnitudeText (m : ℕ) (e : ℤ) : '\r' ∉ Binary64.magnitudeText m e := by
  have hdrop : ∀ n, '\r' ∉ Binary64.dropZeros (Nat.toDigits 10 n) := fun n hmem => by
    rw [Binary64.dropZeros] at hmem
    split at hmem
    · revert hmem
      decide
    · rename_i r _
      have hall := return_notMem_of_areDigits (areDigits_toDigits n)
      refine hall ?_
      exact List.mem_reverse.1 (List.dropWhile_subset _ (List.mem_reverse.1 hmem))
  rw [Binary64.magnitudeText]
  split
  · decide
  · exact return_notMem_notated (hdrop _) _

theorem return_notMem_toText (x : Binary64) : '\r' ∉ (x.toText spelling).toList := by
  cases x with
  | nan => decide
  | infinity negative => cases negative <;> decide
  | finite negative m e =>
      have hmagnitude := return_notMem_magnitudeText m e
      cases negative <;> simp [Binary64.toText, hmagnitude]

theorem return_notMem_textOf (s : String) : '\r' ∉ (textOf prettyAscii.ascii s).toList := by
  have hunit : ∀ n, '\r' ∉ unitEscape n := fun n => by
    simp [unitEscape, Text.notMem_hexDigits (show ∀ k < 16, Text.hexDigit k ≠ '\r' by decide)]
  have hchar : ∀ c, '\r' ∉ textChar true c := fun c => by
    rw [textChar.eq_def]
    split
    · decide
    · decide
    · decide
    · decide
    · decide
    · decide
    · decide
    · rename_i hreturn _ _ _
      split
      · exact hunit _
      · split
        · rw [charEscape]
          split
          · exact hunit _
          · simp [hunit]
        · exact fun hmem => hreturn (List.mem_singleton.1 hmem).symm
  change '\r' ∉ (textOf true s).toList
  simp [textOf, hchar]

theorem return_notMem_lineBreak (depth : ℕ) : '\r' ∉ (prettyAscii.lineBreak depth).toList := by
  simp [Layout.lineBreak, prettyAscii]

/-- The separators have no carriage return in them. -/
theorem return_notMem_separators :
    '\r' ∉ prettyAscii.itemSeparator.toList ∧ '\r' ∉ prettyAscii.nameSeparator.toList := by decide

/-- Items in a row have none if their values have none. -/
theorem return_notMem_writeItems {depth : ℕ} {items : List Json}
    (h : ∀ j ∈ items, '\r' ∉ (writeAt prettyAscii depth j).toList) :
    '\r' ∉ (writeItems prettyAscii depth items).toList := by
  induction items with
  | nil => simp [writeItems]
  | cons j r ih =>
      have hrest := ih fun j hj => h j (List.mem_cons_of_mem _ hj)
      simp [writeItems, return_notMem_separators, return_notMem_lineBreak, h j List.mem_cons_self, hrest]

/-- Members in a row have none if their values have none. -/
theorem return_notMem_writeMembers {depth : ℕ} {ms : List (String × Json)}
    (h : ∀ e ∈ ms, '\r' ∉ (writeAt prettyAscii depth e.2).toList) :
    '\r' ∉ (writeMembers prettyAscii depth ms).toList := by
  induction ms with
  | nil => simp [writeMembers]
  | cons e r ih =>
      have hrest := ih fun e he => h e (List.mem_cons_of_mem _ he)
      simp [writeMembers, return_notMem_separators, return_notMem_textOf, return_notMem_lineBreak,
        h e List.mem_cons_self, hrest]

/-- No carriage return is written. -/
theorem return_notMem_writeAt (j : Json) : ∀ depth, '\r' ∉ (writeAt prettyAscii depth j).toList := by
  induction j using Json.induction with
  | null => exact fun _ => by simp [writeAt]
  | bool b => cases b <;> exact fun _ => by simp [writeAt]
  | int n =>
      intro depth
      have hdigits := return_notMem_of_areDigits (areDigits_toDigits n.natAbs)
      rw [writeAt, toList_toString_int, List.mem_append, not_or]
      refine ⟨?_, hdigits⟩
      split <;> decide
  | float x => exact fun _ => return_notMem_toText x
  | str s => exact fun _ => return_notMem_textOf s
  | arr items ih =>
      intro depth
      cases items with
      | nil => simp [writeAt]
      | cons j r =>
          have hrest : '\r' ∉ (writeItems prettyAscii (depth + 1) r).toList :=
            return_notMem_writeItems fun j hj => ih j (List.mem_cons_of_mem _ hj) _
          simp [writeAt, return_notMem_lineBreak, ih j List.mem_cons_self (depth + 1), hrest]
  | obj ms ih =>
      intro depth
      cases ms with
      | nil => simp [writeAt]
      | cons e r =>
          obtain ⟨k, j⟩ := e
          have hrest : '\r' ∉ (writeMembers prettyAscii (depth + 1) r).toList :=
            return_notMem_writeMembers fun e he => ih e (List.mem_cons_of_mem _ he) _
          simp [writeAt, return_notMem_lineBreak, return_notMem_separators, return_notMem_textOf,
            ih (k, j) List.mem_cons_self (depth + 1), hrest]

/-! ### Values that can be written -/

/-- No name comes twice in an object, and binary numbers are in the form in which they come out of rounding. -/
inductive Regular : Json → Prop
  | null : Regular .null
  | bool (b : Bool) : Regular (.bool b)
  | int (n : ℤ) : Regular (.int n)
  | float (x : Binary64) (canonical : x.IsCanonical) : Regular (.float x)
  | str (s : String) : Regular (.str s)
  | arr (items : List Json) (regular : ∀ j ∈ items, Regular j) : Regular (.arr items)
  | obj (ms : List (String × Json)) (nodup : (Keyed.keys ms).Nodup) (regular : ∀ e ∈ ms, Regular e.2) :
      Regular (.obj ms)

theorem allWritable_iff {items : List Json} : allWritable items = true ↔ ∀ j ∈ items, j.isWritable = true := by
  induction items with
  | nil => simp [allWritable]
  | cons j r ih => rw [allWritable, Bool.and_eq_true, ih, List.forall_mem_cons]

theorem membersWritable_iff {ms : List (String × Json)} :
    membersWritable ms = true ↔ ∀ e ∈ ms, e.2.isWritable = true := by
  induction ms with
  | nil => simp [membersWritable]
  | cons e r ih => rw [membersWritable, Bool.and_eq_true, ih, List.forall_mem_cons]

/-- A regular value without overlong whole numbers is proper. -/
theorem Regular.proper {j : Json} (hj : j.Regular) : j.isWritable = true → j.Proper := by
  induction hj with
  | null => exact fun _ => trivial
  | bool b => exact fun _ => trivial
  | int n =>
      intro hn
      rw [isWritable, decide_eq_true_eq] at hn
      rwa [Proper]
  | float x hx => exact fun _ => hx
  | str s => exact fun _ => trivial
  | arr items _ ih =>
      intro hwritable
      exact proper_arr.2 fun j hj => ih j hj (allWritable_iff.1 hwritable j hj)
  | obj ms hnodup _ ih =>
      intro hwritable
      exact proper_obj.2 ⟨hnodup, fun e he => ih e he (membersWritable_iff.1 hwritable e he)⟩

theorem itemsWithout_eq_self {items : List Json} (h : ∀ j ∈ items, j.withoutNonFinite = j) :
    itemsWithout items = items := by
  induction items with
  | nil => rfl
  | cons j r ih =>
      rw [itemsWithout, h j List.mem_cons_self, ih fun j hj => h j (List.mem_cons_of_mem _ hj)]

theorem membersWithout_eq_self {ms : List (String × Json)} (h : ∀ e ∈ ms, e.2.withoutNonFinite = e.2) :
    membersWithout ms = ms := by
  induction ms with
  | nil => rfl
  | cons e r ih =>
      rw [membersWithout, h e List.mem_cons_self, ih fun e he => h e (List.mem_cons_of_mem _ he)]

/-- Where all numbers are finite, there is nothing to replace. -/
theorem withoutNonFinite_of_isFinite {j : Json} : j.isFinite = true → j.withoutNonFinite = j := by
  induction j using Json.induction with
  | null => exact fun _ => rfl
  | bool b => exact fun _ => rfl
  | int n => exact fun _ => rfl
  | float x =>
      intro hx
      rw [isFinite] at hx
      rw [withoutNonFinite, if_pos hx]
  | str s => exact fun _ => rfl
  | arr items ih =>
      intro hfinite
      rw [isFinite] at hfinite
      rw [withoutNonFinite, itemsWithout_eq_self fun j hj => ih j hj (allFinite_iff.1 hfinite j hj)]
  | obj ms ih =>
      intro hfinite
      rw [isFinite] at hfinite
      rw [withoutNonFinite, membersWithout_eq_self fun e he => ih e he (membersFinite_iff.1 hfinite e he)]

theorem membersWithout_of_finite {ms : List (String × Json)} (h : membersFinite ms = true) :
    membersWithout ms = ms :=
  membersWithout_eq_self fun e he => withoutNonFinite_of_isFinite (membersFinite_iff.1 h e he)

end Json

/-! ### Bytes that are read again -/

namespace Text.Utf8

theorem lineFeeds_of_notMem {cs : List Char} (h : '\r' ∉ cs) : lineFeeds cs = cs := by
  fun_induction lineFeeds cs with
  | case1 r ih => simp at h
  | case2 r _ ih => simp at h
  | case3 c r _ _ ih => rw [ih fun hmem => h (List.mem_cons_of_mem _ hmem)]
  | case4 => rfl

/-- A text without a carriage return is read as it was written. -/
theorem readText_toUTF8 {s : String} (h : '\r' ∉ s.toList) : readText s.toUTF8 = .ok s := by
  have hdecode : decode s.toUTF8 = .ok s := by
    have hvalid : String.fromUTF8? s.toUTF8 = some s := by
      rw [String.fromUTF8?]
      exact dif_pos s.isValidUTF8
    rw [decode, hvalid]
  rw [readText, hdecode, Except.map, lineFeeds_of_notMem h, String.ofList_toList]

end Text.Utf8

/-- **A value that is written into a file is read from it.** -/
theorem settingsOf?_jsonFileText {α : Type} (read : Json → Checked α) {j : Json} (hj : j.Proper) :
    settingsOf? read (jsonFileText j).toUTF8 = (read j).toOption := by
  have hreturn : '\r' ∉ (jsonFileText j).toList := by
    simp [jsonFileText, Json.write, Json.return_notMem_writeAt]
  -- a line feed follows the value, which the reader takes for a gap
  have hread : Json.read (jsonFileText j) = .ok j := by
    have hgap : Json.AreGaps ['\n'] := by simp [Json.AreGaps, Json.isGap]
    have hchars := Json.read_write_gaps Json.Layout.isReadable_prettyAscii hj hgap
    rwa [Json.read, jsonFileText, String.toList_append]
  rw [settingsOf?, Text.Utf8.readText_toUTF8 hreturn]
  dsimp only
  rw [hread]

/-! ### Settings that come back -/

theorem Config.ofJson_toJson (c : Config) : Config.ofJson c.toJson = .valid c := by
  obtain ⟨name, select, path, format⟩ := c
  cases name <;> cases path <;> rfl

theorem Json.regular_ofText? (s : Option String) : (Json.ofText? s).Regular := by
  cases s with
  | none => exact .null
  | some s => exact .str s

theorem Config.regular_toJson (c : Config) : c.toJson.Regular := by
  refine .obj _ (by simp [Keyed.keys]) fun e he => ?_
  simp only [List.mem_cons, List.not_mem_nil, or_false] at he
  rcases he with rfl | rfl | rfl | rfl
  · exact Json.regular_ofText? _
  · exact .bool _
  · exact Json.regular_ofText? _
  · refine .obj _ (by simp [Keyed.keys]) fun e he => ?_
    obtain rfl := List.mem_singleton.1 he
    exact .str _

/-- **The configuration that is kept is the one that is read again.** -/
theorem Config.settingsOf?_save (c : Config) : settingsOf? ofJson (jsonFileText c.toJson).toUTF8 = some c := by
  have hwritable : c.toJson.isWritable = true := by
    obtain ⟨name, select, path, format⟩ := c
    cases name <;> cases path <;> rfl
  rw [settingsOf?_jsonFileText ofJson (c.regular_toJson.proper hwritable), ofJson_toJson]
  rfl

/-- Fields and members that are none of them are members of an object. -/
theorem Json.regular_append {known others : Keyed Json} (hknown : (Json.obj known).Regular)
    (hothers : (Json.obj others).Regular) (hdisjoint : ∀ name ∈ others.keys, name ∉ known.keys) :
    (Json.obj (known ++ others)).Regular := by
  cases hknown with
  | obj _ hnodup hregular =>
      cases hothers with
      | obj _ hnodup' hregular' =>
          refine .obj _ ?_ fun e he => ?_
          · rw [Keyed.keys, List.map_append]
            exact List.nodup_append.2 ⟨hnodup, hnodup', fun name hname name' hname' heq =>
              hdisjoint name' hname' (heq ▸ hname)⟩
          · rcases List.mem_append.1 he with he | he
            · exact hregular e he
            · exact hregular' e he

/-- Members that are no fields are left over behind the fields. -/
theorem unclaimed_append {known others : Keyed Json} {fields : List Field}
    (hgiven : fields.filterMap (fun f => f.given? (known ++ others)) = known.keys)
    (hothers : ∀ name ∈ others.keys, name ∉ known.keys) : unclaimed (known ++ others) fields = others := by
  have hknown : known.filter (fun m => !known.keys.contains m.1) = [] := by
    refine List.filter_eq_nil_iff.2 fun m hm => ?_
    simpa [Keyed.keys] using ⟨m.2, hm⟩
  have hrest : others.filter (fun m => !known.keys.contains m.1) = others := by
    refine List.filter_eq_self.2 fun m hm => ?_
    simpa using hothers m.1 (List.mem_map_of_mem hm)
  rw [unclaimed, hgiven, List.filter_append, hknown, hrest, List.nil_append]

/-- A field that was written where there is a value, and as null where there is none, is read as it was. -/
theorem optionalField_of_written {α : Type} {ms : Keyed Json} {f : Field} {read : Json → Checked α}
    {write : α → Json} {value : Option α} (hvalue : f.value? ms = some ((value.map write).getD .null))
    (hread : ∀ a, value = some a → read (write a) = .valid a ∧ write a ≠ .null) :
    optionalField ms f read = .valid value := by
  rw [optionalField, hvalue]
  cases value with
  | none => rfl
  | some a =>
      obtain ⟨ha, hnull⟩ := hread a rfl
      rw [Option.map_some, Option.getD_some]
      split
      · rename_i hnone
        cases hnone
      · rename_i hnone
        exact absurd (Option.some_inj.1 hnone) hnull
      · rename_i j _ hj
        rw [← Option.some_inj.1 hj, ha]
        rfl

namespace Credential

/-- The further members are members of an object, and none of them is a field. -/
structure IsRegular (c : Credential) : Prop where
  others : (Json.obj c.others).Regular
  noField : ∀ name ∈ c.others.keys, name ∉ fields.map Field.name

/-- The fields as members. -/
def known (c : Credential) : Keyed Json := [("type", .str c.type), ("source", .str c.source)]

theorem toJson_eq {c : Credential} (hfinite : Json.membersFinite c.others = true) :
    c.toJson = .obj (c.known ++ c.others) := by
  rw [toJson, Json.membersWithout_of_finite hfinite]
  rfl

theorem ofJson_toJson {c : Credential} (hc : c.IsRegular) (hfinite : Json.membersFinite c.others = true) :
    ofJson c.toJson = .valid c := by
  have htype : fieldOr (c.known ++ c.others) (.plain "type") "bearer" Checked.text = .valid c.type := rfl
  have hsource : fieldOr (c.known ++ c.others) (.plain "source") "env:AZURE_ACCESS_TOKEN" Checked.text =
      .valid c.source := rfl
  have hothers : unclaimed (c.known ++ c.others) fields = c.others := unclaimed_append rfl hc.noField
  rw [toJson_eq hfinite, ofJson, Checked.record, htype, hsource, hothers]
  rfl

theorem regular_toJson {c : Credential} (hc : c.IsRegular) (hfinite : Json.membersFinite c.others = true) :
    c.toJson.Regular := by
  have hknown : (Json.obj c.known).Regular := by
    refine .obj _ (by simp [Keyed.keys, known]) fun e he => ?_
    simp only [known, List.mem_cons, List.not_mem_nil, or_false] at he
    rcases he with rfl | rfl <;> exact .str _
  rw [toJson_eq hfinite]
  exact Json.regular_append hknown hc.others hc.noField

end Credential

namespace Profile

/-- The further members are members of an object, and none of them is a field; so are those of the section on
authorization. -/
structure IsRegular (p : Profile) : Prop where
  others : (Json.obj p.others).Regular
  noField : ∀ name ∈ p.others.keys, name ∉ fields.map Field.name
  credential : ∀ c, p.credential = some c → c.IsRegular

/-- Every number in a profile is finite. -/
structure IsFinite (p : Profile) : Prop where
  others : Json.membersFinite p.others = true
  credential : ∀ c, p.credential = some c → Json.membersFinite c.others = true

/-- The fields as members. -/
def known (p : Profile) : Keyed Json :=
  [("name", .str p.name), ("endpoint", .str p.endpoint), ("metadata_path", Json.ofText? p.metadataPath),
    ("auth", (p.credential.map Credential.toJson).getD .null), ("request", p.limits.toJson)]

theorem toJson_eq {p : Profile} (hfinite : p.IsFinite) : p.toJson = .obj (p.known ++ p.others) := by
  rw [toJson, Json.membersWithout_of_finite hfinite.others]
  rfl

theorem ofJson_toJson {p : Profile} (hp : p.IsRegular) (hfinite : p.IsFinite) : ofJson p.toJson = .valid p := by
  have hname : requiredField (p.known ++ p.others) (.plain "name") Checked.text = .valid p.name := rfl
  have hendpoint : fieldOr (p.known ++ p.others) (.plain "endpoint") defaultEndpoint Checked.text =
      .valid p.endpoint := rfl
  have hpath : optionalField (p.known ++ p.others) (.plain "metadata_path") Checked.text =
      .valid p.metadataPath := by
    have hvalue : (Field.plain "metadata_path").value? (p.known ++ p.others) =
        some ((p.metadataPath.map Json.str).getD .null) := by
      change some (Json.ofText? p.metadataPath) = _
      cases p.metadataPath <;> rfl
    exact optionalField_of_written hvalue fun s _ => ⟨rfl, by simp⟩
  have hcredential : credentialField (p.known ++ p.others) = .valid p.credential := by
    have hvalue : (Field.plain "auth").value? (p.known ++ p.others) =
        some ((p.credential.map Credential.toJson).getD .null) := rfl
    rw [credentialField, hvalue]
    refine optionalField_of_written hvalue fun c hc => ⟨?_, by simp [Credential.toJson]⟩
    exact Credential.ofJson_toJson (hp.credential c hc) (hfinite.credential c hc)
  have hlimits : fieldOr (p.known ++ p.others) (.plain "request") {} RequestLimits.ofJson = .valid p.limits := rfl
  have hothers : unclaimed (p.known ++ p.others) fields = p.others := unclaimed_append rfl hp.noField
  rw [toJson_eq hfinite, ofJson, Checked.record, hname, hendpoint, hpath, hcredential, hlimits, hothers]
  rfl

theorem regular_toJson {p : Profile} (hp : p.IsRegular) (hfinite : p.IsFinite) : p.toJson.Regular := by
  have hcredential : ((p.credential.map Credential.toJson).getD .null).Regular := by
    cases hcredential : p.credential with
    | none => exact .null
    | some c => exact Credential.regular_toJson (hp.credential c hcredential) (hfinite.credential c hcredential)
  have hlimits : p.limits.toJson.Regular := by
    refine .obj _ (by simp [Keyed.keys]) fun e he => ?_
    simp only [List.mem_cons, List.not_mem_nil, or_false] at he
    rcases he with rfl | rfl | rfl
    · exact .int _
    · exact .bool _
    · exact .int _
  have hknown : (Json.obj p.known).Regular := by
    refine .obj _ (by simp [Keyed.keys, known]) fun e he => ?_
    simp only [known, List.mem_cons, List.not_mem_nil, or_false] at he
    rcases he with rfl | rfl | rfl | rfl | rfl
    · exact .str _
    · exact .str _
    · exact Json.regular_ofText? _
    · exact hcredential
    · exact hlimits
  rw [toJson_eq hfinite]
  exact Json.regular_append hknown hp.others hp.noField

/-- **The profile that is kept is the one that is read again**, field by field and with all further members. -/
theorem settingsOf?_save {p : Profile} (hp : p.IsRegular) (hfinite : p.IsFinite)
    (hwritable : p.toJson.isWritable = true) : settingsOf? ofJson (jsonFileText p.toJson).toUTF8 = some p := by
  rw [settingsOf?_jsonFileText ofJson ((regular_toJson hp hfinite).proper hwritable), ofJson_toJson hp hfinite]
  rfl

end Profile

end Restline
