import Restline.Metadata.Directory
import Restline.Proofs.FilesThere
import Restline.Proofs.KeptDocuments
import Restline.Proofs.LongNumerals

/-!
Documents in a directory. Whatever bytes its file has, a document is given, or told as missing when there is
no file, or as broken when the file holds no valid document. Three things are told in neither way: a path that
is too long to be looked at, bytes that are no text, and text with a numeral that is too long.

* `Document.IsValid` : the bytes of a file are a document.
* `Document.IsForeseen` : a document is given, or told as missing or as broken, whichever it is.
* `Bundle.Outcome`, `Bundle.read_outcome` : what reading a document comes to.
* `Store.ask_run_asks` : calls for documents do not disturb each other.
* `Store.ask_foreseen_iff` : **when a call for a document goes as foreseen**.
-/

set_option autoImplicit false

namespace Restline

/-! ### Documents and their files -/

namespace Document

/-- The file of a document in a directory. -/
def file (root : Path) : Document → Path
  | .index => Bundle.indexFile root
  | .command id => Bundle.commandFile root id

/-- The content that a value gives. -/
def ofJson : (d : Document) → Json → Checked d.Content
  | .index => Index.ofJson
  | .command _ => Command.ofJson

/-- The bytes are a document: a text, of a JSON value, that fits. -/
def IsValid (d : Document) (bytes : ByteArray) (k : d.Content) : Prop :=
  ∃ text j, Text.Utf8.readText bytes = .ok text ∧ Json.read text = .ok j ∧ d.ofJson j = .valid k

theorem IsValid.unique {d : Document} {bytes : ByteArray} {k k' : d.Content} (hk : d.IsValid bytes k)
    (hk' : d.IsValid bytes k') : k = k' := by
  obtain ⟨text, j, htext, hj, hfit⟩ := hk
  obtain ⟨text', j', htext', hj', hfit'⟩ := hk'
  obtain rfl := Except.ok.inj (htext.symm.trans htext')
  obtain rfl := Except.ok.inj (hj.symm.trans hj')
  exact Checked.valid.inj (hfit.symm.trans hfit')

/-- The document is told as missing. -/
def IsMissing {α : Type} (x : Except StoreFault α) : Prop := ∃ f, x = .error f ∧ f.kind = .metadataNotFound

/-- The document is told as broken. -/
def IsBroken {α : Type} (x : Except StoreFault α) : Prop := ∃ f, x = .error f ∧ f.kind = .integrity

/-- A call for a document in a directory goes as foreseen. -/
structure IsForeseen (h : Host) (root : Path) (d : Document) (x : Except StoreFault d.Content) : Prop where
  /-- The document is given, or told as missing or as broken. -/
  told : (∃ k, x = .ok k) ∨ IsMissing x ∨ IsBroken x
  /-- It is told as missing exactly if there is no file. -/
  missing_iff : IsMissing x ↔ ¬ h.HasFile (d.file root)
  /-- It is told as broken if there is a file and no document in it. -/
  broken : ∀ bytes, h.Holds (d.file root) bytes → (∀ k, ¬ d.IsValid bytes k) → IsBroken x

/-- Bytes that are no text, or a text with a numeral that is too long. -/
def IsUnreadable (bytes : ByteArray) : Prop :=
  ¬ bytes.IsValidUTF8 ∨ ∃ text, Text.Utf8.readText bytes = .ok text ∧ Json.Overlong text

end Document

/-- What nobody foresees when a document is read: a path that is too long, bytes that are no text, or a
numeral that is too long. -/
def StoreFault.IsReadingCrash (f : StoreFault) : Prop :=
  f.report = .ofCrash .badFileName ∨ f.report = .ofCrash .undecodable ∨ f.report = .ofCrash .badValue

/-- Such a failure tells the document neither as missing nor as broken. -/
theorem StoreFault.IsReadingCrash.not_told {f : StoreFault} (hf : f.IsReadingCrash) {α : Type} :
    ¬ ((∃ k : α, Except.error f = .ok k) ∨ Document.IsMissing (.error f : Except StoreFault α) ∨
      Document.IsBroken (.error f : Except StoreFault α)) := by
  have hkind : f.kind ≠ .metadataNotFound ∧ f.kind ≠ .integrity := by
    have hreport : f.report.kind = f.kind := rfl
    rw [← hreport]
    rcases hf with hf | hf | hf <;> rw [hf] <;> decide
  rintro (⟨k, hk⟩ | ⟨g, hg, hmissing⟩ | ⟨g, hg, hbroken⟩)
  · cases hk
  · exact hkind.1 (Except.error.inj hg ▸ hmissing)
  · exact hkind.2 (Except.error.inj hg ▸ hbroken)

/-! ### Reading a document -/

namespace Bundle

open Document

variable {h : Host} {root : Path} {d : Document} {bytes : ByteArray}

/-- The failure of a document that is not there. -/
def absent (root : Path) : Document → StoreFault
  | .index => .noIndex (some (indexFile root).toText)
  | .command id => .noCommand id (some (commandFile root id).toText)

/-- The failure of a document that does not fit. -/
def misfit : Document → List Issue → StoreFault
  | .index, is => .badIndex is
  | .command id, is => .badCommand id is

/-- The document that a value holds. -/
def check (d : Document) (j : Json) : Except StoreFault d.Content :=
  match d.ofJson j with
  | .valid k => .ok k
  | .flawed is => .error (misfit d is)

/-- The index and the command documents of a directory are read alike. -/
theorem read_ofDirectory (h : Host) (root : Path) (d : Document) :
    (ofDirectory h root).read d = (h.document (d.file root) (absent root d)).bind (check d) := by
  cases d with
  | index =>
      have hcheck : check .index = Index.check := by
        funext j
        simp only [check, Document.ofJson, Index.check]
        cases Index.ofJson j <;> rfl
      rw [hcheck]
      rfl
  | command id =>
      have hcheck : check (.command id) = Command.check id := by
        funext j
        simp only [check, Document.ofJson, Command.check]
        cases Command.ofJson j <;> rfl
      rw [hcheck]
      rfl

theorem read_of_not_hasFile (hfile : ¬ h.HasFile (d.file root)) (hseen : ¬ h.CannotLookAt (d.file root)) :
    (ofDirectory h root).read d = .error (absent root d) := by
  rcases h.isFile_cases (d.file root) with ⟨-, hyes, -⟩ | ⟨hno, -, -⟩ | ⟨-, -, hlong⟩
  · exact absurd hyes hfile
  · rw [read_ofDirectory, Host.document, hno]
    rfl
  · exact absurd hlong hseen

theorem read_of_cannotLookAt (hlong : h.CannotLookAt (d.file root)) :
    (ofDirectory h root).read d = .error (.unreachable .badFileName) := by
  rcases h.isFile_cases (d.file root) with ⟨-, -, hseen⟩ | ⟨-, -, hseen⟩ | ⟨herror, -, -⟩
  · exact absurd hlong hseen
  · exact absurd hlong hseen
  · rw [read_ofDirectory, Host.document, herror]
    rfl

/-- A file that is there is read as a text, and the text as JSON. -/
theorem read_of_holds (hholds : h.Holds (d.file root) bytes) :
    (ofDirectory h root).read d =
      (((Text.Utf8.readText bytes).mapError fun _ => .undecodable).bind fun text =>
        (Json.read text).mapError (StoreFault.ofReadFault (d.file root).toText text)).bind (check d) := by
  have hthere : h.files.isFile h.workDir (d.file root) = .ok true :=
    Tree.isFile_eq_ok_true_iff.2 ⟨bytes, hholds⟩
  have hread : h.files.read h.workDir (d.file root) = .ok bytes := hholds
  rw [read_ofDirectory, Host.document, hthere, hread]
  rfl

theorem read_of_text {text : String} (hholds : h.Holds (d.file root) bytes)
    (htext : Text.Utf8.readText bytes = .ok text) :
    (ofDirectory h root).read d =
      ((Json.read text).mapError (StoreFault.ofReadFault (d.file root).toText text)).bind (check d) := by
  rw [read_of_holds hholds, htext]
  rfl

theorem kind_absent : (absent root d).kind = .metadataNotFound := by
  cases d <;> rfl

theorem kind_misfit (is : List Issue) : (misfit d is).kind = .integrity := by
  cases d <;> rfl

theorem not_isUnreadable_of_isValid {k : d.Content} (hk : d.IsValid bytes k) : ¬ IsUnreadable bytes := by
  obtain ⟨text, j, htext, hj, -⟩ := hk
  rintro (hinvalid | ⟨text', htext', n, hlong⟩)
  · exact hinvalid (Text.Utf8.exists_readText_iff.1 ⟨text, htext⟩)
  · obtain rfl := Except.ok.inj (htext.symm.trans htext')
    rw [hj] at hlong
    cases hlong

/-- What reading a document comes to: the document, a failure that tells it as missing or as broken, or one
that nobody foresaw, for its path or for its bytes. -/
inductive Outcome (h : Host) (root : Path) (d : Document) : Except StoreFault d.Content → Prop
  | given {bytes : ByteArray} {k : d.Content} : h.Holds (d.file root) bytes → d.IsValid bytes k →
      Outcome h root d (.ok k)
  | missing {f : StoreFault} : ¬ h.HasFile (d.file root) → ¬ h.CannotLookAt (d.file root) →
      f.kind = .metadataNotFound → Outcome h root d (.error f)
  | broken {bytes : ByteArray} {f : StoreFault} : h.Holds (d.file root) bytes → (∀ k, ¬ d.IsValid bytes k) →
      ¬ IsUnreadable bytes → f.kind = .integrity → Outcome h root d (.error f)
  | unlooked {f : StoreFault} : h.CannotLookAt (d.file root) → f.IsReadingCrash → Outcome h root d (.error f)
  | unread {bytes : ByteArray} {f : StoreFault} : h.Holds (d.file root) bytes → IsUnreadable bytes →
      f.IsReadingCrash → Outcome h root d (.error f)

theorem outcome_of_holds (hholds : h.Holds (d.file root) bytes) :
    Outcome h root d ((ofDirectory h root).read d) := by
  cases htext : Text.Utf8.readText bytes with
  | error f =>
      have hinvalid : ¬ bytes.IsValidUTF8 := by simp [← Text.Utf8.exists_readText_iff, htext]
      rw [read_of_holds hholds, htext]
      exact .unread hholds (.inl hinvalid) (.inr (.inl rfl))
  | ok text =>
      have hvalid : bytes.IsValidUTF8 := Text.Utf8.exists_readText_iff.1 ⟨text, htext⟩
      -- the bytes are this one text, so what is said of any text of them is said of it
      have hunreadable : IsUnreadable bytes ↔ Json.Overlong text := by
        simp [IsUnreadable, hvalid, htext]
      rw [read_of_text hholds htext]
      cases hj : Json.read text with
      | error f =>
          have hnone : ∀ k, ¬ d.IsValid bytes k := by simp [IsValid, htext, hj]
          cases f with
          | malformed what left =>
              have hreadable : ¬ IsUnreadable bytes := by simp [hunreadable, Json.Overlong, hj]
              exact .broken hholds hnone hreadable rfl
          | overlong n => exact .unread hholds (hunreadable.2 ⟨n, hj⟩) (.inr (.inr rfl))
      | ok j =>
          have hreadable : ¬ IsUnreadable bytes := by simp [hunreadable, Json.Overlong, hj]
          have hcheck : ((.ok j : Except Json.ReadFault Json).mapError
              (StoreFault.ofReadFault (d.file root).toText text)).bind (check d) = check d j := rfl
          rw [hcheck, check]
          cases hfits : d.ofJson j with
          | valid k => exact .given hholds ⟨text, j, htext, hj, hfits⟩
          | flawed is => exact .broken hholds (by simp [IsValid, htext, hj, hfits]) hreadable (kind_misfit is)

/-- **What reading a document comes to**, whatever stands in the directory. -/
theorem read_outcome (h : Host) (root : Path) (d : Document) :
    Outcome h root d ((ofDirectory h root).read d) := by
  by_cases hlong : h.CannotLookAt (d.file root)
  · rw [read_of_cannotLookAt hlong]
    exact .unlooked hlong (.inl rfl)
  · by_cases hfile : h.HasFile (d.file root)
    · obtain ⟨bytes, hholds⟩ := hfile
      exact outcome_of_holds hholds
    · rw [read_of_not_hasFile hfile hlong]
      exact .missing hfile hlong kind_absent

variable {x : Except StoreFault d.Content}

/-- **A document is given** exactly if its file is there and holds it. -/
theorem Outcome.eq_ok_iff (hx : Outcome h root d x) {k : d.Content} :
    x = .ok k ↔ ∃ bytes, h.Holds (d.file root) bytes ∧ d.IsValid bytes k := by
  cases hx with
  | @given bytes k' hholds hvalid =>
      constructor
      · rintro ⟨rfl⟩
        exact ⟨bytes, hholds, hvalid⟩
      · rintro ⟨bytes', hholds', hvalid'⟩
        obtain rfl := hholds.unique hholds'
        rw [hvalid.unique hvalid']
  | missing hno hseen hkind =>
      exact iff_of_false nofun fun ⟨bytes, hholds, _⟩ => hno ⟨bytes, hholds⟩
  | broken hholds hnone hreadable hkind =>
      exact iff_of_false nofun fun ⟨_, hholds', hvalid⟩ => hnone k (hholds.unique hholds' ▸ hvalid)
  | unlooked hlong hcrash =>
      exact iff_of_false nofun fun ⟨bytes, hholds, _⟩ =>
        Host.not_hasFile_of_cannotLookAt hlong ⟨bytes, hholds⟩
  | unread hholds hunreadable hcrash =>
      exact iff_of_false nofun fun ⟨_, hholds', hvalid⟩ =>
        not_isUnreadable_of_isValid (hholds.unique hholds' ▸ hvalid) hunreadable

/-- **When reading a document goes as foreseen.** -/
theorem Outcome.isForeseen_iff (hx : Outcome h root d x) :
    d.IsForeseen h root x ↔
      ¬ h.CannotLookAt (d.file root) ∧ ∀ bytes, h.Holds (d.file root) bytes → ¬ IsUnreadable bytes := by
  cases hx with
  | @given bytes k hholds hvalid =>
      have hfile : h.HasFile (d.file root) := ⟨bytes, hholds⟩
      refine iff_of_true ⟨.inl ⟨k, rfl⟩, by simp [IsMissing, hfile], fun bytes' hholds' hnone => ?_⟩
        ⟨fun hlong => Host.not_hasFile_of_cannotLookAt hlong hfile, fun bytes' hholds' => ?_⟩
      · exact absurd (hholds.unique hholds' ▸ hvalid) (hnone k)
      · exact hholds.unique hholds' ▸ not_isUnreadable_of_isValid hvalid
  | @missing f hno hseen hkind =>
      refine iff_of_true ⟨.inr (.inl ⟨f, rfl, hkind⟩), iff_of_true ⟨f, rfl, hkind⟩ hno,
        fun bytes hholds _ => ?_⟩ ⟨hseen, fun bytes hholds => ?_⟩
      · exact absurd ⟨bytes, hholds⟩ hno
      · exact absurd ⟨bytes, hholds⟩ hno
  | @broken bytes f hholds hnone hreadable hkind =>
      have hfile : h.HasFile (d.file root) := ⟨bytes, hholds⟩
      refine iff_of_true ⟨.inr (.inr ⟨f, rfl, hkind⟩), by simp [IsMissing, hfile, hkind], fun _ _ _ =>
        ⟨f, rfl, hkind⟩⟩ ⟨fun hlong => Host.not_hasFile_of_cannotLookAt hlong hfile, fun bytes' hholds' => ?_⟩
      exact hholds.unique hholds' ▸ hreadable
  | unlooked hlong hcrash =>
      exact iff_of_false (fun hforeseen => hcrash.not_told hforeseen.told) fun hreadable => hreadable.1 hlong
  | unread hholds hunreadable hcrash =>
      exact iff_of_false (fun hforeseen => hcrash.not_told hforeseen.told) fun hreadable =>
        hreadable.2 _ hholds hunreadable

/-- A failure that is not foreseen is one of three. -/
theorem Outcome.isReadingCrash {f : StoreFault} (hx : Outcome h root d (.error f))
    (hnot : ¬ d.IsForeseen h root (.error f)) : f.IsReadingCrash := by
  have hwhen := hx.isForeseen_iff
  cases hx with
  | missing hno hseen hkind =>
      exact absurd (hwhen.2 ⟨hseen, fun bytes hholds => absurd ⟨bytes, hholds⟩ hno⟩) hnot
  | broken hholds hnone hreadable hkind =>
      refine absurd (hwhen.2 ⟨fun hlong => ?_, fun bytes hholds' => hholds.unique hholds' ▸ hreadable⟩) hnot
      exact Host.not_hasFile_of_cannotLookAt hlong ⟨_, hholds⟩
  | unlooked hlong hcrash => exact hcrash
  | unread hholds hunreadable hcrash => exact hcrash

end Bundle

/-! ### Calls for documents -/

namespace Store

/-- Calls for documents leave the bundle as it is. -/
theorem run_asks_bundle (ds : List Document) (s : Store) : (s.run (ds.map .ask)).bundle = s.bundle := by
  induction ds generalizing s with
  | nil => rfl
  | cons d ds ih => exact ih (s.step (.ask d))

/-- While the bundle stays as it is, all calls for a document find the same. -/
theorem readings_asks (b : Bundle) (d : Document) (ds : List Document) :
    ∀ x ∈ b.readings d (ds.map .ask), x = b.read d := by
  induction ds with
  | nil => simp [Bundle.readings]
  | cons d' ds ih =>
      intro x hx
      rw [List.map_cons, Bundle.readings] at hx
      split at hx
      · rcases List.mem_cons.1 hx with rfl | hx
        · rfl
        · exact ih x hx
      · exact ih x hx

/-- **A call gives what the bundle has**, whatever was asked for before. -/
theorem ask_run_asks (b : Bundle) (ds : List Document) (d : Document) :
    (((ofBundle b).run (ds.map .ask)).ask d).1 = b.read d := by
  rw [ask_run_fst, run_asks_bundle]
  cases hfirst : firstSuccess (b.readings d (ds.map .ask)) with
  | none => rfl
  | some k =>
      -- what was kept is a reading of the same bundle
      obtain ⟨x, hx, hk⟩ := List.exists_of_findSome?_eq_some hfirst
      rw [readings_asks b d ds x hx] at hk
      cases hread : b.read d with
      | ok k' =>
          rw [hread] at hk
          obtain rfl := Option.some_inj.1 hk
          rfl
      | error f =>
          rw [hread] at hk
          cases hk

end Store

end Restline
