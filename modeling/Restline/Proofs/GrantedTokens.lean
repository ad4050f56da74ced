import Mathlib.Data.List.DropRight
import Restline.Auth
import Restline.Proofs.FilesThere

/-!
Tokens that are granted. A profile says where its token comes from: a variable, a file or the keyboard. Asking
for it grants a token that is not empty, or fails to authorize; only a file escapes this, when its home
directory is not known, its path is too long to be looked at, or its bytes are no text.

* `Origin`, `Origin.Supplies`, `Origin.IsUnreadable` : where a secret comes from, and what it is there.
* `secret_cases` : **what asking for a secret comes to**.
* `Grant.Outcome`, `Registry.authorize_outcome` : what authorizing a profile comes to.
* `Grant.IsForeseen`, `Registry.authorize_foreseen_iff` : **when that goes as foreseen**, and which token is
  granted.
-/

set_option autoImplicit false

namespace Restline

/-! ### Trimmed texts -/

namespace Text

/-- A list that was trimmed has nothing left to trim. -/
theorem trimBoth_trimBoth (p : Char → Bool) (cs : List Char) :
    trimBoth p (trimBoth p cs) = trimBoth p cs := by
  have hback : ∀ cs, trimBoth p cs = (cs.dropWhile p).rdropWhile p := fun _ => rfl
  -- the back is trimmed after the front, and leaves the first character where it is
  have hfront : (trimBoth p cs).dropWhile p = trimBoth p cs := by
    rw [List.dropWhile_eq_self_iff]
    intro hpos
    have hstart : trimBoth p cs <+: cs.dropWhile p := List.rdropWhile_prefix p _
    rw [hstart.getElem hpos]
    exact List.dropWhile_get_zero_not p cs _
  rw [hback (trimBoth p cs), hfront, hback cs]
  exact List.rdropWhile_idempotent p _

theorem trim_trim (s : String) : trim (trim s) = trim s := by
  rw [trim, trim, String.toList_ofList, trimBoth_trimBoth]

end Text

/-! ### Where secrets come from -/

/-- Where a secret comes from. -/
inductive Origin
  | env (name : String)
  | file (name : String)
  | keyboard
  | unknown
deriving DecidableEq, Repr

namespace Origin

/-- What a source in words stands for. -/
def ofText (source : String) : Origin :=
  match after? "env:" source, after? "file:" source with
  | some name, _ => .env name
  | none, some name => .file name
  | none, none => if source = "prompt" then .keyboard else .unknown

/-- The host has this secret there, blanks around it included. -/
def Supplies (h : Host) (s : String) : Origin → Prop
  | .env name => h.env.get? name = some s
  | .file name => ∃ p bytes, h.expand (Path.ofText name) = .ok p ∧ h.Holds p bytes ∧
      Text.Utf8.readText bytes = .ok s
  | .keyboard => h.typed = some s
  | .unknown => False

/-- A file whose home directory is not known, that cannot be looked at, or that holds no text. -/
def IsUnreadable (h : Host) : Origin → Prop
  | .file name => h.expand (Path.ofText name) = .error Host.noHome ∨
      ∃ p, h.expand (Path.ofText name) = .ok p ∧
        (h.CannotLookAt p ∨ ∃ bytes, h.Holds p bytes ∧ ¬ bytes.IsValidUTF8)
  | _ => False

/-- An origin supplies one secret at most. -/
theorem Supplies.unique {h : Host} {s s' : String} {o : Origin} (hs : o.Supplies h s)
    (hs' : o.Supplies h s') : s = s' := by
  cases o with
  | env name => exact Option.some_inj.1 (hs.symm.trans hs')
  | file name =>
      obtain ⟨p, bytes, hplace, hholds, htext⟩ := hs
      obtain ⟨p', bytes', hplace', hholds', htext'⟩ := hs'
      obtain rfl := Except.ok.inj (hplace.symm.trans hplace')
      obtain rfl := hholds.unique hholds'
      exact Except.ok.inj (htext.symm.trans htext')
  | keyboard => exact Option.some_inj.1 (hs.symm.trans hs')
  | unknown => exact hs.elim

end Origin

/-- What nobody foresees when a file is read: no home directory, a path that is too long, bytes that are no
text. -/
def Fault.IsReadingCrash (f : Fault) : Prop :=
  f = .ofCrash .noHome ∨ f = .ofCrash .badFileName ∨ f = .ofCrash .undecodable

theorem Fault.IsReadingCrash.kind_ne_auth {f : Fault} (hf : f.IsReadingCrash) : f.kind ≠ .auth := by
  rcases hf with rfl | rfl | rfl <;> decide

/-! ### Asking for a secret -/

section Secrets

variable {h : Host}

/-- What asking for a secret comes to: the secret without the blanks around it, a failure of the configuration
where there is none, or a file that cannot be read. -/
inductive SecretOutcome (h : Host) (o : Origin) : Except Fault String → Prop
  | found {s t : String} : o.Supplies h s → Text.trim t = Text.trim s → ¬ o.IsUnreadable h →
      SecretOutcome h o (.ok t)
  | absent {f : Fault} : f.kind = .config → (∀ s, ¬ o.Supplies h s) → ¬ o.IsUnreadable h →
      SecretOutcome h o (.error f)
  | unreadable {f : Fault} : f.IsReadingCrash → (∀ s, ¬ o.Supplies h s) → o.IsUnreadable h →
      SecretOutcome h o (.error f)

/-- A secret that is there or not, and needs no file. -/
theorem SecretOutcome.of_option {o : Origin} {x : Option String} {f : Fault} {y : Except Fault String}
    (hy : y = match x with | some s => .ok s | none => .error f) (hf : f.kind = .config)
    (hsupplies : ∀ s, o.Supplies h s ↔ x = some s) (hreadable : ¬ o.IsUnreadable h) :
    SecretOutcome h o y := by
  cases x with
  | none => exact hy ▸ .absent hf (by simp [hsupplies]) hreadable
  | some s => exact hy ▸ .found ((hsupplies s).2 rfl) rfl hreadable

theorem secretOfVariable_cases (h : Host) (source name : String) :
    SecretOutcome h (.env name) (secretOfVariable h source name) :=
  .of_option rfl rfl (fun _ => Iff.rfl) id

theorem typedSecret_cases (h : Host) : SecretOutcome h .keyboard (typedSecret h) :=
  .of_option rfl rfl (fun _ => Iff.rfl) id

/-- A file whose place is known supplies its text. -/
theorem supplies_file_iff {name s : String} {p : Path} (hplace : h.expand (Path.ofText name) = .ok p) :
    (Origin.file name).Supplies h s ↔ ∃ bytes, h.Holds p bytes ∧ Text.Utf8.readText bytes = .ok s := by
  simp [Origin.Supplies, hplace]

theorem isUnreadable_file_iff {name : String} {p : Path} (hplace : h.expand (Path.ofText name) = .ok p) :
    (Origin.file name).IsUnreadable h ↔
      h.CannotLookAt p ∨ ∃ bytes, h.Holds p bytes ∧ ¬ bytes.IsValidUTF8 := by
  simp [Origin.IsUnreadable, hplace]

/-- A file that is there gives its text, if it has one. -/
theorem secretOfFile_of_holds {source name : String} {p : Path} {bytes : ByteArray}
    (hplace : h.expand (Path.ofText name) = .ok p) (hholds : h.Holds p bytes) :
    SecretOutcome h (.file name) (secretOfFile h source name) := by
  have hthere : h.isFile p = .ok true := Host.isFile_of_hasFile ⟨bytes, hholds⟩
  have hread := Host.readText_of_holds hholds
  have hseen : ¬ h.CannotLookAt p := fun hlong => Host.not_hasFile_of_cannotLookAt hlong ⟨bytes, hholds⟩
  -- the file holds these bytes and no others
  have hbytes : ∀ P : ByteArray → Prop, (∃ bytes', h.Holds p bytes' ∧ P bytes') ↔ P bytes := fun P =>
    ⟨fun ⟨_, hholds', hP⟩ => hholds.unique hholds' ▸ hP, fun hP => ⟨bytes, hholds, hP⟩⟩
  have hsupplies : ∀ s, (Origin.file name).Supplies h s ↔ Text.Utf8.readText bytes = .ok s := fun s => by
    rw [supplies_file_iff hplace, hbytes]
  have hunreadable : (Origin.file name).IsUnreadable h ↔ ¬ bytes.IsValidUTF8 := by
    rw [isUnreadable_file_iff hplace, or_iff_right hseen, hbytes]
  cases htext : Text.Utf8.readText bytes with
  | ok text =>
      have hvalid : bytes.IsValidUTF8 := Text.Utf8.exists_readText_iff.1 ⟨text, htext⟩
      have hsecret : secretOfFile h source name = .ok (Text.trim text) := by
        simp [secretOfFile, hplace, hthere, hread, htext]
      rw [hsecret]
      exact .found ((hsupplies text).2 htext) (Text.trim_trim text) (by simp [hunreadable, hvalid])
  | error f =>
      have hinvalid : ¬ bytes.IsValidUTF8 := by simp [← Text.Utf8.exists_readText_iff, htext]
      have hsecret : secretOfFile h source name = .error (.ofCrash .undecodable) := by
        simp [secretOfFile, hplace, hthere, hread, htext]
      rw [hsecret]
      exact .unreadable (.inr (.inr rfl)) (by simp [hsupplies, htext]) (hunreadable.2 hinvalid)

theorem secretOfFile_cases (h : Host) (source name : String) :
    SecretOutcome h (.file name) (secretOfFile h source name) := by
  cases hplace : h.expand (Path.ofText name) with
  | error f =>
      obtain rfl := expand_eq_error hplace
      rw [secretOfFile, hplace]
      exact .unreadable (.inl rfl) (by simp [Origin.Supplies, hplace]) (.inl hplace)
  | ok p =>
      by_cases hfile : h.HasFile p
      · obtain ⟨bytes, hholds⟩ := hfile
        exact secretOfFile_of_holds hplace hholds
      · have hnone : ∀ s, ¬ (Origin.file name).Supplies h s := by
          intro s hs
          obtain ⟨bytes, hholds, -⟩ := (supplies_file_iff hplace).1 hs
          exact hfile ⟨bytes, hholds⟩
        by_cases hlong : h.CannotLookAt p
        · have hsecret : secretOfFile h source name = .error (.ofCrash .badFileName) := by
            simp [secretOfFile, hplace, Host.isFile_of_cannotLookAt hlong]
          rw [hsecret]
          exact .unreadable (.inr (.inl rfl)) hnone ((isUnreadable_file_iff hplace).2 (.inl hlong))
        · have hreadable : ¬ (Origin.file name).IsUnreadable h := by
            rw [isUnreadable_file_iff hplace]
            rintro (hlong' | ⟨bytes, hholds, -⟩)
            · exact hlong hlong'
            · exact hfile ⟨bytes, hholds⟩
          have hsecret : secretOfFile h source name =
              .error (configFault ("Credential file not found: " ++ p.toText ++ sourceNote source) []) := by
            simp [secretOfFile, hplace, Host.isFile_of_not_hasFile hfile hlong, throw, throwThe,
              MonadExceptOf.throw]
          rw [hsecret]
          exact .absent rfl hnone hreadable

/-- **What asking for a secret comes to**, whatever the source says and whatever the host has. -/
theorem secret_cases (h : Host) (source : String) : SecretOutcome h (.ofText source) (secret h source) := by
  rw [secret, Origin.ofText]
  cases after? "env:" source with
  | some name => exact secretOfVariable_cases h source name
  | none =>
      cases after? "file:" source with
      | some name => exact secretOfFile_cases h source name
      | none =>
          dsimp only
          split
          · exact typedSecret_cases h
          · exact .absent rfl (fun s => id) id

end Secrets

/-! ### Authorizing a profile -/

namespace Grant

/-- The grant of a token. -/
def ofToken (token : String) : Grant := { fields := [("Authorization", "Bearer " ++ token)] }

/-- A token that is not empty is granted, or it is told that authorizing failed. -/
def IsForeseen (x : Except Fault Grant) : Prop :=
  (∃ token, token ≠ "" ∧ x = .ok (ofToken token)) ∨ ∃ f, x = .error f ∧ f.kind = .auth

/-- What authorizing comes to: the token that the origin supplies, a failure to authorize where it supplies
none or an empty one, or a file that cannot be read. -/
inductive Outcome (h : Host) (o : Origin) : Except Fault Grant → Prop
  | granted {s : String} : o.Supplies h s → Text.trim s ≠ "" → ¬ o.IsUnreadable h →
      Outcome h o (.ok (ofToken (Text.trim s)))
  | refused {f : Fault} : f.kind = .auth → (∀ s, o.Supplies h s → Text.trim s = "") → ¬ o.IsUnreadable h →
      Outcome h o (.error f)
  | unread {f : Fault} : f.IsReadingCrash → (∀ s, ¬ o.Supplies h s) → o.IsUnreadable h →
      Outcome h o (.error f)

theorem not_isForeseen_of_isReadingCrash {f : Fault} (hf : f.IsReadingCrash) : ¬ IsForeseen (.error f) := by
  rintro (⟨token, -, hok⟩ | ⟨f', herror, hkind⟩)
  · cases hok
  · exact hf.kind_ne_auth (Except.error.inj herror ▸ hkind)

variable {h : Host} {o : Origin} {x : Except Fault Grant}

theorem Outcome.isForeseen_iff (hx : Outcome h o x) : IsForeseen x ↔ ¬ o.IsUnreadable h := by
  cases hx with
  | granted hs htoken hreadable => exact iff_of_true (.inl ⟨_, htoken, rfl⟩) hreadable
  | refused hkind hempty hreadable => exact iff_of_true (.inr ⟨_, rfl, hkind⟩) hreadable
  | unread hcrash hnone hunreadable =>
      exact iff_of_false (not_isForeseen_of_isReadingCrash hcrash) (not_not.2 hunreadable)

theorem Outcome.eq_ok_iff (hx : Outcome h o x) {g : Grant} :
    x = .ok g ↔ ∃ s, o.Supplies h s ∧ Text.trim s ≠ "" ∧ g = ofToken (Text.trim s) := by
  cases hx with
  | @granted s hs htoken hreadable =>
      constructor
      · rintro ⟨rfl⟩
        exact ⟨s, hs, htoken, rfl⟩
      · rintro ⟨s', hs', -, rfl⟩
        rw [hs'.unique hs]
  | refused hkind hempty hreadable => exact iff_of_false nofun fun ⟨s, hs, htoken, _⟩ => htoken (hempty s hs)
  | unread hcrash hnone hunreadable => exact iff_of_false nofun fun ⟨s, hs, _⟩ => hnone s hs

end Grant

namespace Registry

variable {h : Host} {p : Profile} {c : Credential}

/-- The one scheme that is built in, at the section of a profile. -/
theorem authorize_builtIn (hp : p.credential = some c) (htype : c.type ∈ builtIn.names) :
    builtIn.authorize h p =
      if c.source = "" then .error (authFault "Bearer auth requires a 'source' for the token")
      else (Scheme.bearerGrant h c).mapError asAuthFault := by
  have hnames : builtIn.names = ["bearer"] := by decide +kernel
  have hbearer : c.type = "bearer" := List.mem_singleton.1 (hnames ▸ htype)
  have hfind : builtIn.find "bearer" = .ok Scheme.bearer := rfl
  rw [authorize, hp]
  dsimp only
  rw [grant, hbearer, hfind, Except.ok_bind]
  by_cases hsource : c.source = ""
  · rw [if_pos hsource]
    simp only [Scheme.bearer, if_pos hsource]
    rfl
  · rw [if_neg hsource]
    simp only [Scheme.bearer, if_neg hsource]
    rfl

/-- A failure to read is not one of the configuration, and is told as it is. -/
theorem asAuthFault_of_isReadingCrash {f : Fault} (hf : f.IsReadingCrash) : asAuthFault f = f := by
  rcases hf with rfl | rfl | rfl <;> rfl

theorem kind_asAuthFault_of_config {f : Fault} (hf : f.kind = .config) : (asAuthFault f).kind = .auth := by
  rw [asAuthFault, if_pos hf]
  rfl

/-- An empty source stands for nothing. -/
theorem ofText_empty : Origin.ofText "" = .unknown := by decide +kernel

/-- **What authorizing a profile comes to.** -/
theorem authorize_outcome (hp : p.credential = some c) (htype : c.type ∈ builtIn.names) :
    Grant.Outcome h (.ofText c.source) (builtIn.authorize h p) := by
  rw [authorize_builtIn hp htype]
  by_cases hsource : c.source = ""
  · rw [if_pos hsource, hsource, ofText_empty]
    exact .refused rfl (fun s => False.elim) id
  · rw [if_neg hsource, Scheme.bearerGrant]
    have houtcome := secret_cases h c.source
    cases hsecret : secret h c.source with
    | ok t =>
        rw [hsecret] at houtcome
        cases houtcome with
        | @found s _ hs htrim hreadable =>
            rw [Except.ok_bind, htrim]
            by_cases hempty : Text.trim s = ""
            · rw [if_pos hempty]
              exact .refused rfl (fun s' hs' => hs'.unique hs ▸ hempty) hreadable
            · rw [if_neg hempty]
              exact .granted hs hempty hreadable
    | error f =>
        rw [hsecret] at houtcome
        rw [Except.error_bind, Except.mapError_error]
        cases houtcome with
        | absent hkind hnone hreadable =>
            exact .refused (kind_asAuthFault_of_config hkind) (fun s hs => absurd hs (hnone s)) hreadable
        | unreadable hcrash hnone hunreadable =>
            rw [asAuthFault_of_isReadingCrash hcrash]
            exact .unread hcrash hnone hunreadable

/-- **When authorizing a profile goes as foreseen**, whatever its source says and whatever variables and files
the host has: exactly if the source is not that of a file that cannot be read. A grant is of the token that
the source supplies, without the blanks around it, and what fails unforeseen is the reading of a file. -/
theorem authorize_foreseen_iff (hp : p.credential = some c) (htype : c.type ∈ builtIn.names) :
    (Grant.IsForeseen (builtIn.authorize h p) ↔ ¬ (Origin.ofText c.source).IsUnreadable h) ∧
      (∀ g, builtIn.authorize h p = .ok g ↔
        ∃ s, (Origin.ofText c.source).Supplies h s ∧ Text.trim s ≠ "" ∧ g = .ofToken (Text.trim s)) ∧
      (∀ f, builtIn.authorize h p = .error f → f.kind = .auth ∨ f.IsReadingCrash) := by
  have houtcome := authorize_outcome (h := h) hp htype
  refine ⟨houtcome.isForeseen_iff, fun g => houtcome.eq_ok_iff, fun f hf => ?_⟩
  rw [hf] at houtcome
  cases houtcome with
  | refused hkind hempty hreadable => exact .inl hkind
  | unread hcrash hnone hunreadable => exact .inr hcrash

/-! ### A variable and a file -/

/-- A profile whose token has this source. -/
def profileOf (source : String) : Profile := { name := "test", credential := some { source := source } }

/-- A token in a variable is granted without the blanks around it. -/
theorem authorize_foreseen_of_variable :
    let h : Host := { env := [("TOKEN", " t\n")] }
    let c : Credential := { source := "env:TOKEN" }
    (profileOf "env:TOKEN").credential = some c ∧ c.type ∈ builtIn.names ∧
      Grant.IsForeseen (builtIn.authorize h (profileOf "env:TOKEN")) ∧
      builtIn.authorize h (profileOf "env:TOKEN") = .ok (.ofToken "t") := by
  intro h c
  have hp : (profileOf "env:TOKEN").credential = some c := rfl
  have htype : c.type ∈ builtIn.names := by decide +kernel
  have horigin : Origin.ofText c.source = .env "TOKEN" := by decide +kernel
  have htrim : Text.trim " t\n" = "t" := by decide +kernel
  obtain ⟨hforeseen, hgrants, -⟩ := authorize_foreseen_iff (h := h) hp htype
  rw [horigin] at hforeseen hgrants
  refine ⟨hp, htype, hforeseen.2 id, (hgrants _).2 ⟨" t\n", rfl, ?_, ?_⟩⟩
  · rw [htrim]
    decide
  · rw [htrim]

/-- A token file of one byte that begins no character fails as nobody foresees. -/
theorem exists_authorize_not_foreseen :
    ∃ (h : Host) (p : Profile) (c : Credential), p.credential = some c ∧ c.type ∈ builtIn.names ∧
      ¬ Grant.IsForeseen (builtIn.authorize h p) := by
  let h : Host := { files := ⟨[(["tok"], .file ⟨#[0xff]⟩)]⟩ }
  let c : Credential := { source := "file:/tok" }
  have hp : (profileOf "file:/tok").credential = some c := rfl
  have htype : c.type ∈ builtIn.names := by decide +kernel
  have horigin : Origin.ofText c.source = .file "/tok" := by decide +kernel
  have hplace : h.expand (Path.ofText "/tok") = .ok ⟨"/", ["tok"]⟩ := by rfl
  have hholds : h.Holds ⟨"/", ["tok"]⟩ ⟨#[0xff]⟩ :=
    Tree.read_eq_ok_iff.2 ⟨["tok"], by decide +kernel, by rfl⟩
  have hunreadable : (Origin.ofText c.source).IsUnreadable h := by
    rw [horigin, isUnreadable_file_iff hplace]
    exact .inr ⟨_, hholds, by decide⟩
  refine ⟨h, profileOf "file:/tok", c, hp, htype, fun hforeseen => ?_⟩
  exact (authorize_outcome hp htype).isForeseen_iff.1 hforeseen hunreadable

end Registry

end Restline
