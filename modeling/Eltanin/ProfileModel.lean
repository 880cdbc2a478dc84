import Eltanin.PolicyFile
import Eltanin.RunArguments
import Eltanin.UnixPath

/-!
# Profiles

A profile gives a name to a resource and an action.  Its file is looked up in
one directory, under a name which cannot leave it, and says nothing but what a
client could have asked for by itself.
-/

namespace Eltanin.Cli

open Json Eltanin.Core Protocol TextLines UnixPath

structure ProfileDocument where
  resource : ResourceIdentity
  action : Action
  deriving DecidableEq

def profileDocumentJson (profile : ProfileDocument) : JsonValue :=
  .object [("resource", resourceJson profile.resource),
    ("action", actionJson profile.action)]

def readProfileDocument (value : JsonValue) : Option ProfileDocument := do
  let fields ← fieldsOf false ["resource", "action"] value
  let resource ← required readResource fields "resource"
  let action ← required readRuleAction fields "action"
  return ⟨resource, action⟩

/-- What the profile makes the client ask for. -/
def ProfileDocument.request (profile : ProfileDocument) : LeaseRequest :=
  ⟨profile.resource, profile.action⟩

/-! ## Loading -/

/-- Why a file could not be read. -/
inductive ReadError where
  | notFound
  | other (reason : String)
  deriving DecidableEq, Repr

inductive ProfileLoadError where
  | noSearchDir
  | notFound (name : List Char) (path : OsString)
  | io (path : OsString) (reason : String)
  | json (path : OsString) (reason : String)
  | version (path : OsString) (source : UnsupportedVersion)
  deriving DecidableEq

/-- How `{:?}` shows a text, and how `display_home_relative` shows a path. -/
structure PathDisplay where
  debug : List Char → String
  homeRelative : OsString → String

def ProfileLoadError.text (display : PathDisplay) :
    ProfileLoadError → String
  | .noSearchDir =>
      "no profile search directory: set ELTANIN_PROFILE_DIR, or " ++
        "HOME/XDG_CONFIG_HOME so one can be derived"
  | .notFound name path =>
      s!"profile {display.debug name} not found at " ++
        display.homeRelative path
  | .io path reason =>
      s!"failed to read profile at {display.homeRelative path}: {reason}"
  | .json path reason =>
      s!"profile at {display.homeRelative path} is not valid JSON: {reason}"
  | .version path source =>
      s!"profile at {display.homeRelative path}: unsupported domain schema " ++
        s!"version: found {source.found}, expected {source.expected}"

/-- What `eltanin` finds when it is run. -/
structure Surroundings where
  varOs : String → Option OsString
  readFile : OsString → Except ReadError (List UInt8)

def profileDir (host : Surroundings) : Except ProfileLoadError OsString :=
  match host.varOs "ELTANIN_PROFILE_DIR" with
  | some dir => .ok dir
  | none =>
      match host.varOs "XDG_CONFIG_HOME" with
      | some xdg =>
          .ok (join (join xdg (encode "eltanin".toList))
            (encode "profiles".toList))
      | none =>
          match host.varOs "HOME" with
          | some home =>
              .ok (join (join (join home (encode ".config".toList))
                (encode "eltanin".toList)) (encode "profiles".toList))
          | none => .error .noSearchDir

def ProfileName.fileName (name : ProfileName) : OsString :=
  name.bytes ++ encode ".json".toList

def profilePath (dir : OsString) (name : ProfileName) : OsString :=
  join dir name.fileName

def loadProfileFromDir (text : JsonText) (host : Surroundings)
    (dir : OsString) (name : ProfileName) :
    Except ProfileLoadError ProfileDocument :=
  match host.readFile (profilePath dir name) with
  | .error .notFound => .error (.notFound name.text (profilePath dir name))
  | .error (.other reason) => .error (.io (profilePath dir name) reason)
  | .ok bytes =>
      match decode? bytes with
      | none => .error (.io (profilePath dir name)
          "stream did not contain valid UTF-8")
      | some contents =>
          match (text.parse (encode contents)).bind
              (readVersioned readProfileDocument) with
          | none =>
              .error (.json (profilePath dir name) (text.errorText contents))
          | some envelope => envelope.intoCurrent fun found expected =>
              .version (profilePath dir name) ⟨found, expected⟩

def loadProfile (text : JsonText) (host : Surroundings)
    (name : ProfileName) : Except ProfileLoadError ProfileDocument := do
  let dir ← profileDir host
  loadProfileFromDir text host dir name

/-! ## The file of a profile -/

section File

variable {name other : ProfileName} {dir : OsString}

theorem ProfileName.isFileName_fileName (name : ProfileName) :
    IsFileName name.fileName := by
  have hlength : name.fileName.length = name.bytes.length + 5 := by
    rw [fileName, List.length_append]
    rfl
  have hnot_slash : slash ∉ name.fileName := by
    have htext : '/' ∉ name.text ++ ".json".toList := by
      simp [name.no_slash]
    have hbytes : name.fileName = encode (name.text ++ ".json".toList) :=
      (encode_append _ _).symm
    rw [hbytes]
    intro hmem
    exact htext ((mem_encode_iff (d := '/') (by decide)).mp hmem)
  refine ⟨⟨?_, ?_⟩, ?_, ?_⟩
  · intro hnil
    simp [hnil] at hlength
  · intro byte hmem
    rw [isSlash, decide_eq_false_iff_not]
    rintro rfl
    exact hnot_slash hmem
  · intro hdot
    simp [hdot] at hlength
  · intro hdots
    simp [hdots] at hlength

/-- The file of a profile is an entry of the search directory. -/
theorem components_profilePath (dir : OsString) (name : ProfileName) :
    components (profilePath dir name) =
      components dir ++ [.normal name.fileName] :=
  components_join dir name.isFileName_fileName

theorem profilePath_injective
    (hsame : profilePath dir name = profilePath dir other) :
    name = other := by
  have hcomponents := congrArg components hsame
  rw [components_profilePath, components_profilePath] at hcomponents
  have hlast := List.append_cancel_left hcomponents
  rw [List.singleton_inj, Component.normal.injEq] at hlast
  have hbytes : name.bytes = other.bytes := List.append_cancel_right hlast
  have htext : name.text = other.text := encode_injective hbytes
  cases name
  cases other
  subst htext
  rfl

end File

/-! ## What is loaded -/

def DescribesProfile (document : JsonValue) (profile : ProfileDocument) :
    Prop :=
  ∃ resource action, Carries false [("resource", resource),
      ("action", action)] document ∧
    DescribesResource resource profile.resource ∧
    DescribesAction false action profile.action

theorem readProfileDocument_exact :
    ReadsExactly readProfileDocument DescribesProfile := by
  intro document profile
  have hpair : readProfileDocument document = some profile ↔ _ :=
    bind_required_pair_iff (by simp)
  simp only [hpair, readResource_exact _ _, readRuleAction_exact _ _]
  constructor
  · rintro ⟨left, right, hshape, resource, action, hresource, haction, rfl⟩
    exact ⟨left, right, hshape, hresource, haction⟩
  · rintro ⟨left, right, hshape, hresource, haction⟩
    exact ⟨left, right, hshape, _, _, hresource, haction, rfl⟩

/-- The bytes are the text of a document which describes this profile, in
this version. -/
def HoldsProfile (text : JsonText) (bytes : List UInt8)
    (envelope : Versioned ProfileDocument) : Prop :=
  ∃ document, (decode? bytes).isSome ∧ text.parse bytes = some document ∧
    DescribesVersioned DescribesProfile document envelope

/-- What a profile's name comes to among these files. -/
structure ProfileLoadsExactly (text : JsonText) (host : Surroundings)
    (name : ProfileName) (dir : OsString)
    (loaded : Except ProfileLoadError ProfileDocument) : Prop where
  confined : components (profilePath dir name) =
    components dir ++ [.normal name.fileName]
  separate : ∀ other, profilePath dir name = profilePath dir other →
    name = other
  accepts : ∀ profile, loaded = .ok profile ↔
    ∃ bytes, host.readFile (profilePath dir name) = .ok bytes ∧
      HoldsProfile text bytes (.current profile)
  outdated : ∀ path source, loaded = .error (.version path source) ↔
    path = profilePath dir name ∧ source.expected = domainSchemaVersion ∧
      source.found ≠ domainSchemaVersion ∧
      ∃ bytes profile, host.readFile path = .ok bytes ∧
        HoldsProfile text bytes ⟨source.found, profile⟩
  malformed : ∀ path, (∃ reason, loaded = .error (.json path reason)) ↔
    path = profilePath dir name ∧
      ∃ bytes, host.readFile path = .ok bytes ∧ (decode? bytes).isSome ∧
        ∀ envelope, ¬HoldsProfile text bytes envelope
  unread : ∀ path, (∃ reason, loaded = .error (.io path reason)) ↔
    path = profilePath dir name ∧
      ((∃ reason, host.readFile path = .error (.other reason)) ∨
        ∃ bytes, host.readFile path = .ok bytes ∧ decode? bytes = none)
  missing : ∀ shown path, loaded = .error (.notFound shown path) ↔
    shown = name.text ∧ path = profilePath dir name ∧
      host.readFile path = .error .notFound

section Loading

variable {text : JsonText} {host : Surroundings} {dir : OsString}
  {name : ProfileName} {bytes : List UInt8}
  {envelope : Versioned ProfileDocument}

theorem HoldsProfile.unique {other : Versioned ProfileDocument}
    (hholds : HoldsProfile text bytes envelope)
    (hother : HoldsProfile text bytes other) : envelope = other := by
  obtain ⟨document, -, hparse, hdescribes⟩ := hholds
  obtain ⟨found, -, hfound, hother⟩ := hother
  rw [hparse, Option.some.injEq] at hfound
  subst hfound
  exact (readVersioned_exact readProfileDocument_exact).unique hdescribes
    hother

theorem loadProfile_of_holds
    (hread : host.readFile (profilePath dir name) = .ok bytes)
    (hholds : HoldsProfile text bytes envelope) :
    loadProfileFromDir text host dir name =
      envelope.intoCurrent fun found expected =>
        .version (profilePath dir name) ⟨found, expected⟩ := by
  obtain ⟨document, hdecode, hparse, hdescribes⟩ := hholds
  obtain ⟨contents, hcontents⟩ := Option.isSome_iff_exists.mp hdecode
  have hvalue := (readVersioned_exact readProfileDocument_exact document
    envelope).mpr hdescribes
  have hbytes := decode?_eq_some_iff.mp hcontents
  simp only [loadProfileFromDir, hread, hcontents]
  simp only [← hbytes, hparse, Option.bind_some, hvalue]

theorem loadProfile_of_not_holds
    (hread : host.readFile (profilePath dir name) = .ok bytes)
    (hdecode : (decode? bytes).isSome)
    (hnone : ∀ envelope, ¬HoldsProfile text bytes envelope) :
    ∃ reason, loadProfileFromDir text host dir name =
      .error (.json (profilePath dir name) reason) := by
  obtain ⟨contents, hcontents⟩ := Option.isSome_iff_exists.mp hdecode
  have hbytes := decode?_eq_some_iff.mp hcontents
  cases hvalue : (text.parse bytes).bind
      (readVersioned readProfileDocument) with
  | none =>
      refine ⟨text.errorText contents, ?_⟩
      simp only [loadProfileFromDir, hread, hcontents]
      rw [← hbytes, hvalue]
  | some envelope =>
      obtain ⟨document, hparse, hfound⟩ := Option.bind_eq_some_iff.mp hvalue
      exact (hnone envelope ⟨document, hdecode, hparse,
        (readVersioned_exact readProfileDocument_exact document
          envelope).mp hfound⟩).elim

/-- The stage in which a load ends, with what it has found. -/
inductive LoadStage (text : JsonText) (host : Surroundings)
    (name : ProfileName) (dir : OsString) :
    Except ProfileLoadError ProfileDocument → Prop
  | missing (hread : host.readFile (profilePath dir name) = .error .notFound) :
      LoadStage text host name dir
        (.error (.notFound name.text (profilePath dir name)))
  | unread {reason : String}
      (hread : host.readFile (profilePath dir name) =
        .error (.other reason)) :
      LoadStage text host name dir
        (.error (.io (profilePath dir name) reason))
  | illegible {bytes : List UInt8} {reason : String}
      (hread : host.readFile (profilePath dir name) = .ok bytes)
      (hdecode : decode? bytes = none) :
      LoadStage text host name dir
        (.error (.io (profilePath dir name) reason))
  | malformed {bytes : List UInt8} {reason : String}
      (hread : host.readFile (profilePath dir name) = .ok bytes)
      (hdecode : (decode? bytes).isSome)
      (hnone : ∀ envelope, ¬HoldsProfile text bytes envelope) :
      LoadStage text host name dir
        (.error (.json (profilePath dir name) reason))
  | outdated {bytes : List UInt8} {found : UInt16} {profile : ProfileDocument}
      (hread : host.readFile (profilePath dir name) = .ok bytes)
      (hholds : HoldsProfile text bytes ⟨found, profile⟩)
      (hversion : found ≠ domainSchemaVersion) :
      LoadStage text host name dir
        (.error (.version (profilePath dir name)
          ⟨found, domainSchemaVersion⟩))
  | loaded {bytes : List UInt8} {profile : ProfileDocument}
      (hread : host.readFile (profilePath dir name) = .ok bytes)
      (hholds : HoldsProfile text bytes (.current profile)) :
      LoadStage text host name dir (.ok profile)

theorem loadProfile_stage (text : JsonText) (host : Surroundings)
    (name : ProfileName) (dir : OsString) :
    LoadStage text host name dir (loadProfileFromDir text host dir name) := by
  cases hread : host.readFile (profilePath dir name) with
  | error error =>
      cases error with
      | notFound =>
          rw [loadProfileFromDir, hread]
          exact .missing hread
      | other reason =>
          rw [loadProfileFromDir, hread]
          exact .unread hread
  | ok bytes =>
      cases hdecode : decode? bytes with
      | none =>
          simp only [loadProfileFromDir, hread, hdecode]
          exact .illegible hread hdecode
      | some contents =>
          have hlegible : (decode? bytes).isSome := by
            rw [hdecode, Option.isSome_some]
          by_cases hholds : ∃ envelope, HoldsProfile text bytes envelope
          · obtain ⟨⟨version, profile⟩, hholds⟩ := hholds
            rw [loadProfile_of_holds hread hholds, Versioned.intoCurrent]
            split
            next hversion =>
              subst hversion
              exact .loaded hread hholds
            next hversion => exact .outdated hread hholds hversion
          · rw [not_exists] at hholds
            obtain ⟨reason, hfailed⟩ :=
              loadProfile_of_not_holds hread hlegible hholds
            rw [hfailed]
            exact .malformed hread hlegible hholds

/-- A profile is loaded from just the files which hold one in the current
version. -/
theorem loadProfileFromDir_eq_ok_iff {profile : ProfileDocument} :
    loadProfileFromDir text host dir name = .ok profile ↔
      ∃ bytes, host.readFile (profilePath dir name) = .ok bytes ∧
        HoldsProfile text bytes (.current profile) := by
  constructor
  · intro hloaded
    have hstage := loadProfile_stage text host name dir
    rw [hloaded] at hstage
    cases hstage with
    | loaded hread hholds => exact ⟨_, hread, hholds⟩
  · rintro ⟨bytes, hread, hholds⟩
    exact loadProfile_of_holds hread hholds

end Loading

theorem loadProfileFromDir_exact (text : JsonText) (host : Surroundings)
    (name : ProfileName) (dir : OsString) :
    ProfileLoadsExactly text host name dir
      (loadProfileFromDir text host dir name) where
  confined := components_profilePath dir name
  separate other := profilePath_injective
  accepts profile := loadProfileFromDir_eq_ok_iff
  outdated path source := by
    constructor
    · intro hloaded
      have hstage := loadProfile_stage text host name dir
      rw [hloaded] at hstage
      cases hstage with
      | outdated hread hholds hversion =>
          exact ⟨rfl, rfl, hversion, _, _, hread, hholds⟩
    · rintro ⟨rfl, hexpected, hversion, bytes, profile, hread, hholds⟩
      rw [loadProfile_of_holds hread hholds, Versioned.intoCurrent,
        if_neg hversion, ← hexpected]
  malformed path := by
    constructor
    · rintro ⟨reason, hloaded⟩
      have hstage := loadProfile_stage text host name dir
      rw [hloaded] at hstage
      cases hstage with
      | malformed hread hdecode hnone =>
          exact ⟨rfl, _, hread, hdecode, hnone⟩
    · rintro ⟨rfl, bytes, hread, hdecode, hnone⟩
      exact loadProfile_of_not_holds hread hdecode hnone
  unread path := by
    constructor
    · rintro ⟨reason, hloaded⟩
      have hstage := loadProfile_stage text host name dir
      rw [hloaded] at hstage
      cases hstage with
      | unread hread => exact ⟨rfl, .inl ⟨_, hread⟩⟩
      | illegible hread hdecode => exact ⟨rfl, .inr ⟨_, hread, hdecode⟩⟩
    · rintro ⟨rfl, ⟨reason, hread⟩ | ⟨bytes, hread, hdecode⟩⟩
      · exact ⟨reason, by rw [loadProfileFromDir, hread]⟩
      · refine ⟨"stream did not contain valid UTF-8", ?_⟩
        simp only [loadProfileFromDir, hread, hdecode]
  missing shown path := by
    constructor
    · intro hloaded
      have hstage := loadProfile_stage text host name dir
      rw [hloaded] at hstage
      cases hstage with
      | missing hread => exact ⟨rfl, rfl, hread⟩
    · rintro ⟨rfl, rfl, hread⟩
      rw [loadProfileFromDir, hread]

end Eltanin.Cli
