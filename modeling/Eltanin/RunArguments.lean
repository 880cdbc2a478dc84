import Eltanin.TextLines

/-!
# The arguments of a run

`parse_run` goes through its arguments once, from left to right, with what it
has seen of them.  An argument is a string of bytes, and only the profile's
name is read as text.
-/

namespace Eltanin.Cli

open TextLines

/-- An argument as the operating system hands it over. -/
abbrev OsString := List UInt8

/-! ## Profile names -/

def maxProfileNameLen : ℕ := 64

/-- `char::is_control`: the general category `Cc`. -/
def isControl (c : Char) : Bool :=
  c.toNat < 32 || (127 ≤ c.toNat && c.toNat < 160)

inductive ProfileNameError where
  | empty
  | containsSlash
  | pathTraversal
  | tooLong (length : ℕ)
  | notUtf8
  | containsControlCharacter
  deriving DecidableEq, Repr

/-- A name in which no path, no escape from a directory and nothing
unprintable can hide. -/
structure ProfileName where
  text : List Char
  nonempty : text ≠ []
  bounded : (encode text).length ≤ maxProfileNameLen
  no_slash : '/' ∉ text
  no_traversal : ¬(text = ['.'] ∨ text = ['.', '.'])
  no_control : ¬text.any isControl = true
  deriving DecidableEq

def ProfileName.parse (raw : OsString) :
    Except ProfileNameError ProfileName :=
  match decode? raw with
  | none => .error .notUtf8
  | some text =>
      if hempty : text = [] then .error .empty
      else if hlong : (encode text).length > maxProfileNameLen then
        .error (.tooLong (encode text).length)
      else if hslash : '/' ∈ text then .error .containsSlash
      else if htraversal : text = ['.'] ∨ text = ['.', '.'] then
        .error .pathTraversal
      else if hcontrol : text.any isControl = true then
        .error .containsControlCharacter
      else
        .ok ⟨text, hempty, Nat.le_of_not_gt hlong, hslash, htraversal,
          hcontrol⟩

def ProfileName.bytes (name : ProfileName) : OsString := encode name.text

theorem ProfileName.parse_bytes (name : ProfileName) :
    ProfileName.parse name.bytes = .ok name := by
  rw [ProfileName.parse, ProfileName.bytes, decode?_encode]
  simp [name.nonempty, name.no_slash, name.no_traversal, name.no_control,
    Nat.not_lt.mpr name.bounded]

theorem ProfileName.bytes_of_parse {raw : OsString} {name : ProfileName}
    (hparse : ProfileName.parse raw = .ok name) :
    name.bytes = raw := by
  unfold ProfileName.parse at hparse
  cases hdecode : decode? raw with
  | none => simp [hdecode] at hparse
  | some text =>
      simp only [hdecode] at hparse
      split_ifs at hparse
      rw [Except.ok.injEq] at hparse
      rw [← hparse, ProfileName.bytes, decode?_eq_some_iff.mp hdecode]

/-- What a name may be made of, in terms of its bytes. -/
structure AcceptableName (raw : OsString) (text : List Char) : Prop where
  utf8 : raw = encode text
  length_pos : 1 ≤ raw.length
  length_le : raw.length ≤ 64
  no_slash : '/' ∉ text
  no_control : ∀ c ∈ text, isControl c = false
  not_dot : raw ≠ encode ".".toList
  not_dots : raw ≠ encode "..".toList

theorem any_isControl_eq_false_iff {text : List Char} :
    text.any isControl = false ↔ ∀ c ∈ text, isControl c = false := by
  simp only [List.any_eq_false, Bool.not_eq_true]

theorem ProfileName.acceptable (name : ProfileName) :
    AcceptableName name.bytes name.text where
  utf8 := rfl
  length_pos := by
    have hbytes : name.bytes ≠ [] := fun hnil =>
      name.nonempty (encode_eq_nil_iff.mp hnil)
    exact List.length_pos_iff.mpr hbytes
  length_le := name.bounded
  no_slash := name.no_slash
  no_control :=
    any_isControl_eq_false_iff.mp (Bool.eq_false_iff.mpr name.no_control)
  not_dot := fun heq =>
    name.no_traversal (.inl (encode_injective heq))
  not_dots := fun heq =>
    name.no_traversal (.inr (encode_injective heq))

def AcceptableName.name {raw : OsString} {text : List Char}
    (haccept : AcceptableName raw text) : ProfileName where
  text := text
  nonempty := by
    intro hnil
    have hpos := haccept.length_pos
    rw [haccept.utf8, hnil] at hpos
    exact absurd hpos (by decide)
  bounded := haccept.utf8 ▸ haccept.length_le
  no_slash := haccept.no_slash
  no_traversal := by
    rintro (hdot | hdots)
    · exact haccept.not_dot (by rw [haccept.utf8, hdot]; rfl)
    · exact haccept.not_dots (by rw [haccept.utf8, hdots]; rfl)
  no_control :=
    Bool.eq_false_iff.mp (any_isControl_eq_false_iff.mpr haccept.no_control)

/-- The names that are accepted are the acceptable ones, as they are. -/
theorem ProfileName.exists_parse_iff (raw : OsString) :
    (∃ name, ProfileName.parse raw = .ok name) ↔
      ∃ text, AcceptableName raw text := by
  constructor
  · rintro ⟨name, hparse⟩
    rw [← ProfileName.bytes_of_parse hparse]
    exact ⟨name.text, name.acceptable⟩
  · rintro ⟨text, haccept⟩
    have hbytes : haccept.name.bytes = raw := haccept.utf8.symm
    have hparse := ProfileName.parse_bytes haccept.name
    rw [hbytes] at hparse
    exact ⟨haccept.name, hparse⟩

/-! ## The grammar of a run -/

structure RunInvocation where
  profile : ProfileName
  program : OsString
  args : List OsString
  deriving DecidableEq

inductive UsageError where
  | notRunSubcommand (found : Option OsString)
  | profileMissingValue
  | profileGivenTwice
  | profileMissing
  | unrecognizedArgument (found : OsString)
  | missingSeparator
  | emptyCommand
  | invalidProfileName (error : ProfileNameError)
  deriving DecidableEq, Repr

def runWord : OsString := encode "run".toList
def profileFlag : OsString := encode "--profile".toList
def separator : OsString := encode "--".toList

theorem separator_ne_profileFlag : separator ≠ profileFlag := by decide

/-- What the loop has seen of its arguments. -/
structure ArgumentScan where
  profile : Option ProfileName
  separatorFound : Bool
  command : List OsString

def ArgumentScan.start : ArgumentScan := ⟨none, false, []⟩

def scanArguments (scan : ArgumentScan) :
    List OsString → Except UsageError ArgumentScan
  | [] => .ok scan
  | arg :: argv =>
      if scan.separatorFound then
        scanArguments { scan with command := scan.command ++ [arg] } argv
      else if arg = separator then
        scanArguments { scan with separatorFound := true } argv
      else if arg = profileFlag then
        if scan.profile.isSome then .error .profileGivenTwice
        else
          match argv with
          | [] => .error .profileMissingValue
          | value :: argv =>
              match ProfileName.parse value with
              | .error error => .error (.invalidProfileName error)
              | .ok name =>
                  scanArguments { scan with profile := some name } argv
      else .error (.unrecognizedArgument arg)

def finishScan (scan : ArgumentScan) : Except UsageError RunInvocation :=
  if ¬scan.separatorFound then .error .missingSeparator
  else
    match scan.profile, scan.command with
    | none, _ => .error .profileMissing
    | some _, [] => .error .emptyCommand
    | some profile, program :: args => .ok ⟨profile, program, args⟩

def parseRun (argv : List OsString) : Except UsageError RunInvocation :=
  match argv with
  | [] => .error (.notRunSubcommand none)
  | first :: argv =>
      if first ≠ runWord then .error (.notRunSubcommand (some first))
      else (scanArguments .start argv).bind finishScan

/-! ## What the loop makes of each shape -/

section Shapes

variable {scan : ArgumentScan} {arg value : OsString}
  {argv command : List OsString} {name : ProfileName}

theorem scanArguments_command (hfound : scan.separatorFound = true) :
    scanArguments scan argv =
      .ok { scan with command := scan.command ++ argv } := by
  induction argv generalizing scan with
  | nil => rw [scanArguments, List.append_nil]
  | cons arg argv ih =>
      have hrest :=
        @ih { scan with command := scan.command ++ [arg] } hfound
      rw [scanArguments.eq_def]
      simp only [if_pos hfound, hrest, List.append_assoc,
        List.singleton_append]

theorem scanArguments_separator (hfound : scan.separatorFound = false) :
    scanArguments scan (separator :: argv) =
      .ok { scan with
        separatorFound := true, command := scan.command ++ argv } := by
  rw [scanArguments.eq_def]
  simp only [hfound, Bool.false_eq_true, if_false, if_true]
  rw [scanArguments_command rfl]

theorem scanArguments_unrecognized (hfound : scan.separatorFound = false)
    (hseparator : arg ≠ separator) (hflag : arg ≠ profileFlag) :
    scanArguments scan (arg :: argv) =
      .error (.unrecognizedArgument arg) := by
  rw [scanArguments.eq_def]
  simp only [hfound, Bool.false_eq_true, if_false, hseparator, hflag]

/-- The first profile flag takes the next argument as its name. -/
theorem scanArguments_value (hfound : scan.separatorFound = false)
    (hprofile : scan.profile = none) :
    scanArguments scan (profileFlag :: value :: argv) =
      match ProfileName.parse value with
      | .error error => .error (.invalidProfileName error)
      | .ok name => scanArguments { scan with profile := some name } argv := by
  rw [scanArguments]
  simp only [hfound, Bool.false_eq_true, if_false, hprofile,
    separator_ne_profileFlag.symm, if_true, Option.isSome_none]

theorem scanArguments_profile (hfound : scan.separatorFound = false)
    (hprofile : scan.profile = none)
    (hparse : ProfileName.parse value = .ok name) :
    scanArguments scan (profileFlag :: value :: argv) =
      scanArguments { scan with profile := some name } argv := by
  rw [scanArguments_value hfound hprofile, hparse]

theorem scanArguments_badName {error : ProfileNameError}
    (hfound : scan.separatorFound = false) (hprofile : scan.profile = none)
    (hparse : ProfileName.parse value = .error error) :
    scanArguments scan (profileFlag :: value :: argv) =
      .error (.invalidProfileName error) := by
  rw [scanArguments_value hfound hprofile, hparse]

theorem scanArguments_profile_twice (hfound : scan.separatorFound = false)
    (hprofile : scan.profile = some name) :
    scanArguments scan (profileFlag :: argv) =
      .error .profileGivenTwice := by
  rw [scanArguments.eq_def]
  simp only [hfound, Bool.false_eq_true, if_false, hprofile,
    separator_ne_profileFlag.symm, if_true, Option.isSome_some]

end Shapes

/-- `run --profile NAME -- PROGRAM [ARGS...]`. -/
def commandLine (name program : OsString) (args : List OsString) :
    List OsString :=
  runWord :: profileFlag :: name :: separator :: program :: args

/-- How an invocation is written. -/
def RunInvocation.render (invocation : RunInvocation) : List OsString :=
  commandLine invocation.profile.bytes invocation.program invocation.args

/-- The ways in which an argument list is no invocation, and what each is
called. -/
inductive Malformed : List OsString → UsageError → Prop where
  | notRunSubcommand {argv : List OsString}
      (hfirst : argv.head? ≠ some runWord) :
      Malformed argv (.notRunSubcommand argv.head?)
  | noArguments : Malformed [runWord] .missingSeparator
  | noProfile (command : List OsString) :
      Malformed (runWord :: separator :: command) .profileMissing
  | noValue : Malformed [runWord, profileFlag] .profileMissingValue
  | badName {value : OsString} {error : ProfileNameError}
      (argv : List OsString)
      (hparse : ProfileName.parse value = .error error) :
      Malformed (runWord :: profileFlag :: value :: argv)
        (.invalidProfileName error)
  | beforeProfile {arg : OsString} (argv : List OsString)
      (hseparator : arg ≠ separator) (hflag : arg ≠ profileFlag) :
      Malformed (runWord :: arg :: argv) (.unrecognizedArgument arg)
  | noSeparator (profile : ProfileName) :
      Malformed [runWord, profileFlag, profile.bytes] .missingSeparator
  | secondProfile (profile : ProfileName) (argv : List OsString) :
      Malformed
        (runWord :: profileFlag :: profile.bytes :: profileFlag :: argv)
        .profileGivenTwice
  | afterProfile (profile : ProfileName) {arg : OsString}
      (argv : List OsString)
      (hseparator : arg ≠ separator) (hflag : arg ≠ profileFlag) :
      Malformed (runWord :: profileFlag :: profile.bytes :: arg :: argv)
        (.unrecognizedArgument arg)
  | noCommand (profile : ProfileName) :
      Malformed [runWord, profileFlag, profile.bytes, separator]
        .emptyCommand

theorem parseRun_runWord (argv : List OsString) :
    parseRun (runWord :: argv) =
      (scanArguments .start argv).bind finishScan := by
  rw [parseRun, if_neg (not_not_intro rfl)]

theorem parseRun_profile (profile : ProfileName) (argv : List OsString) :
    parseRun (runWord :: profileFlag :: profile.bytes :: argv) =
      (scanArguments ⟨some profile, false, []⟩ argv).bind finishScan := by
  rw [parseRun_runWord,
    scanArguments_profile rfl rfl (ProfileName.parse_bytes profile)]
  rfl

theorem parseRun_render (invocation : RunInvocation) :
    parseRun invocation.render = .ok invocation := by
  rw [RunInvocation.render, commandLine, parseRun_profile,
    scanArguments_separator rfl]
  rfl

theorem Malformed.parseRun_eq {argv : List OsString} {error : UsageError}
    (hmalformed : Malformed argv error) :
    parseRun argv = .error error := by
  cases hmalformed with
  | notRunSubcommand hfirst =>
      cases argv with
      | nil => rfl
      | cons first rest =>
          have hword : first ≠ runWord := fun heq =>
            hfirst (congrArg some heq)
          rw [parseRun, if_pos hword, List.head?_cons]
  | noArguments => rfl
  | noProfile command =>
      rw [parseRun_runWord, scanArguments_separator rfl]
      rfl
  | noValue => rfl
  | badName rest hparse =>
      rw [parseRun_runWord, scanArguments_badName rfl rfl hparse]
      rfl
  | beforeProfile rest hseparator hflag =>
      rw [parseRun_runWord,
        scanArguments_unrecognized rfl hseparator hflag]
      rfl
  | noSeparator profile =>
      rw [parseRun_profile]
      rfl
  | secondProfile profile rest =>
      rw [parseRun_profile, scanArguments_profile_twice rfl rfl]
      rfl
  | afterProfile profile rest hseparator hflag =>
      rw [parseRun_profile,
        scanArguments_unrecognized rfl hseparator hflag]
      rfl
  | noCommand profile =>
      rw [parseRun_profile, scanArguments_separator rfl]
      rfl

/-- What follows the profile decides the rest. -/
theorem invocation_or_malformed_of_profile (profile : ProfileName)
    (argv : List OsString) :
    (∃ invocation : RunInvocation, invocation.render =
        runWord :: profileFlag :: profile.bytes :: argv) ∨
      ∃ error, Malformed
        (runWord :: profileFlag :: profile.bytes :: argv) error := by
  cases argv with
  | nil => exact .inr ⟨_, .noSeparator profile⟩
  | cons arg rest =>
      by_cases hseparator : arg = separator
      · subst hseparator
        cases rest with
        | nil => exact .inr ⟨_, .noCommand profile⟩
        | cons program args => exact .inl ⟨⟨profile, program, args⟩, rfl⟩
      · by_cases hflag : arg = profileFlag
        · subst hflag
          exact .inr ⟨_, .secondProfile profile rest⟩
        · exact .inr ⟨_, .afterProfile profile rest hseparator hflag⟩

theorem invocation_or_malformed (argv : List OsString) :
    (∃ invocation : RunInvocation, invocation.render = argv) ∨
      ∃ error, Malformed argv error := by
  by_cases hfirst : argv.head? = some runWord
  · obtain ⟨argv, rfl⟩ := List.head?_eq_some_iff.mp hfirst
    cases argv with
    | nil => exact .inr ⟨_, .noArguments⟩
    | cons arg rest =>
        by_cases hseparator : arg = separator
        · subst hseparator
          exact .inr ⟨_, .noProfile rest⟩
        by_cases hflag : arg = profileFlag
        · subst hflag
          cases rest with
          | nil => exact .inr ⟨_, .noValue⟩
          | cons value rest =>
              cases hparse : ProfileName.parse value with
              | error error => exact .inr ⟨_, .badName rest hparse⟩
              | ok profile =>
                  rw [← ProfileName.bytes_of_parse hparse]
                  exact invocation_or_malformed_of_profile profile rest
        · exact .inr ⟨_, .beforeProfile rest hseparator hflag⟩
  · exact .inr ⟨_, .notRunSubcommand hfirst⟩

theorem render_eq_of_parseRun {argv : List OsString}
    {invocation : RunInvocation}
    (hparse : parseRun argv = .ok invocation) :
    invocation.render = argv := by
  rcases invocation_or_malformed argv with ⟨other, hrender⟩ | ⟨error, hbad⟩
  · rw [← hrender, parseRun_render, Except.ok.injEq] at hparse
    rw [← hparse, hrender]
  · rw [hbad.parseRun_eq] at hparse
    exact nomatch hparse

theorem malformed_of_parseRun {argv : List OsString} {error : UsageError}
    (hparse : parseRun argv = .error error) :
    Malformed argv error := by
  rcases invocation_or_malformed argv with ⟨other, hrender⟩ | ⟨found, hbad⟩
  · rw [← hrender, parseRun_render] at hparse
    exact nomatch hparse
  · rw [hbad.parseRun_eq, Except.error.injEq] at hparse
    rw [← hparse]
    exact hbad

/-- The argument lists the contract of the command line allows. -/
def Documented (argv : List OsString) : Prop :=
  ∃ name program args, (∃ text, AcceptableName name text) ∧
    argv = commandLine name program args

theorem documented_iff {argv : List OsString} :
    Documented argv ↔
      ∃ invocation : RunInvocation, invocation.render = argv := by
  constructor
  · rintro ⟨name, program, args, haccept, hargv⟩
    obtain ⟨profile, hparse⟩ := (ProfileName.exists_parse_iff name).mpr haccept
    refine ⟨⟨profile, program, args⟩, ?_⟩
    rw [hargv, ← ProfileName.bytes_of_parse hparse]
    rfl
  · rintro ⟨⟨profile, program, args⟩, hrender⟩
    exact ⟨profile.bytes, program, args, ⟨profile.text, profile.acceptable⟩,
      hrender.symm⟩

theorem parseRun_eq_ok_iff {argv : List OsString}
    {invocation : RunInvocation} :
    parseRun argv = .ok invocation ↔ argv = invocation.render := by
  constructor
  · intro hparse
    exact (render_eq_of_parseRun hparse).symm
  · intro hargv
    rw [hargv, parseRun_render]

/-- The words of the grammar are names like any other. -/
theorem acceptable_words (word : OsString)
    (hword : word ∈ [separator, profileFlag, runWord]) :
    ∃ text, AcceptableName word text := by
  rw [List.mem_cons, List.mem_cons, List.mem_singleton] at hword
  rcases hword with rfl | rfl | rfl
  · exact ⟨"--".toList, rfl, by decide, by decide, by decide,
      any_isControl_eq_false_iff.mp rfl, by decide, by decide⟩
  · exact ⟨"--profile".toList, rfl, by decide, by decide, by decide,
      any_isControl_eq_false_iff.mp rfl, by decide, by decide⟩
  · exact ⟨"run".toList, rfl, by decide, by decide, by decide,
      any_isControl_eq_false_iff.mp rfl, by decide, by decide⟩

/-- The loop accepts the documented argument lists and no other, hands their
parts on byte for byte, and calls every other list by its fault. -/
theorem parseRun_accepts_documented :
    (∀ argv, (∃ invocation, parseRun argv = .ok invocation) ↔
      Documented argv) ∧
    (∀ (argv : List OsString) (invocation : RunInvocation),
      parseRun argv = .ok invocation ↔
        argv = commandLine invocation.profile.bytes invocation.program
          invocation.args) ∧
    (∀ invocation : RunInvocation,
      parseRun invocation.render = .ok invocation) ∧
    (∀ raw, (∃ name, ProfileName.parse raw = .ok name) ↔
      ∃ text, AcceptableName raw text) ∧
    (∀ raw name, ProfileName.parse raw = .ok name ↔ raw = name.bytes) ∧
    (∀ word ∈ [separator, profileFlag, runWord],
      ∃ name, ProfileName.parse word = .ok name) ∧
    (∀ argv, (∃ error, parseRun argv = .error error) ↔ ¬Documented argv) ∧
    ∀ (argv : List OsString) (error : UsageError),
      parseRun argv = .error error ↔ Malformed argv error := by
  have haccepts (argv : List OsString) :
      (∃ invocation, parseRun argv = .ok invocation) ↔ Documented argv := by
    rw [documented_iff]
    exact exists_congr fun _ => parseRun_eq_ok_iff.trans eq_comm
  refine ⟨haccepts, fun _ _ => parseRun_eq_ok_iff, parseRun_render,
    ProfileName.exists_parse_iff, ?_, ?_, ?_, ?_⟩
  · intro raw name
    constructor
    · intro hparse
      exact (ProfileName.bytes_of_parse hparse).symm
    · intro hraw
      rw [hraw, ProfileName.parse_bytes]
  · intro word hword
    exact (ProfileName.exists_parse_iff word).mpr (acceptable_words word hword)
  · intro argv
    rw [← haccepts argv]
    cases parseRun argv with
    | error error => simp
    | ok invocation => simp
  · intro argv error
    exact ⟨malformed_of_parseRun, Malformed.parseRun_eq⟩

end Eltanin.Cli
