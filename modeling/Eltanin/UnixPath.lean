import Eltanin.TextFields

/-!
# Paths

A path is a string of bytes, taken apart at its slashes.  Joining a file name
to a directory adds just this name to the components of the directory, so
that a name without a slash cannot leave it.
-/

namespace UnixPath

def slash : UInt8 := 47
def dot : UInt8 := 46

def isSlash (byte : UInt8) : Bool := byte = slash

inductive Component where
  | rootDir
  | curDir
  | parentDir
  | normal (name : List UInt8)
  deriving DecidableEq, Repr

def component? (name : List UInt8) : Option Component :=
  if name = [dot] then none
  else if name = [dot, dot] then some .parentDir
  else some (.normal name)

/-- What a path begins with: its root, or a dot which stands for the current
directory. -/
def leading : List UInt8 → List Component
  | [] => []
  | [first] =>
      if first = slash then [.rootDir]
      else if first = dot then [.curDir] else []
  | first :: second :: _ =>
      if first = slash then [.rootDir]
      else if first = dot ∧ second = slash then [.curDir] else []

/-- `Path::components`. -/
def components (path : List UInt8) : List Component :=
  leading path ++ (TextFields.fields isSlash path).filterMap component?

/-- `Path::join`. -/
def join (directory path : List UInt8) : List UInt8 :=
  if path.head? = some slash then path
  else if directory = [] ∨ directory.getLast? = some slash then
    directory ++ path
  else directory ++ slash :: path

/-- The name of an entry of a directory. -/
structure IsFileName (name : List UInt8) : Prop where
  field : TextFields.IsField isSlash name
  not_dot : name ≠ [dot]
  not_dots : name ≠ [dot, dot]

section Join

variable {name directory rest : List UInt8}

theorem IsFileName.component?_eq (hname : IsFileName name) :
    component? name = some (.normal name) := by
  rw [component?, if_neg hname.not_dot, if_neg hname.not_dots]

theorem IsFileName.leading_eq (hname : IsFileName name) :
    leading name = [] := by
  have hnot_slash : ∀ byte ∈ name, byte ≠ slash := by
    intro byte hmem heq
    have hunbroken := hname.field.unbroken byte hmem
    simp [isSlash, heq] at hunbroken
  match name with
  | [] => rfl
  | [first] =>
      have hfirst := hnot_slash first (by simp)
      have hne : first ≠ dot := by
        intro heq
        exact hname.not_dot (by rw [heq])
      simp [leading, hfirst, hne]
  | first :: second :: rest =>
      have hfirst := hnot_slash first (by simp)
      have hsecond := hnot_slash second (by simp)
      simp [leading, hfirst, hsecond]

theorem IsFileName.components_eq (hname : IsFileName name) :
    components name = [.normal name] := by
  rw [components, hname.leading_eq, hname.field.fields_eq]
  simp [hname.component?_eq]

/-- What a path begins with is seen before its first name ends. -/
theorem leading_append_slash (hdirectory : directory ≠ []) :
    leading (directory ++ slash :: rest) = leading directory := by
  match directory with
  | [first] => simp [leading]
  | first :: second :: others => rfl

theorem leading_slash (rest : List UInt8) :
    leading (slash :: rest) = [.rootDir] := by
  cases rest <;> simp [leading]

theorem components_slash (hname : IsFileName name) :
    components (slash :: name) = [.rootDir, .normal name] := by
  rw [components, leading_slash, TextFields.fields_cons name rfl,
    hname.field.fields_eq]
  simp [hname.component?_eq]

theorem components_append_slash (hdirectory : directory ≠ [])
    (hname : IsFileName name) :
    components (directory ++ slash :: name) =
      components directory ++ [.normal name] := by
  rw [components, leading_append_slash hdirectory,
    TextFields.fields_append_cons directory name rfl, hname.field.fields_eq,
    List.filterMap_append, components, List.append_assoc]
  simp [hname.component?_eq]

theorem components_concat_slash (hdirectory : directory ≠ []) :
    components (directory ++ [slash]) = components directory := by
  rw [components, leading_append_slash hdirectory,
    TextFields.fields_append_cons directory [] rfl, TextFields.fields_nil,
    List.append_nil, components]

/-- An entry joined to a directory is in just this directory. -/
theorem components_join (directory : List UInt8) (hname : IsFileName name) :
    components (join directory name) =
      components directory ++ [.normal name] := by
  have hrelative : name.head? ≠ some slash := by
    intro hhead
    have hmem := List.mem_of_mem_head? hhead
    have hunbroken := hname.field.unbroken slash hmem
    simp [isSlash] at hunbroken
  rw [join, if_neg hrelative]
  split
  next hends =>
    rcases hends with rfl | hlast
    · exact hname.components_eq
    · obtain ⟨parent, rfl⟩ := List.getLast?_eq_some_iff.mp hlast
      rw [List.append_assoc, List.singleton_append]
      by_cases hparent : parent = []
      · subst hparent
        exact components_slash hname
      · rw [components_append_slash hparent hname,
          components_concat_slash hparent]
  next hneither =>
    rw [not_or] at hneither
    exact components_append_slash hneither.1 hname

end Join

end UnixPath
