import BibiCore.Base.PyStr

/-!
# POSIX paths

`PurePosixPath` of `pathlib`: a path is a root and its components, parsed from a text and written
as one. A file system without links follows such a text one component at a time.
-/

open PyStr

/-- A component of a path: not empty, not `.` and without a slash. -/
def IsPathPart (part : Str) : Prop := part ≠ [] ∧ part ≠ ['.'] ∧ '/' ∉ part

instance (part : Str) : Decidable (IsPathPart part) := inferInstanceAs (Decidable (_ ∧ _ ∧ _))

/-- A longer component. -/
theorem IsPathPart.append {part s : Str} (h : IsPathPart part) (hs : '/' ∉ s) :
    IsPathPart (part ++ s) := by
  obtain ⟨hne, hdot, hslash⟩ := h
  refine ⟨by simp [hne], fun he ↦ ?_, by simp [hslash, hs]⟩
  rcases List.append_eq_singleton_iff.mp he with ⟨hnil, -⟩ | ⟨hpart, -⟩
  · exact hne hnil
  · exact hdot hpart

/-- A parsed path. -/
@[ext]
structure PosixPath where
  root : Str
  parts : List Str
  root_mem : root ∈ [[], ['/'], ['/', '/']]
  isPathPart : ∀ part ∈ parts, IsPathPart part
  deriving DecidableEq

namespace PosixPath

/-- `posixpath.splitroot` less the drive, which is empty: two slashes in front, and no third, are a
root of their own. -/
def splitroot : Str → Str × Str
  | '/' :: '/' :: '/' :: rest => (['/'], '/' :: '/' :: rest)
  | '/' :: '/' :: rest => (['/', '/'], rest)
  | '/' :: rest => (['/'], rest)
  | rest => ([], rest)

/-- `[x for x in s.split("/") if x and x != "."]`. -/
def components (s : Str) : List Str := (s.splitOn '/').filter fun part ↦ part ≠ [] ∧ part ≠ ['.']

private theorem not_mem_of_mem_splitOn {s part : Str} (h : part ∈ s.splitOn '/') : '/' ∉ part := by
  induction s generalizing part with
  | nil =>
    obtain rfl : part = [] := by simpa using h
    exact List.not_mem_nil
  | cons c s ih =>
    obtain ⟨first, rest, hs⟩ := List.exists_cons_of_ne_nil (List.splitOn_ne_nil '/' s)
    rw [List.splitOn_cons_eq_if_modifyHead] at h
    split at h
    · rcases List.mem_cons.mp h with rfl | h
      · exact List.not_mem_nil
      · exact ih h
    · next hc =>
      rw [hs, List.modifyHead_cons] at h
      rcases List.mem_cons.mp h with rfl | h
      · have hfirst : '/' ∉ first := ih (hs ▸ List.mem_cons_self)
        simp only [List.mem_cons, not_or]
        exact ⟨fun he ↦ hc (beq_iff_eq.mpr he.symm), hfirst⟩
      · exact ih (hs ▸ List.mem_cons_of_mem first h)

private theorem isPathPart_of_mem_components {s part : Str} (h : part ∈ components s) :
    IsPathPart part := by
  obtain ⟨hmem, hpart⟩ := List.mem_filter.mp h
  have hpart : part ≠ [] ∧ part ≠ ['.'] := by simpa using hpart
  exact ⟨hpart.1, hpart.2, not_mem_of_mem_splitOn hmem⟩

/-- The components before and after a slash. -/
theorem components_append_cons (s t : Str) :
    components (s ++ '/' :: t) = components s ++ components t := by
  rw [components, List.splitOn_append_cons_self, List.filter_append, components, components]

/-- The empty path has no components. -/
@[simp] theorem components_nil : components [] = [] := rfl

private theorem components_cons (s : Str) : components ('/' :: s) = components s :=
  components_append_cons [] s

/-- A component is its own only one. -/
theorem components_of_isPathPart {part : Str} (h : IsPathPart part) : components part = [part] := by
  rw [components, List.splitOn_eq_singleton h.2.2]
  simp [h.1, h.2.1]

/-- Joined by slashes, components are parsed again. -/
theorem components_intercalate {parts : List Str} (h : ∀ part ∈ parts, IsPathPart part) :
    components (['/'].intercalate parts) = parts := by
  rcases eq_or_ne parts [] with rfl | hne
  · rfl
  · rw [components, List.splitOn_intercalate '/' (fun part hmem ↦ (h part hmem).2.2) hne,
      List.filter_eq_self]
    intro part hmem
    simp [(h part hmem).1, (h part hmem).2.1]

private theorem root_mem_splitroot (s : Str) : (splitroot s).1 ∈ [[], ['/'], ['/', '/']] := by
  unfold splitroot
  split <;> simp

/-- `PurePath._parse_path`. -/
def parse (s : Str) : PosixPath where
  root := (splitroot s).1
  parts := components (splitroot s).2
  root_mem := root_mem_splitroot s
  isPathPart := fun _ ↦ isPathPart_of_mem_components

/-- `path.name`. -/
def name (path : PosixPath) : Str := path.parts.getLast?.getD []

/-- `str(path)`. -/
def str (path : PosixPath) : Str :=
  match path.root ++ ['/'].intercalate path.parts with
  | [] => ['.']
  | s => s

/-- `path / key`: a key with a root stands alone. -/
def joinpath (path : PosixPath) (key : Str) : PosixPath :=
  let other := parse key
  if other.root = [] then
    { root := path.root
      parts := path.parts ++ other.parts
      root_mem := path.root_mem
      isPathPart := List.forall_mem_append.mpr ⟨path.isPathPart, other.isPathPart⟩ }
  else other

/-- The path extended by one component. -/
def child (path : PosixPath) (part : Str) (h : IsPathPart part) : PosixPath where
  root := path.root
  parts := path.parts ++ [part]
  root_mem := path.root_mem
  isPathPart := List.forall_mem_append.mpr ⟨path.isPathPart, List.forall_mem_singleton.mpr h⟩

/-! ### Parsing and writing -/

/-- The root holds no component. -/
theorem parts_parse (s : Str) : (parse s).parts = components s := by
  change components (splitroot s).2 = components s
  unfold splitroot
  split <;> simp only [components_cons]

private theorem splitroot_of_head? {s : Str} (h : s.head? ≠ some '/') :
    splitroot s = ([], s) ∧ splitroot ('/' :: s) = (['/'], s) ∧
      splitroot ('/' :: '/' :: s) = (['/', '/'], s) := by
  cases s with
  | nil => exact ⟨rfl, rfl, rfl⟩
  | cons c s =>
    have hc : c ≠ '/' := by simpa using h
    simp [splitroot, hc]

private theorem head?_intercalate {parts : List Str} (h : ∀ part ∈ parts, IsPathPart part) :
    (['/'].intercalate parts).head? ≠ some '/' := by
  cases parts with
  | nil => simp
  | cons part parts =>
    obtain ⟨hne, -, hslash⟩ := h part List.mem_cons_self
    obtain ⟨c, cs, rfl⟩ := List.exists_cons_of_ne_nil hne
    have hc : c ≠ '/' := fun he ↦ hslash (he ▸ List.mem_cons_self)
    cases parts <;> simpa using hc

private theorem str_cases (path : PosixPath) :
    path.root = [] ∧ path.parts = [] ∧ path.str = ['.'] ∨
      path.str = path.root ++ ['/'].intercalate path.parts ∧ path.str ≠ [] := by
  rw [str]
  split
  · next h =>
    obtain ⟨hroot, hrest⟩ := List.append_eq_nil_iff.mp h
    have hparts : path.parts = [] := by
      rw [← components_intercalate path.isPathPart, hrest, components_nil]
    exact .inl ⟨hroot, hparts, rfl⟩
  · next hne => exact .inr ⟨rfl, hne⟩

/-- A path is what its text is parsed to. -/
theorem parse_str (path : PosixPath) : parse path.str = path := by
  obtain ⟨hnone, hone, htwo⟩ := splitroot_of_head? (head?_intercalate path.isPathPart)
  have hrest := components_intercalate path.isPathPart
  rcases path.str_cases with ⟨hroot, hparts, hstr⟩ | ⟨hstr, -⟩
  · ext1
    · rw [hstr, hroot]
      rfl
    · rw [hstr, hparts]
      rfl
  · have hmem := path.root_mem
    simp only [List.mem_cons, List.not_mem_nil, or_false] at hmem
    have hsplit : splitroot path.str = (path.root, ['/'].intercalate path.parts) := by
      rcases hmem with hroot | hroot | hroot <;> rw [hstr, hroot]
      · exact hnone
      · exact hone
      · exact htwo
    ext1
    · exact congrArg Prod.fst hsplit
    · exact (congrArg (components ∘ Prod.snd) hsplit).trans hrest

/-- The name guard: a text is the name of its path when it is one component. -/
theorem name_parse_eq_self_iff {s : Str} (hs : s ≠ []) : (parse s).name = s ↔ IsPathPart s := by
  rw [name, parts_parse]
  constructor
  · intro h
    cases hlast : (components s).getLast? with
    | none =>
      rw [hlast] at h
      exact absurd h.symm hs
    | some part =>
      obtain rfl : part = s := by simpa [hlast] using h
      exact isPathPart_of_mem_components (List.mem_of_getLast? hlast)
  · intro h
    rw [components_of_isPathPart h]
    rfl

/-- A key that is one component extends the path by it. -/
theorem joinpath_of_isPathPart (path : PosixPath) {key : Str} (h : IsPathPart key) :
    path.joinpath key = path.child key h := by
  have hhead : key.head? ≠ some '/' := fun he ↦ h.2.2 (List.mem_of_head? he)
  have hroot : (parse key).root = [] := congrArg Prod.fst (splitroot_of_head? hhead).1
  have hparts : (parse key).parts = [key] := by
    rw [parts_parse, components_of_isPathPart h]
  ext1
  · simp only [joinpath, if_pos hroot, child]
  · simp only [joinpath, if_pos hroot, child, hparts]

private theorem intercalate_concat_append (sep : Str) (parts : List Str) (part s : Str) :
    sep.intercalate (parts ++ [part]) ++ s = sep.intercalate (parts ++ [part ++ s]) := by
  induction parts with
  | nil => simp
  | cons first parts ih =>
    have hne (last : Str) : parts ++ [last] ≠ [] := by simp
    rw [List.cons_append, List.cons_append, List.intercalate_cons_of_ne_nil (hne part),
      List.intercalate_cons_of_ne_nil (hne (part ++ s)), List.append_assoc, List.append_assoc, ih,
      List.append_assoc]

/-- Text behind the text of a path is part of its last component. -/
theorem str_child_append (path : PosixPath) {part s : Str} (h : IsPathPart part)
    (hs : IsPathPart (part ++ s)) :
    (path.child part h).str ++ s = (path.child (part ++ s) hs).str := by
  rcases (path.child part h).str_cases with ⟨-, hparts, -⟩ | ⟨hstr, -⟩
  · simp [child] at hparts
  · rcases (path.child (part ++ s) hs).str_cases with ⟨-, hparts, -⟩ | ⟨hstr', -⟩
    · simp [child] at hparts
    · rw [hstr, hstr', List.append_assoc]
      exact congrArg (path.root ++ ·) (intercalate_concat_append ['/'] path.parts part s)

end PosixPath

/-! ### File systems -/

/-- What a file is. -/
inductive FileKind where
  | directory
  | regular
  | other
  deriving DecidableEq

/-- A file system without symbolic links, on files `F`, as a process sees it. -/
structure FileSystem (F : Type*) where
  root : F
  cwd : F
  kind : F → FileKind
  /-- the file that a directory has under a name -/
  entry : F → Str → Option F
  /-- the file that `..` names -/
  parent : F → F
  kind_parent : ∀ file, kind (parent file) ≠ .regular

namespace FileSystem

variable {F : Type*} (fs : FileSystem F)

/-- Follow one component from a file. -/
def follow (file : F) (part : Str) : Option F :=
  if fs.kind file = .directory then
    if part = [] ∨ part = ['.'] then some file
    else if part = ['.', '.'] then some (fs.parent file)
    else fs.entry file part
  else none

/-- The file that `stat` finds for a text. -/
def stat (s : Str) : Option F :=
  if s = [] then none
  else (s.splitOn '/').foldlM fs.follow (if s.head? = some '/' then fs.root else fs.cwd)

/-- `path.is_file()`. -/
def isFile (path : PosixPath) : Bool := (fs.stat path.str).any fun file ↦ fs.kind file = .regular

/-- `path.exists()`. -/
def pathExists (path : PosixPath) : Bool := (fs.stat path.str).isSome

/-- The file at a path is a regular one, which the directory at another has under a name. -/
def LiesIn (path directory : PosixPath) (name : Str) : Prop :=
  name ≠ ['.', '.'] ∧ ∃ d file, fs.stat directory.str = some d ∧ fs.kind d = .directory ∧
    fs.entry d name = some file ∧ fs.kind file = .regular ∧ fs.stat path.str = some file

/-- Follow components from a directory. -/
private def walk (file : F) (parts : List Str) : Option F :=
  (fs.follow file []).bind fun d ↦ parts.foldlM fs.follow d

variable {fs}

private theorem follow_nil_bind (file : F) (part : Str) :
    (fs.follow file []).bind (fs.follow · part) = fs.follow file part := by
  by_cases hd : fs.kind file = .directory <;> simp [follow, hd]

private theorem foldlM_eq_walk (file : F) {parts : List Str} (h : parts ≠ []) :
    parts.foldlM fs.follow file = fs.walk file parts := by
  obtain ⟨part, parts, rfl⟩ := List.exists_cons_of_ne_nil h
  simp only [walk, List.foldlM_cons, Option.bind_eq_bind]
  rw [← Option.bind_assoc, follow_nil_bind]

private theorem walk_nil_cons (file : F) (parts : List Str) :
    fs.walk file ([] :: parts) = fs.walk file parts := by
  simp only [walk, List.foldlM_cons, Option.bind_eq_bind]
  rw [← Option.bind_assoc, follow_nil_bind]

private theorem splitOn_cons_self (s : Str) : ('/' :: s).splitOn '/' = [] :: s.splitOn '/' :=
  List.splitOn_append_cons_self_of_not_mem List.not_mem_nil s

private theorem walk_splitOn_intercalate (file : F) {parts : List Str}
    (h : ∀ part ∈ parts, IsPathPart part) :
    fs.walk file ((['/'].intercalate parts).splitOn '/') = fs.walk file parts := by
  rcases eq_or_ne parts [] with rfl | hne
  · exact walk_nil_cons file []
  · rw [List.splitOn_intercalate '/' (fun part hmem ↦ (h part hmem).2.2) hne]

private theorem stat_str (path : PosixPath) :
    fs.stat path.str = fs.walk (if path.root = [] then fs.cwd else fs.root) path.parts := by
  have hhead := PosixPath.head?_intercalate path.isPathPart
  rcases path.str_cases with ⟨hroot, hparts, hstr⟩ | ⟨hstr, hne⟩
  · rw [hstr, hroot, hparts]
    rfl
  · rw [stat, if_neg hne, foldlM_eq_walk _ (List.splitOn_ne_nil _ _), hstr]
    have hmem := path.root_mem
    simp only [List.mem_cons, List.not_mem_nil, or_false] at hmem
    rcases hmem with hroot | hroot | hroot <;> rw [hroot]
    · rw [List.nil_append, if_neg hhead, if_pos rfl, walk_splitOn_intercalate _ path.isPathPart]
    · rw [List.singleton_append, List.head?_cons, if_pos rfl, if_neg (List.cons_ne_nil _ _),
        splitOn_cons_self, walk_nil_cons, walk_splitOn_intercalate _ path.isPathPart]
    · rw [List.cons_append, List.singleton_append, List.head?_cons, if_pos rfl,
        if_neg (List.cons_ne_nil _ _), splitOn_cons_self, splitOn_cons_self, walk_nil_cons,
        walk_nil_cons, walk_splitOn_intercalate _ path.isPathPart]

/-- The file at a path extended by a component. -/
theorem stat_str_child (directory : PosixPath) {part : Str} (h : IsPathPart part) :
    fs.stat (directory.child part h).str =
      (fs.stat directory.str).bind (fs.follow · part) := by
  rw [stat_str, stat_str]
  simp only [PosixPath.child, walk, List.foldlM_append, List.foldlM_cons, List.foldlM_nil,
    Option.bind_eq_bind, Option.bind_assoc, Option.pure_def, Option.bind_fun_some]
  rfl

/-- A regular file at a path extended by a component lies in the directory at that path. -/
theorem liesIn_of_isFile_child {directory : PosixPath} {part : Str} (h : IsPathPart part)
    (hf : fs.isFile (directory.child part h) = true) :
    fs.LiesIn (directory.child part h) directory part := by
  obtain ⟨file, hstat, hkind⟩ := (Option.any_eq_true _ _).mp hf
  have hregular : fs.kind file = .regular := of_decide_eq_true hkind
  obtain ⟨d, hd, hfollow⟩ :=
    Option.bind_eq_some_iff.mp ((stat_str_child directory h).symm.trans hstat)
  have hdir : fs.kind d = .directory := by
    by_contra hne
    simp [follow, hne] at hfollow
  have hparent : part ≠ ['.', '.'] := by
    rintro rfl
    obtain rfl : fs.parent d = file := by simpa [follow, hdir] using hfollow
    exact fs.kind_parent d hregular
  have hentry : fs.entry d part = some file := by
    simpa [follow, hdir, h.1, h.2.1, hparent] using hfollow
  exact ⟨hparent, d, file, hd, hdir, hentry, hregular, hstat⟩

end FileSystem
