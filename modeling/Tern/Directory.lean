/-!
# Directories

What a path leads to from the directory that a command runs in. A path is a text of *names* with
slashes between them, and it is followed name by name: the first name that leads nowhere ends the
search. The system takes neither names nor paths of any length. A path that is too long cannot be
followed at all, and a name that is too long cannot even be missing.

Two facts fix how a path is read: no name holds a slash (`slash_not_mem_of_mem_splitSlashes`), and
the empty path stays in the directory (`Directory.find_empty`).
-/

namespace Tern

/-! ## Paths -/

/-- The texts before, between and after the slashes. -/
def splitSlashes : List Char → List (List Char)
  | [] => [[]]
  | c :: rest =>
    if c = '/' then [] :: splitSlashes rest
    else
      match splitSlashes rest with
      | [] => [[c]]
      | name :: names => (c :: name) :: names

theorem slash_not_mem_of_mem_splitSlashes {name cs : List Char} (h : name ∈ splitSlashes cs) :
    '/' ∉ name := by
  fun_induction splitSlashes cs generalizing name with
  | case1 => simp_all
  | case2 rest ih =>
    rcases List.mem_cons.mp h with rfl | h
    · simp
    · exact ih h
  | case3 c rest hc heq ih => simp_all [Ne.symm hc]
  | case4 c rest hc first names heq ih =>
    rw [heq] at ih
    rcases List.mem_cons.mp h with rfl | h
    · simp [Ne.symm hc, ih List.mem_cons_self]
    · exact ih (List.mem_cons_of_mem _ h)

/-- A way through directories by names. An absolute path starts at the outermost directory. -/
structure Path where
  absolute : Bool
  names : List String
  deriving Repr, DecidableEq

/-- Reads a path. Slashes that follow each other count as one, and a single dot stays in place. -/
def Path.ofText (text : String) : Path :=
  { absolute := text.toList.head? = some '/'
    names := ((splitSlashes text.toList).filter fun name => name ≠ [] ∧ name ≠ ['.']).map
      String.ofList }

/-- The number of bytes of a path that is written with single slashes. -/
def Path.size (p : Path) : Nat :=
  (if p.absolute then 1 else 0) + ("/".intercalate p.names).utf8ByteSize

/-- The number of bytes that a path may have. -/
def longestPath : Nat := 4095

/-- The number of bytes that a name may have. -/
def longestName : Nat := 255

/-! ## What there is -/

/-- Why there is no reading what a path leads to. -/
inductive Unreadable
  /-- It is a directory. -/
  | directory
  /-- The path, or a name that is needed on the way, is too long. -/
  | tooLong
  deriving Repr, DecidableEq

/-- What a path leads to. -/
inductive Found
  | nothing
  | file (content : String)
  | unreadable (why : Unreadable)
  deriving Repr, DecidableEq

/-- The files of a directory and of those below it, each under the names that lead to it. A
directory below is there when there is a file in it. -/
structure Directory where
  files : List (List String × String)
  deriving Repr, DecidableEq

/-- The directory that holds the given files under their paths. -/
def Directory.ofFiles (files : List (String × String)) : Directory :=
  ⟨files.map fun (path, content) => ((Path.ofText path).names, content)⟩

/-- What names lead to. -/
def Directory.entry (d : Directory) (names : List String) : Found :=
  match d.files.find? (·.1 = names) with
  | some (_, content) => .file content
  | none =>
    if d.files.any (names.isPrefixOf ·.1) then .unreadable .directory else .nothing

/-! ## Following a path -/

/-- Where a path has led to: a directory around the one it was followed from, or one in it by
the names that lead there, the last one first. -/
inductive Place
  | around
  | below (names : List String)
  deriving Repr, DecidableEq

def Place.parent : Place → Place
  | around | below [] => around
  | below (_ :: names) => below names

/-- Goes on by names. Nothing is known of the directories around but that they are there. -/
def Directory.follow (d : Directory) : Place → List String → Found
  | _, [] => .unreadable .directory
  | place, name :: rest =>
    if longestName < name.utf8ByteSize then .unreadable .tooLong
    else if name = ".." then d.follow place.parent rest
    else
      match place with
      | .around => .nothing
      | .below names =>
        match d.entry (name :: names).reverse with
        | .nothing => .nothing
        | .file content => if rest = [] then .file content else .nothing
        | .unreadable _ => d.follow (.below (name :: names)) rest

/-- What the path of a text leads to. There is nothing at a text with a null character. -/
def Directory.find (d : Directory) (text : String) : Found :=
  let path := Path.ofText text
  if '\x00' ∈ text.toList then .nothing
  else if longestPath < path.size then .unreadable .tooLong
  else d.follow (if path.absolute then .around else .below []) path.names

/-- The empty path stays in the directory. -/
theorem Directory.find_empty (d : Directory) : d.find "" = .unreadable .directory := rfl

end Tern
