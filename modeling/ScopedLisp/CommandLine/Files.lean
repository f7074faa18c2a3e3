/-!
# ScopedLisp.CommandLine.Files

Paths of program files, and what can be wrong with one.  A path is shown and followed
in its plain form: single slashes, no slash at its end, no component that stands for
the directory itself.  `FileTree` is a directory held in memory, for programs that do
not come from a disk.
-/

namespace ScopedLisp.CommandLine

/-! ## Paths -/

/-- Cut a text at each slash. -/
def splitSlashes : List Char → List (List Char)
  | [] => [[]]
  | c :: cs =>
    match splitSlashes cs with
    | [] => [[c]]
    | part :: parts => if c = '/' then [] :: part :: parts else (c :: part) :: parts

private theorem splitSlashes_ne_nil (cs : List Char) : splitSlashes cs ≠ [] := by
  cases cs with
  | nil => simp [splitSlashes]
  | cons c cs =>
    rw [splitSlashes]
    split
    · simp
    · split <;> simp

/-- Cutting loses nothing but the slashes between the parts. -/
theorem intercalate_splitSlashes (cs : List Char) :
    (['/'] : List Char).intercalate (splitSlashes cs) = cs := by
  induction cs with
  | nil => rfl
  | cons c cs ih =>
    rw [splitSlashes]
    cases h : splitSlashes cs with
    | nil => exact absurd h (splitSlashes_ne_nil cs)
    | cons part parts =>
      rw [h] at ih
      by_cases hc : c = '/'
      · simp [hc, List.intercalate] at ih ⊢
        exact ih
      · cases parts <;> simp [hc, List.intercalate] at ih ⊢ <;> exact ih

/-- No part holds a slash. -/
theorem slash_not_mem_of_mem_splitSlashes {cs part : List Char} (h : part ∈ splitSlashes cs) :
    '/' ∉ part := by
  induction cs generalizing part with
  | nil => simp_all [splitSlashes]
  | cons c cs ih =>
    rw [splitSlashes] at h
    cases hs : splitSlashes cs with
    | nil => exact absurd hs (splitSlashes_ne_nil cs)
    | cons first parts => grind

/-- The slashes that an absolute path begins with: one, or exactly two where there are exactly two. -/
def rootOf : List Char → List Char
  | '/' :: '/' :: '/' :: _ => ['/']
  | '/' :: '/' :: _ => ['/', '/']
  | '/' :: _ => ['/']
  | _ => []

/-- The components of a path, without those that change nothing. -/
def componentsOf (path : List Char) : List (List Char) :=
  (splitSlashes path).filter fun part => part ≠ [] ∧ part ≠ ['.']

/-- A path in its plain form. -/
def plainPath (path : String) : String :=
  let cs := path.toList
  let plain := rootOf cs ++ (['/'] : List Char).intercalate (componentsOf cs)
  if plain.isEmpty then "." else String.ofList plain

/-! ## Files -/

/-- Why a file cannot be read. -/
inductive FileFailure where
  | notFound
  | isDirectory
  | notDirectory
  | nameTooLong
  /-- Anything else, in the words of the system. -/
  | other (text : String)
  deriving DecidableEq, Repr

/-- The words of the system for a failure. -/
def FileFailure.text : FileFailure → String
  | .notFound => "No such file or directory"
  | .isDirectory => "Is a directory"
  | .notDirectory => "Not a directory"
  | .nameTooLong => "File name too long"
  | .other text => text

/-- A file, or a directory with the names in it. -/
inductive FileTree where
  | file (content : ByteArray)
  | directory (entries : List (String × FileTree))

namespace FileTree

/-- The empty directory. -/
def empty : FileTree := .directory []

instance : Inhabited FileTree := ⟨empty⟩

/-- What a directory holds under a name. -/
def entry? (tree : FileTree) (name : String) : Option FileTree :=
  match tree with
  | .file _ => none
  | .directory entries => entries.lookup name

/-- A directory with something under a name, in place of what was there. -/
def setEntry (tree : FileTree) (name : String) (child : FileTree) : FileTree :=
  match tree with
  | .file _ => tree
  | .directory entries => .directory ((name, child) :: entries.filter (·.1 ≠ name))

/-- Put a tree at a place, making the directories on the way. -/
def insert (content : FileTree) : List String → FileTree → FileTree
  | [], _ => content
  | name :: names, tree => tree.setEntry name (insert content names ((tree.entry? name).getD empty))

/-- The bytes that a name may have at most. -/
def nameLimit : Nat := 255

/-- The bytes that a whole path may have at most. -/
def pathLimit : Nat := 4095

/-- Follow components from a tree; `above` are the directories around it, innermost first.
Outside of all of them there is nothing. -/
def follow (above : List FileTree) (tree : FileTree) : List String → Except FileFailure ByteArray
  | [] =>
    match tree with
    | .file content => .ok content
    | .directory _ => .error .isDirectory
  | name :: names =>
    match tree with
    | .file _ => .error .notDirectory
    | .directory entries =>
      if name = ".." then
        match above with
        | [] => follow [] empty names
        | outer :: others => follow others outer names
      else if nameLimit < name.utf8ByteSize then .error .nameTooLong
      else match entries.lookup name with
        | none => .error .notFound
        | some child => follow (tree :: above) child names

/-- The content of the file at a path; absolute paths lead into the tree `outside`. -/
def read (tree outside : FileTree) (path : String) : Except FileFailure ByteArray :=
  let cs := path.toList
  let names := (componentsOf cs).map String.ofList
  if pathLimit < path.utf8ByteSize then .error .nameTooLong
  else follow [] (if rootOf cs = [] then tree else outside) names

end FileTree

end ScopedLisp.CommandLine
