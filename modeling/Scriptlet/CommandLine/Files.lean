import Scriptlet.Text.Joined

/-!
# Files

Where a path leads in a tree of files.

**Paths.**  Empty components and single dots mean nothing, so a slash at the end means nothing
either.  Two dots lead to the directory above, if what stands before them is a directory.

**Limits.**  A component of more than `longestComponent` bytes cannot be looked up, nor can a path
of `longestPath` bytes or more.  A path with a null character leads nowhere.

**Outside.**  The tree is all that is known of the files: an absolute path, and one that leads
above the tree, reaches nothing but directories.
-/

namespace Scriptlet

/-- What a path leads to. -/
inductive FileAnswer where
  | notFile
  | unreachable
  | contents (bytes : ByteArray)

/-- The most bytes in a component of a path. -/
def longestComponent : Nat := 255

/-- A path of so many bytes is too long. -/
def longestPath : Nat := 4096

namespace FileAnswer

/-- Text in which every line ends in a newline alone. -/
def plainNewlines : List Char → List Char
  | [] => []
  | '\r' :: '\n' :: rest => '\n' :: plainNewlines rest
  | '\r' :: rest => '\n' :: plainNewlines rest
  | c :: rest => c :: plainNewlines rest

/-- The text of a file, if its bytes are UTF-8. -/
def decode? (bytes : ByteArray) : Option String :=
  (String.fromUTF8? bytes).map fun text => String.ofList (plainNewlines text.toList)

end FileAnswer

/-- A path: whether it starts at the root, and the components that mean something. -/
structure Path where
  absolute : Bool
  components : List String
  deriving DecidableEq, Repr

namespace Path

/-- The path that a text names. -/
def ofString (text : String) : Path :=
  ⟨text.toList.head? = some '/',
    ((Text.pieces '/' text.toList).map String.ofList).filter fun c => c != "" && c != "."⟩

/-- The number of bytes of a path. -/
def size (p : Path) : Nat :=
  (if p.absolute then 1 else 0) + (Text.joined "/" p.components).utf8ByteSize

/-- Whether a path cannot be looked up for its length alone. -/
def isOverlong (p : Path) : Bool :=
  longestPath ≤ p.size || p.components.any fun c => longestComponent < c.utf8ByteSize

end Path

/-- Files by the components of their paths. -/
structure FileTree where
  files : List (List String × ByteArray)

namespace FileTree

/-- A place that a path has led to. -/
inductive Place where
  | inside (components : List String)
  | outside

/-- The file at a place. -/
def file? (t : FileTree) : Place → Option ByteArray
  | .inside components => (t.files.find? fun f => f.1 == components).map Prod.snd
  | .outside => none

/-- Whether a place is there at all. -/
def exists_ (t : FileTree) : Place → Bool
  | .inside components => t.files.any fun f => components.isPrefixOf f.1
  | .outside => true

/-- The place above. -/
def above : Place → Place
  | .inside [] => .outside
  | .inside components => .inside components.dropLast
  | .outside => .outside

/-- The place that a component leads to. -/
def below? (t : FileTree) (place : Place) (component : String) : Option Place :=
  if component = ".." then some (above place)
  else
    match place with
    | .outside => none
    | .inside components =>
        let place := .inside (components ++ [component])
        if t.exists_ place then some place else none

/-- Follows components from a place. -/
def follow (t : FileTree) (place : Place) : List String → FileAnswer
  | [] =>
      match t.file? place with
      | some bytes => .contents bytes
      | none => .notFile
  | component :: rest =>
      if (t.file? place).isSome then .notFile
      else if longestComponent < component.utf8ByteSize then .unreachable
      else
        match t.below? place component with
        | some place => t.follow place rest
        | none => .notFile

/-- What a path leads to. -/
def probe (t : FileTree) (text : String) : FileAnswer :=
  let path := Path.ofString text
  if text.toList.contains '\x00' then .notFile
  else if longestPath ≤ path.size then .unreachable
  else t.follow (if path.absolute then .outside else .inside []) path.components

end FileTree

end Scriptlet
