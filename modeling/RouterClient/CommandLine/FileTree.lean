import RouterClient.CommandLine.FileName
import RouterClient.Failure
import RouterClient.Table

/-! # File trees

A working directory as a value: what a run may read, and what it leaves behind. A name can lead
out of the directory: to the directories that it is in, and to places of which nothing is known.
-/

namespace RouterClient.CommandLine

/-- What a name in a file tree stands for. -/
inductive FileEntry where
  | directory
  | file (bytes : ByteArray)

/-- Files are compared by the bytes that they hold. -/
instance : DecidableEq FileEntry
  | .directory, .directory => .isTrue rfl
  | .directory, .file _ | .file _, .directory => .isFalse nofun
  | .file a, .file b =>
    decidable_of_iff (a.data = b.data) (by simp only [FileEntry.file.injEq, ByteArray.ext_iff])

/-- Where a name can lead. -/
inductive Place where
  /-- To the working directory or below it. -/
  | inside (components : List String)
  /-- To a directory that the working directory is in. -/
  | above
  | beyond
  deriving DecidableEq, Repr

/-- The place that a component leads to from a directory. -/
def Place.step (component : String) : Place → Place
  | inside components =>
    if component = "." then .inside components
    else if component = ".." then
      if components.isEmpty then .above else .inside components.dropLast
    else .inside (components ++ [component])
  | above => if component = "." ∨ component = ".." then .above else .beyond
  | beyond => .beyond

/-- `Place.step`, for a component that may be too long. -/
def Place.step? (place : Place) (component : String) : Except FileFault Place :=
  if component.utf8ByteSize > componentLimit then .error .nameTooLong
  else .ok (place.step component)

def Place.start (name : String) : Place :=
  if isAbsolute name then .above else .inside []

/-- The directories and files below a working directory, each under its components. -/
structure FileTree where
  entries : Table (List String) FileEntry := []

namespace FileTree

/-- What is known to stand at a place. -/
def entry? (tree : FileTree) : Place → Option FileEntry
  | .inside [] => some .directory
  | .inside components => tree.entries.get? components
  | .above => some .directory
  | .beyond => none

/-- Put something at a place. What is put outside the working directory leaves no trace. -/
def put (tree : FileTree) (place : Place) (entry : FileEntry) : FileTree :=
  match place with
  | .inside components => ⟨tree.entries.insert components entry⟩
  | .above | .beyond => tree

/-- Follow components from a place. Every step starts in a directory and ends at something, unless
it leads to where nothing is known. -/
def walk (tree : FileTree) (place : Place) : List String → Except FileFault Place
  | [] => .ok place
  | component :: more =>
    match tree.entry? place with
    | none => .error .missing
    | some (.file _) => .error .notDirectory
    | some .directory => do
      let next ← place.step? component
      if next = .beyond then .ok .beyond
      else if (tree.entry? next).isSome then walk tree next more
      else .error .missing

def readText (tree : FileTree) (name : String) : Except FileFault String := do
  let place ← tree.walk (.start name) (componentsOf name)
  match tree.entry? place with
  | none => .error .missing
  | some .directory => .error .isDirectory
  | some (.file bytes) =>
    if endsInSlash name then .error .notDirectory
    else match String.fromUTF8? bytes with
      | some text => .ok text
      | none => .error .notText

/-- Follow components from a place, and make the directories that are missing. -/
def makeFrom (tree : FileTree) (place : Place) : List String → Except FileFault FileTree
  | [] =>
    match tree.entry? place with
    | some (.file _) => .error .occupied
    | _ => .ok tree
  | component :: more =>
    match tree.entry? place with
    | none => .error .missing
    | some (.file _) => .error .notDirectory
    | some .directory => do
      let next ← place.step? component
      if next = .beyond then .ok tree
      else if (tree.entry? next).isSome then makeFrom tree next more
      else makeFrom (tree.put next .directory) next more

/-- Make a directory and those it is in, as far as they are missing. -/
def makeDirectories (tree : FileTree) (name : String) : Except FileFault FileTree :=
  tree.makeFrom (.start name) (componentsOf name)

/-- Write a file, which is made if it is missing. -/
def writeText (tree : FileTree) (name text : String) : Except FileFault FileTree := do
  let components := componentsOf name
  let place ← tree.walk (.start name) components.dropLast
  match tree.entry? place, components.getLast? with
  | some (.file _), _ => .error .notDirectory
  | _, none => .error .isDirectory
  | _, some last =>
    if endsInSlash name then .error .isDirectory
    let target ← place.step? last
    if tree.entry? target == some .directory then .error .isDirectory
    else .ok (tree.put target (.file text.toUTF8))

/-- A tree with one more entry, and directories on the way to it. -/
def plant (tree : FileTree) (name : String) (entry : FileEntry) : FileTree :=
  let components := componentsOf name
  let ways := (List.range components.length).map fun n => Place.inside (components.take n)
  (ways.foldl (fun tree way => if (tree.entry? way).isSome then tree else tree.put way .directory)
    tree).put (.inside components) entry

/-- The files of a tree that another tree has not, or has with other bytes, by name. -/
def filesSince (tree before : FileTree) : List (String × ByteArray) :=
  let found := tree.entries.filterMap fun (components, entry) =>
    match entry with
    | .directory => none
    | .file bytes =>
      if before.entries.get? components == some (.file bytes) then none
      else some ("/".intercalate components, bytes)
  found.mergeSort fun a b => a.1 ≤ b.1

end FileTree

end RouterClient.CommandLine
