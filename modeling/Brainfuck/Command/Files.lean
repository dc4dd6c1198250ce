namespace Brainfuck.Command

/-- What a path leads to. -/
inductive Entry where
  | missing
  | directory
  | file (contents : ByteArray)
  /-- A file stands in the way. -/
  | obstructed
  | tooLong
  /-- The path cannot name anything. -/
  | invalid

/-- Files and directories with their paths. -/
abbrev Files := List (String × Entry)

namespace Path

/-- The bytes of a name are no more. -/
def maxNameSize : Nat := 255

/-- The bytes of a path are no more. -/
def maxSize : Nat := 4095

/-- Split at slashes. -/
def parts : List Char → List (List Char)
  | [] => [[]]
  | char :: rest =>
    if char = '/' then [] :: parts rest
    else
      match parts rest with
      | [] => [[char]]
      | part :: others => (char :: part) :: others

/-- The names along a path; empty ones and the name of the directory itself say
nothing. -/
def names (path : String) : List String :=
  ((parts path.toList).map String.ofList).filter fun name => name ≠ "" ∧ name ≠ "."

/-- The slashes that a path from the root begins with. Two of them are kept, as
they may mean another root. -/
def root (path : String) : String :=
  match (path.toList.takeWhile (· = '/')).length with
  | 0 => ""
  | 2 => "//"
  | _ => "/"

/-- A path with nothing in it that could be left out. -/
def shorten (path : String) : String :=
  let shortened := root path ++ "/".intercalate (names path)
  if shortened = "" then "." else shortened

/-- The directory above. -/
def above : String := ".."

end Path

/-- A place on the way along a path. -/
inductive Place where
  /-- At or below the start; the innermost name comes first. -/
  | below (names : List String)
  /-- A directory above the start, or the root. -/
  | outside
  deriving DecidableEq, Repr

/-- One place up. There is nothing above the root. -/
def Place.parent : Place → Place
  | below (_ :: names) => below names
  | below [] | outside => outside

namespace Files

/-- What stands at a place. Directories are those given, those that lead to
something given, the start and those above. -/
def entryAt (files : Files) : Place → Entry
  | .outside | .below [] => .directory
  | .below names =>
    let wanted := names.reverse
    match files.find? fun (known, _) => Path.names known == wanted with
    | some (_, entry) => entry
    | none =>
      if files.any fun (known, _) => wanted.isPrefixOf (Path.names known) then .directory
      else .missing

/-- Go along names. Each step leads on from a directory; outside, nothing has a
name. -/
def follow (files : Files) (place : Place) : List String → Entry
  | [] => files.entryAt place
  | name :: rest =>
    match files.entryAt place with
    | .directory =>
      if name = Path.above then follow files place.parent rest
      else if Path.maxNameSize < name.utf8ByteSize then .tooLong
      else
        match place with
        | .below names => follow files (.below (name :: names)) rest
        | .outside => .missing
    | .file _ => .obstructed
    | entry => entry

/-- What is found at a path. -/
def find (files : Files) (path : String) : Entry :=
  if path.toList.contains '\x00' then .invalid
  else if Path.maxSize < (Path.shorten path).utf8ByteSize then .tooLong
  else files.follow (if Path.root path = "" then .below [] else .outside) (Path.names path)

end Files
end Brainfuck.Command
