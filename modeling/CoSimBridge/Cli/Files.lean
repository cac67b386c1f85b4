/-!
Files as the command line sees them.

Paths use `/` as separator. Cleaning a path removes empty and `.` segments and lets `..` cancel
the segment before it (at the root it is dropped; in a relative path with nothing to cancel it
stays); an empty result is `.`. A relative path in a configuration is resolved against the
directory of the configuration file.

Reading a file can fail in two ways: the file cannot be opened (missing, or a path that runs
through a regular file), or it opens but cannot be read (a directory). The messages name the
path as it was given.

A file tree held in memory maps relative paths to contents; its directories are the prefixes
of its paths. Reading from it follows a path segment by segment, so `a/../b` needs a directory
`a`, and a path that goes on past a regular file (`f/`, `f/.`, `f/../b`) fails.
-/

namespace CoSimBridge.Cli

/-- Why a file could not be read; the message names the path as given. -/
inductive FileFailure where
  /-- It could not be opened. -/
  | opening (message : String)
  /-- It opened but could not be read. -/
  | reading (message : String)
deriving Repr, Inhabited

/-- The message of a failure. -/
def FileFailure.message : FileFailure → String
  | .opening m | .reading m => m

namespace Path

/-- Whether a path starts at the root. -/
def isAbsolute (p : String) : Bool := p.startsWith "/"

/-- The segments of a cleaned path, processing `..` against what came before. -/
def cleanSegments (rooted : Bool) : List String → List String → List String
  | acc, [] => acc.reverse
  | acc, s :: rest =>
    if s == "" || s == "." then cleanSegments rooted acc rest
    else if s == ".." then
      match acc with
      | top :: below => if top != ".." then cleanSegments rooted below rest
          else cleanSegments rooted (".." :: acc) rest
      | [] => if rooted then cleanSegments rooted [] rest else cleanSegments rooted [".."] rest
    else cleanSegments rooted (s :: acc) rest

/-- The shortest path naming the same file by purely lexical processing. -/
def clean (p : String) : String :=
  let rooted := isAbsolute p
  let body := "/".intercalate (cleanSegments rooted [] (p.splitOn "/"))
  if rooted then "/" ++ body
  else if body == "" then "." else body

/-- Everything but the last element, cleaned; `.` for a bare name. -/
def dir (p : String) : String :=
  let parts := p.splitOn "/"
  if parts.length ≤ 1 then "."
  else
    let head := "/".intercalate (parts.take (parts.length - 1))
    clean (if head == "" then "/" else head)

/-- Joins two paths and cleans the result. -/
def join (a b : String) : String :=
  if a == "" then (if b == "" then "" else clean b) else clean (a ++ "/" ++ b)

end Path

/-- What a path reaches in a file tree. -/
inductive Reached where
  | file (text : String)
  | directory
  | missing
  /-- A segment names a regular file and more of the path follows it. -/
  | notDirectory
deriving Repr, Inhabited

/-- Follows path segments, one at a time, from a directory of an in-memory tree given by its
segments from the top (none outside the tree, where nothing is known to exist). Empty and `.`
segments stay; `..` goes up; a name must be a file (and the last segment) or a directory. -/
def walk (files : List (String × String)) : Option (List String) → List String → Reached
  | _, [] => .directory
  | at_, s :: rest =>
    if s == "" || s == "." then walk files at_ rest
    else if s == ".." then
      match at_ with
      | some (_ :: _) => walk files (at_.map List.dropLast) rest
      | _ => walk files none rest
    else match at_ with
      | none => .missing
      | some dir =>
        let here := "/".intercalate (dir ++ [s])
        match files.lookup here with
        | some text => if rest.isEmpty then .file text else .notDirectory
        | none =>
          if files.any fun (k, _) => k.startsWith (here ++ "/") then walk files (some (dir ++ [s])) rest
          else .missing

/-- Reads a file of an in-memory tree, whose keys are relative paths, resolving the path one
segment at a time as a file system does. -/
def readMemory (files : List (String × String)) (path : String) : Except FileFailure String :=
  let keys := files.map fun (k, v) => (Path.clean k, v)
  let start := if Path.isAbsolute path then none else some []
  match (if path == "" then .missing else walk keys start (path.splitOn "/")) with
  | .file text => .ok text
  | .directory => .error (.reading ("read " ++ path ++ ": is a directory"))
  | .missing => .error (.opening ("open " ++ path ++ ": no such file or directory"))
  | .notDirectory => .error (.opening ("open " ++ path ++ ": not a directory"))

end CoSimBridge.Cli
