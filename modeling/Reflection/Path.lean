/-!
# Paths

A path is a list of components that slashes separate. Empty components and single dots say nothing
and are left out; the empty path is a single dot.
-/
namespace Reflection.Path

/-- Components of a path; slashes at the start and components that say nothing are left out. -/
def components (path : String) : List String :=
  ((path.toList.splitOn '/').map String.ofList).filter fun c => c != "" && c != "."

/-- The slashes that begin a path: none, one, or two where exactly two are written. -/
def root (path : String) : String :=
  match path.toList with
  | '/' :: '/' :: '/' :: _ => "/"
  | '/' :: '/' :: _ => "//"
  | '/' :: _ => "/"
  | _ => ""

/-- Text of a path. -/
def normal (path : String) : String :=
  let body := root path ++ "/".intercalate (components path)
  if body = "" then "." else body

/-- Components of a relative path with each double dot taken together with the component before it;
none when the path leaves the directory that it is relative to. -/
def resolve? (path : String) : Option (List String) :=
  (components path).foldl (fun done c => done.bind fun done =>
    if c = ".." then (if done.isEmpty then none else some done.dropLast) else some (done ++ [c]))
    (some [])

end Reflection.Path
