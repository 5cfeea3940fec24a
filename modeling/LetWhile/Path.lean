/-!
# Paths

A path is a list of names with slashes between them. Cleaning one removes names that lead nowhere:
empty ones, a single dot, and two dots together with the name in front of them.
-/

namespace LetWhile.Path

/-- The names of a path. -/
def names (path : String) : List String :=
  (path.toList.splitOn '/').map String.ofList

/-- Follows one more name behind `done`, the names so far in reverse order. Above the root there is
nothing. -/
def follow (rooted : Bool) (done : List String) (name : String) : List String :=
  if name = "" ∨ name = "." then done
  else if name = ".." then
    match done with
    | top :: rest => if top = ".." then ".." :: done else rest
    | [] => if rooted then [] else [".."]
  else name :: done

/-- The shortest path to the same place. -/
def clean (path : String) : String :=
  let rooted := path.toList.head? = some '/'
  let done := (names path).foldl (follow rooted) []
  let text := "/".intercalate done.reverse
  if rooted then "/" ++ text else if text = "" then "." else text

/-- A path behind another one, cleaned. -/
def join (first second : String) : String :=
  clean ("/".intercalate ([first, second].filter (· ≠ "")))

end LetWhile.Path
