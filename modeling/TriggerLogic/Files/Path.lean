import TriggerLogic.Text.Basic

namespace TriggerLogic

abbrev Path := Text

namespace Path

/-- The start that a path keeps whatever follows: a slash, or a dot that is its first step. -/
def anchor (path : Path) : Text :=
  match path with
  | '/' :: _ => ['/']
  | ['.'] => ['.']
  | '.' :: '/' :: _ => ['.']
  | _ => []

def segmentsBack (path : Path) : List Text :=
  ((path.drop (anchor path).length).splitOn '/').reverse

def isIdle (segment : Text) : Bool :=
  segment.isEmpty || segment == ['.']

def ofSegmentsBack (anchor : Text) (segments : List Text) : Path :=
  anchor ++ Text.join ['/'] segments.reverse

/-- For each step of the path, the last one first, the segments before it. -/
def stepsBack : List Text → List (List Text)
  | [] => []
  | segment :: before =>
    if isIdle segment then stepsBack before else before.dropWhile isIdle :: stepsBack before

def parents (path : Path) : List Path :=
  (stepsBack (segmentsBack path)).map (ofSegmentsBack (anchor path)) ++
    if anchor path = ['.'] then [[]] else []

def parent? (path : Path) : Option Path :=
  (parents path).head?

def fileName? (path : Path) : Option Text :=
  match (segmentsBack path).dropWhile isIdle with
  | [] => none
  | segment :: _ => if segment = ['.', '.'] then none else some segment

def join (path child : Path) : Path :=
  if child.head? = some '/' then child
  else if path.isEmpty || path.getLast? = some '/' then path ++ child
  else path ++ '/' :: child

end Path

end TriggerLogic
