/-!
Paths of documents as lists of components. Writing `.` between other components or a slash twice
makes no difference; `normalize` also removes `.` and `..`.
-/

namespace CppRefactor

inductive Component
  | root
  | here
  | up
  | name (text : String)
  deriving DecidableEq, Repr, Inhabited

structure Path where
  components : List Component
  deriving DecidableEq, Repr, Inhabited

namespace Component

def rank : Component → Nat
  | root => 0
  | here => 1
  | up => 2
  | name _ => 3

/-- The order of components: the root, `.`, `..`, then names by their characters. -/
def before : Component → Component → Bool
  | name s, name t => decide (s < t)
  | c, d => decide (c.rank < d.rank)

def text : Component → String
  | root => ""
  | here => "."
  | up => ".."
  | name s => s

end Component

namespace Path

def isAbsolute (p : Path) : Bool := p.components.head? == some .root

/-- A piece between slashes; an empty one or a dot in the middle is no component. -/
def piece? (piece : String) : Option Component :=
  if piece == "" || piece == "." then none
  else if piece == ".." then some .up
  else some (.name piece)

/-- The pieces of a text between slashes. -/
def pieces : List Char → List (List Char)
  | [] => [[]]
  | c :: cs =>
    if c = '/' then [] :: pieces cs
    else
      match pieces cs with
      | [] => [[c]]
      | p :: ps => (c :: p) :: ps

def ofString (text : String) : Path :=
  let pieces := (pieces text.toList).map String.ofList
  let rest := pieces.filterMap piece?
  match pieces with
  | "" :: _ :: _ => ⟨.root :: rest⟩
  | "." :: _ => ⟨.here :: rest⟩
  | _ => ⟨rest⟩

def text (p : Path) : String :=
  match p.components with
  | [.root] => "/"
  | cs => "/".intercalate (cs.map Component.text)

/-- Component by component; a path comes before those that go on from it. -/
def before (p q : Path) : Bool := go p.components q.components
where
  go : List Component → List Component → Bool
    | [], [] => false
    | [], _ :: _ => true
    | _ :: _, [] => false
    | c :: cs, d :: ds => if c = d then go cs ds else c.before d

/-- Takes a component behind those on the stack, the last of which is on top. `..` takes one off,
unless there is none but the root. -/
def push (stack : List Component) : Component → List Component
  | .here => stack
  | .up =>
    match stack with
    | [] | .root :: _ => .up :: stack
    | _ :: rest => rest
  | c => c :: stack

def normalize (p : Path) : Path := ⟨(p.components.foldl push []).reverse⟩

/-- `q` as seen from `p`. -/
def join (p q : Path) : Path :=
  if q.isAbsolute then q else ⟨p.components ++ q.components.filter (· != .here)⟩

/-- The components behind those of a prefix. -/
def behind? : List Component → List Component → Option (List Component)
  | [], cs => some cs
  | _ :: _, [] => none
  | d :: ds, c :: cs => if d = c then behind? ds cs else none

/-- The path from a directory on, if the path goes through it as written. -/
def from? (p dir : Path) : Option Path := (behind? dir.components p.components).map Path.mk

/-- The components between slashes; a root is a slash of its own. -/
def slashed (p : Path) : String :=
  "/".intercalate (p.components.map fun c => if c = .root then "/" else c.text)

/-- The path without its last component; the root and the empty path have none. -/
def parent? (p : Path) : Option Path :=
  match p.components.getLast? with
  | none | some .root => none
  | _ => some ⟨p.components.dropLast⟩

def fileName? (p : Path) : Option String :=
  match p.components.getLast? with
  | some (.name s) => some s
  | _ => none

/-- A file name at its last dot; one that only starts with a dot is not split. -/
def splitName (name : String) : String × Option String :=
  let cs := name.toList.reverse
  let tail := cs.takeWhile (· != '.')
  match cs.dropWhile (· != '.') with
  | [] | [_] => (name, none)
  | _ :: stem => (.ofList stem.reverse, some (.ofList tail.reverse))

def stem? (p : Path) : Option String := p.fileName?.map fun n => (splitName n).1

def extension? (p : Path) : Option String := p.fileName?.bind fun n => (splitName n).2

/-- The same directory with another file name. -/
def withFileName (p : Path) (name : String) : Path :=
  match p.fileName? with
  | some _ => ⟨p.components.dropLast ++ [.name name]⟩
  | none => ⟨p.components ++ [.name name]⟩

end Path

end CppRefactor
