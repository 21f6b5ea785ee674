import Stencil.Disk.Error
import Stencil.Text.Bytes

/-!
# A disk held in memory

A tree of directories and files, without links. Locations are the components from the root. A path
is followed component by component, each of which but the last must be a directory, and a double
dot leads up from wherever it is met.

Writing makes the directories above a file, writes beside it and renames, so a file is replaced
whole or not at all. The directories made stay even when the write fails.
-/

namespace Stencil

/-- The components of a place from the root, without double dots. -/
abbrev Loc := List Text

inductive Node where
  | dir
  | file (bytes : Bytes)
deriving DecidableEq, Repr

/-- What lies at each location other than the root, which is always a directory. -/
structure Tree where
  nodes : List (Loc × Node)
deriving DecidableEq, Repr

namespace Tree

def empty : Tree := ⟨[]⟩

def node? (t : Tree) (loc : Loc) : Option Node :=
  if loc = [] then some .dir else t.nodes.lookup loc

def putNode (loc : Loc) (node : Node) : List (Loc × Node) → List (Loc × Node)
  | [] => [(loc, node)]
  | entry :: rest =>
    if entry.1 = loc then (loc, node) :: rest else entry :: putNode loc node rest

def put (t : Tree) (loc : Loc) (node : Node) : Tree := ⟨putNode loc node t.nodes⟩

theorem lookup_putNode (loc other : Loc) (node : Node) (nodes : List (Loc × Node)) :
    (putNode loc node nodes).lookup other =
      if other = loc then some node else nodes.lookup other := by
  induction nodes with
  | nil =>
    by_cases h : other = loc
    · simp [putNode, h]
    · simp [putNode, List.lookup_cons, h, beq_eq_false_iff_ne.mpr h]
  | cons entry rest ih =>
    obtain ⟨key, value⟩ := entry
    by_cases hk : key = loc
    · subst hk
      by_cases h : other = key
      · simp [putNode, h]
      · simp [putNode, List.lookup_cons, h, beq_eq_false_iff_ne.mpr h]
    · by_cases h : other = key
      · subst h
        simp [putNode, hk]
      · simp [putNode, List.lookup_cons, hk, beq_eq_false_iff_ne.mpr h, ih]

@[simp] theorem node?_put_self (t : Tree) (loc : Loc) (node : Node) (h : loc ≠ []) :
    (t.put loc node).node? loc = some node := by
  simp [node?, put, h, lookup_putNode]

theorem node?_put_of_ne (t : Tree) (loc other : Loc) (node : Node) (h : other ≠ loc) :
    (t.put loc node).node? other = t.node? other := by
  simp [node?, put, h, lookup_putNode]

def erase (t : Tree) (loc : Loc) : Tree := ⟨t.nodes.filter fun entry => entry.1 ≠ loc⟩

def isBelow (above loc : Loc) : Bool := above.isPrefixOf loc && above.length < loc.length

def eraseBelow (t : Tree) (loc : Loc) : Tree :=
  ⟨t.nodes.filter fun entry => !isBelow loc entry.1⟩

/-- The files of a tree. -/
def files (t : Tree) : List (Loc × Bytes) :=
  t.nodes.filterMap fun
    | (_, .dir) => none
    | (loc, .file bytes) => some (loc, bytes)

def bytes? (t : Tree) (loc : Loc) : Option Bytes :=
  match t.node? loc with
  | some (.file bytes) => some bytes
  | _ => none

/-! ## Following paths -/

/-- The location one component further, from a directory. -/
def into (loc : Loc) (part : Text) : Loc :=
  if part = Path.parentName then loc.dropLast else loc ++ [part]

/-- Follows components from a location. Where they lead nothing need be. -/
def follow (t : Tree) : Loc → List Text → Except Errno Loc
  | loc, [] => .ok loc
  | loc, part :: parts =>
    match t.node? loc with
    | some .dir => t.follow (into loc part) parts
    | some (.file _) => .error .notDirectory
    | none => .error .noEntry

/-- The location of a path seen from the directory `here`. -/
def locate (t : Tree) (here : Loc) (p : Path) : Except Errno Loc :=
  t.follow (if p.isAbsolute then [] else here) p.parts

/-- What lies where a path leads. -/
def look (t : Tree) (here : Loc) (p : Path) : Except Errno (Loc × Node) := do
  let loc ← t.locate here p
  match t.node? loc with
  | some node => return (loc, node)
  | none => .error .noEntry

def isFile (t : Tree) (here : Loc) (p : Path) : Bool :=
  match t.look here p with
  | .ok (_, .file _) => true
  | _ => false

def isDir (t : Tree) (here : Loc) (p : Path) : Bool :=
  match t.look here p with
  | .ok (_, .dir) => true
  | _ => false

def isThere (t : Tree) (here : Loc) (p : Path) : Bool :=
  match t.look here p with
  | .ok _ => true
  | .error _ => false

/-- The path without double dots, from the root. -/
def resolve (here : Loc) (p : Path) : Path :=
  ⟨.slash, Path.collapse (if p.isAbsolute then [] else here) p.parts⟩

/-! ## Reading -/

def failure (p : Path) (errno : Errno) : OsError := .system errno p.text none

def read (t : Tree) (here : Loc) (p : Path) : Except OsError Bytes :=
  match t.look here p with
  | .error errno => .error (failure p errno)
  | .ok (_, .dir) => .error (failure p .isDirectory)
  | .ok (_, .file bytes) => .ok bytes

/-- The files below a directory, as components from it, leaving out every directory that `skip`
names and all that is below it. -/
def walk (t : Tree) (here : Loc) (p : Path) (skip : Text → Bool) : List (List Text) :=
  match t.look here p with
  | .ok (loc, .dir) =>
    t.files.filterMap fun (file, _) =>
      match loc.isPrefixOf? file with
      | some rest => if rest.dropLast.any skip then none else some rest
      | none => none
  | _ => []

/-! ## Writing -/

/-- Makes one directory. -/
def makeDir (t : Tree) (here : Loc) (p : Path) : Except Errno Tree :=
  match p.parts.getLast? with
  | none => .error .exists
  | some name =>
    match t.look here p.parent with
    | .error errno => .error errno
    | .ok (_, .file _) => .error .notDirectory
    | .ok (loc, .dir) =>
      if name = Path.parentName || (t.node? (loc ++ [name])).isSome then .error .exists
      else .ok (t.put (loc ++ [name]) .dir)

/-- The answer to a directory that could not be made: well enough if it is there. -/
def orThere (t : Tree) (here : Loc) (p : Path) (errno : Errno) : Tree × Except OsError Unit :=
  (t, if t.isDir here p then .ok () else .error (failure p errno))

/-- Makes a directory and those above it that are missing; what was made stays made. -/
def makeDirs (t : Tree) (here : Loc) (p : Path) : Tree × Except OsError Unit :=
  match t.makeDir here p with
  | .ok made => (made, .ok ())
  | .error .noEntry =>
    if _h : p.parts = [] then (t, .error (failure p .noEntry))
    else
      match t.makeDirs here p.parent with
      | (above, .error e) => (above, .error e)
      | (above, .ok ()) =>
        match above.makeDir here p with
        | .ok made => (made, .ok ())
        | .error .noEntry => (above, .error (failure p .noEntry))
        | .error errno => above.orThere here p errno
  | .error errno => t.orThere here p errno
termination_by p.parts.length
decreasing_by
  have := List.length_pos_iff.mpr _h
  simp only [Path.parent, List.length_dropLast]
  omega

/-- The file beside a path that a replacement is written to first. -/
def besideName (tag name : Text) : Text := Text.concat [".", name, ".tmp-", tag]

/-- Replaces a file whole, making the directories above it. -/
def replace (t : Tree) (here : Loc) (tag : Text) (p : Path) (bytes : Bytes) :
    Tree × Except OsError Unit :=
  match t.makeDirs here p.parent with
  | (t, .error e) => (t, .error e)
  | (t, .ok ()) =>
    let beside := p.withName (besideName tag p.name)
    let refuse (errno : Errno) : Tree × Except OsError Unit :=
      (t, .error (.system errno beside.text (some p.text)))
    if p.name = Path.parentName then refuse .busy
    else match t.locate here p with
      | .error errno => (t, .error (failure p errno))
      | .ok loc =>
        match t.node? loc with
        | some .dir => refuse .isDirectory
        | _ => (t.put loc (.file bytes), .ok ())

/-- Copies a file; onto a directory means into it, under the same name. -/
def copy (t : Tree) (here : Loc) (source target : Path) : Tree × Except OsError Unit :=
  match t.look here source with
  | .ok (from_, .file bytes) =>
    match t.makeDirs here target.parent with
    | (t, .error e) => (t, .error e)
    | (t, .ok ()) =>
      let inside := t.isDir here target
      let target := if inside then target.child source.name else target
      match t.locate here target with
      | .error errno => (t, .error (failure target errno))
      | .ok loc =>
        if loc = from_ then (t, .error (.sameFile source target inside))
        else match t.node? loc with
          | some .dir => (t, .error (failure target .isDirectory))
          | _ => (t.put loc (.file bytes), .ok ())
  | _ => (t, .error (.noSource source))

/-- Removes a directory and everything below it. The directory itself goes last, by its path, which
may have ceased to lead there. -/
def removeTree (t : Tree) (here : Loc) (p : Path) : Tree × Except OsError Unit :=
  match t.look here p with
  | .error errno => (t, .error (failure p errno))
  | .ok (_, .file _) => (t, .error (failure p .notDirectory))
  | .ok (loc, .dir) =>
    let t := t.eraseBelow loc
    match t.look here p with
    | .error errno => (t, .error (failure p errno))
    | .ok (loc, _) =>
      if p.name = Path.parentName then (t, .error (failure p .notEmpty))
      else if loc = [] then (t, .error (failure p .busy))
      else (t.erase loc, .ok ())

end Tree

end Stencil
