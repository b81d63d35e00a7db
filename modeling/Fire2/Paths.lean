import Mathlib.Data.List.Basic

/-! Slash-separated paths, as path/filepath cleans and joins them on Unix. A
string has one character for each byte of a path. -/

namespace Fire2.Paths

/-- A path without `.`, doubled slashes or a `..` that could be resolved; its last
element comes first. -/
structure Path where
  rooted : Bool
  parts : List String
  deriving DecidableEq, Repr

namespace Path

/-- An element of a path seen from where the elements before it lead to. The root
is its own parent, and a relative path keeps the `..` it starts with. -/
def enter (p : Path) (element : String) : Path :=
  if element = "" ∨ element = "." then p
  else if element = ".." then
    match p.parts with
    | [] => if p.rooted then p else { p with parts := [".."] }
    | last :: before =>
      if last = ".." then { p with parts := ".." :: p.parts } else { p with parts := before }
  else { p with parts := element :: p.parts }

def child (p : Path) (name : String) : Path := { p with parts := name :: p.parts }

theorem child_ne (p : Path) (name : String) : p.child name ≠ p := fun h =>
  List.cons_ne_self name p.parts (congrArg parts h)

end Path

def isSlash (c : Char) : Bool := c = '/'

def elements (path : String) : List String := (path.toList.splitOnP isSlash).map String.ofList

/-- `filepath.Clean`. -/
def clean (path : String) : Path :=
  (elements path).foldl Path.enter ⟨path.toList.head? = some '/', []⟩

/-- `filepath.Join`; the empty string when there is nothing to join. -/
def join : List String → Option Path
  | [] => none
  | path :: paths =>
    if path = "" then join paths else some (clean ("/".intercalate (path :: paths)))

/-- A name that leads to an entry of a directory, whatever the directory. -/
structure Plain (name : String) : Prop where
  single : '/' ∉ name.toList
  named : name ≠ "" ∧ name ≠ "." ∧ name ≠ ".."

section Names
variable {dir name : String}

theorem Plain.enter (h : Plain name) (p : Path) : p.enter name = p.child name := by
  obtain ⟨empty, here, up⟩ := h.named
  simp [Path.enter, Path.child, empty, here, up]

theorem Plain.elements (h : Plain name) : elements name = [name] := by
  have one : name.toList.splitOnP isSlash = [name.toList] :=
    List.splitOnP_eq_singleton fun c mem => decide_eq_false fun slash => h.single (slash ▸ mem)
  rw [Paths.elements, one, List.map_singleton, String.ofList_toList]

theorem elements_append (a b : String) : elements (a ++ "/" ++ b) = elements a ++ elements b := by
  have slash : isSlash '/' = true := by decide
  simp only [elements, String.toList_append]
  rw [show "/".toList = ['/'] from rfl, List.append_assoc, List.singleton_append,
    List.splitOnP_append_cons _ _ slash, List.map_append]

theorem Plain.join (h : Plain name) (given : dir ≠ "") :
    join [dir, name] = some ((clean dir).child name) := by
  have start : (dir ++ "/" ++ name).toList.head? = dir.toList.head? := by
    obtain ⟨c, rest, eq⟩ := List.exists_cons_of_ne_nil
      (fun nil => given (String.toList_eq_nil_iff.1 nil))
    simp [eq]
  have joined : "/".intercalate [dir, name] = dir ++ "/" ++ name := rfl
  rw [Paths.join, if_neg given, joined, clean, elements_append, start,
    List.foldl_append, h.elements, List.foldl_cons, List.foldl_nil, h.enter, clean]

end Names
end Fire2.Paths
