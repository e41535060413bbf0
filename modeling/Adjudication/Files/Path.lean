import Adjudication.Text.Quoted

/-!
Paths as names of files: an optional root and components, none empty and none a single dot. Components of two
dots stay as they are. The last component is the path's name; what follows the last dot of a name, unless the
dot is its first or last character, is its suffix together with the dot.
-/

namespace Adjudication.Files

/-- Where a path starts: at the working directory, at the root, or at the root written with exactly two
    slashes. -/
inductive Anchor where
  | none
  | root
  | doubleRoot
  deriving DecidableEq, Repr

structure Path where
  anchor : Anchor
  parts : List String
  deriving DecidableEq, Repr

namespace Path

/-- The pieces of a text between slashes. -/
def splitSlashes : List Char → List (List Char)
  | [] => [[]]
  | c :: rest =>
    if c = '/' then [] :: splitSlashes rest
    else
      match splitSlashes rest with
      | [] => [[c]]
      | piece :: pieces => (c :: piece) :: pieces

/-- A piece that names something. -/
def isPart (piece : List Char) : Bool := piece ≠ [] ∧ piece ≠ ['.']

def ofChars (s : List Char) : Path :=
  let slashes := (s.takeWhile (· = '/')).length
  let anchor := if slashes = 0 then .none else if slashes = 2 then .doubleRoot else .root
  ⟨anchor, ((splitSlashes s).filter isPart).map String.ofList⟩

def ofText (s : String) : Path := ofChars s.toList

/-- No piece has a slash. -/
theorem slash_not_mem_of_mem_splitSlashes {s piece : List Char} (h : piece ∈ splitSlashes s) : '/' ∉ piece := by
  fun_induction splitSlashes s generalizing piece with
  | case1 => simp_all
  | case2 rest ih =>
    rcases List.mem_cons.1 h with rfl | h
    · simp
    · exact ih h
  | case3 c rest hc he ih => simp_all [Ne.symm]
  | case4 c rest hc p ps he ih =>
    rcases List.mem_cons.1 h with rfl | h
    · have : '/' ∉ p := ih (by simp [he])
      simp [this, Ne.symm hc]
    · exact ih (by simp [he, h])

/-- The components of a path are no empty texts, no single dots, and hold no slash. -/
theorem mem_parts_ofText {s part : String} (h : part ∈ (ofText s).parts) :
    part.toList ≠ [] ∧ part.toList ≠ ['.'] ∧ '/' ∉ part.toList := by
  simp only [ofText, ofChars, List.mem_map, List.mem_filter, isPart, Bool.decide_and, Bool.and_eq_true,
    decide_eq_true_eq] at h
  obtain ⟨piece, ⟨hm, hne, hd⟩, rfl⟩ := h
  simp [hne, hd, slash_not_mem_of_mem_splitSlashes hm]

def anchorText : Anchor → String
  | .none => ""
  | .root => "/"
  | .doubleRoot => "//"

/-- The text of a path; the empty path is a single dot. -/
def text (p : Path) : String :=
  if p.anchor = .none ∧ p.parts = [] then "." else anchorText p.anchor ++ "/".intercalate p.parts

instance : ToString Path := ⟨text⟩

def isAbsolute (p : Path) : Bool := p.anchor ≠ .none

/-- `q` seen from `p`: an absolute path stands for itself. -/
def join (p q : Path) : Path := if q.isAbsolute then q else ⟨p.anchor, p.parts ++ q.parts⟩

/-- The path with a further text joined on. -/
def child (p : Path) (name : String) : Path := p.join (ofText name)

/-- The last component; nothing for a path without components. -/
def name (p : Path) : String := p.parts.getLast?.getD ""

def parent (p : Path) : Path := ⟨p.anchor, p.parts.dropLast⟩

/-- A name's suffix with its dot, and what stands before it. -/
def splitSuffix (name : List Char) : List Char × List Char :=
  let ending := (name.reverse.takeWhile (· ≠ '.')).reverse
  let stem := name.take (name.length - ending.length - 1)
  if ending = [] ∨ ending.length = name.length ∨ stem = [] then (name, [])
  else (stem, '.' :: ending)

def suffix (p : Path) : String := String.ofList (splitSuffix p.name.toList).2

/-- The path with its suffix exchanged, or with one added; a path without a name has none to exchange. -/
def withSuffix? (p : Path) (suffix : String) : Option Path :=
  if p.name = "" then none
  else
    let stem := String.ofList (splitSuffix p.name.toList).1
    some ⟨p.anchor, p.parts.dropLast ++ [stem ++ suffix]⟩

/-- How a path is shown as a value. -/
def shown (p : Path) : String := "PosixPath(" ++ Text.quote p.text ++ ")"

end Path
end Adjudication.Files
