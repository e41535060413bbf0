import Adjudication.Schema.Shape
import Adjudication.Text.Base64
import Adjudication.Yaml.Node
import Adjudication.Yaml.Scalar

/-!
The values that nodes stand for. Collections are filled level by level, so that of several faults the one counts
that lies least deep. Members that are merged into a table stand before its own; of two values under one key the
later counts.
-/

namespace Adjudication

/-- A value of a YAML text. Members of tables under keys that are no texts are left out, for no record asks for
    them. -/
inductive Yaml where
  | null
  | bool (b : Bool)
  | int (i : Int)
  | double (x : Float)
  | text (s : String)
  /-- A text that is torn. -/
  | torn (t : Text.Torn)
  | bytes (b : Text.Utf8.Bytes)
  /-- A day, or a time of a day. -/
  | moment (timed : Bool)
  | list (items : List Yaml)
  | set (items : List Yaml)
  | table (members : List (String × Yaml))
  deriving Inhabited

namespace Yaml

instance : Schema.Shaped Yaml where
  shape
    | null => .null
    | bool b => .bool b
    | int i => .int i
    | double x => .double x
    | text s => .text s
    | torn t => .torn t
    | bytes b => .bytes b
    | moment _ => .other
    | list items | set items => .list items
    | table ms => .table (ms.map fun (name, v) => (.text name, v))

/-- What a value is called. -/
def noun : Yaml → String
  | null => "NoneType"
  | bool _ => "bool"
  | int _ => "int"
  | double _ => "float"
  | text _ | torn _ => "str"
  | bytes _ => "bytes"
  | moment timed => if timed then "datetime.datetime" else "datetime.date"
  | list _ => "list"
  | set _ => "set"
  | table _ => "dict"

/-- Whether a value says nothing: null, false, zero, or a text or collection without parts. A table counts as
    saying something even if only members without names are in it, or none at all. -/
def isBlank : Yaml → Bool
  | null => true
  | bool b => !b
  | int i => i = 0
  | double x => x == 0.0
  | text s => s = ""
  | torn _ => false
  | bytes b => b.isEmpty
  | moment _ => false
  | list items | set items => items.isEmpty
  | table _ => false

def isText : Yaml → Bool
  | text _ => true
  | _ => false

/-! ### Members -/

/-- Puts a value under a name: in the place of the value that is there, or at the end. -/
def put (name : String) (v : Yaml) : List (String × Yaml) → List (String × Yaml)
  | [] => [(name, v)]
  | m :: rest => if m.1 = name then (name, v) :: rest else m :: put name v rest

/-- The members with texts for keys; of those with one key the last counts. -/
def membersOf (pairs : List (Yaml × Yaml)) : List (String × Yaml) :=
  pairs.foldl (fun ms p => match p.1 with
    | text name => put name p.2 ms
    | _ => ms) []

/-- The items with every text once. -/
def distinct (items : List Yaml) : List Yaml :=
  let names := (membersOf (items.map fun i => (i, i))).map Prod.snd
  names ++ items.filter fun i => !i.isText

theorem lookup_put (name : String) (v : Yaml) (ms : List (String × Yaml)) :
    Schema.lookup name (put name v ms) = some v := by
  induction ms with
  | nil => simp [put, Schema.lookup]
  | cons m rest ih =>
    by_cases h : m.1 = name
    · simp [put, Schema.lookup, h]
    · simpa [put, Schema.lookup, h] using ih

theorem lookup_put_of_ne {name other : String} (h : name ≠ other) (v : Yaml) (ms : List (String × Yaml)) :
    Schema.lookup other (put name v ms) = Schema.lookup other ms := by
  induction ms with
  | nil => simp [put, Schema.lookup, h]
  | cons m rest ih =>
    by_cases hm : m.1 = name
    · simp [put, Schema.lookup, hm, h]
    · by_cases ho : m.1 = other
      · simp [put, Schema.lookup, ho, Ne.symm h]
      · simpa [put, Schema.lookup, hm, ho] using ih

/-! ### Faults by depth -/

/-- A result, or a fault and how deep it lies. -/
abbrev Found (α : Type) := Except (Nat × Fault) α

namespace Found

variable {α β : Type}

def fault (f : Fault) : Found α := .error (0, f)

/-- A result of what lies a level deeper. -/
def deeper (r : Found α) : Found α := r.mapError fun e => (e.1 + 1, e.2)

def ofExcept (r : Except Fault α) : Found α := r.mapError fun f => (0, f)

/-- Both results. Of two faults the first counts, unless the second lies less deep. -/
def both : Found α → Found β → Found (α × β)
  | .ok a, .ok b => .ok (a, b)
  | .error e, .ok _ => .error e
  | .ok _, .error e => .error e
  | .error e, .error e' => .error (if e'.1 < e.1 then e' else e)

def all : List (Found α) → Found (List α)
  | [] => .ok []
  | r :: rest => (both r (all rest)).map fun p => p.1 :: p.2

theorem both_eq_ok_iff {r : Found α} {s : Found β} {a : α} {b : β} :
    both r s = .ok (a, b) ↔ r = .ok a ∧ s = .ok b := by
  cases r <;> cases s <;> simp [both]

end Found

/-! ### Nodes -/

/-- The node itself, where its name stands. -/
def resolve (d : Document) : Node → Node
  | .named name => ((d.anchored.find? fun a => a.1 = name).map Prod.snd).getD (.scalar ⟨0, 0, 0⟩ .null "")
  | n => n

def tagOf : Node → Tag
  | .scalar _ tag _ | .list _ tag _ | .table _ tag _ => tag
  | .named _ => .null

def startOf : Node → Mark
  | .scalar start _ _ | .list start _ _ | .table start _ _ => start
  | .named _ => ⟨0, 0, 0⟩

def retag (tag : Tag) : Node → Node
  | .scalar start _ s => .scalar start tag s
  | .list start _ items => .list start tag items
  | .table start _ ms => .table start tag ms
  | n => n

/-- What a node is called by its form. -/
def form : Node → String
  | .scalar _ _ _ | .named _ => "scalar"
  | .list _ _ _ => "sequence"
  | .table _ _ _ => "mapping"

def isFilled : Tag → Bool
  | .list | .table | .set | .pairs _ => true
  | _ => false

/-- Another form of node than the one wanted. -/
def wrongForm (wanted : String) (n : Node) : Fault := .flaw none (.node wanted (form n)) (startOf n)

/-- A part of another form than the one wanted, of a node that starts at a mark. -/
def wrongPart (a : Activity) (start : Mark) (wanted : String) (n : Node) : Fault :=
  .flaw (some (a, some start)) (.node wanted (form n)) (startOf n)

/-- The text of a scalar. A table may have one under the key that stands for it as a whole; it runs out of fuel only if
    it stands for itself. -/
def scalarText (d : Document) (n : Node) : (fuel : Nat) → Except Fault Text.Wide
  | 0 => .error .tooDeep
  | fuel + 1 =>
    match resolve d n with
    | .scalar _ _ s => .ok s
    | .table start tag ms =>
      match ms.find? fun m => tagOf (resolve d m.1) = .content with
      | some m => scalarText d m.2 fuel
      | none => .error (wrongForm "a scalar node" (.table start tag ms))
    | n => .error (wrongForm "a scalar node" n)

/-- The run of characters outside ASCII that a text is refused for. -/
def asciiFault (s : List Char) : Problem :=
  let first := (s.takeWhile (·.toNat < 128)).length
  let run := (s.drop first).takeWhile fun c => !(c.toNat < 128)
  let escaped := String.ofList (Text.codeEscape (run.headD ' '))
  .notAscii ("'ascii' codec can't encode " ++
    (if run.length = 1 then "character '" ++ escaped ++ "' in position " ++ toString first
      else "characters in position " ++ toString first ++ "-" ++ toString (first + run.length - 1)) ++
    ": ordinal not in range(128)")

def readBytes (start : Mark) (s : List Char) : Except Fault Text.Utf8.Bytes :=
  if s.all (·.toNat < 128) then
    (Text.Base64.decode s).mapError fun e => .flaw none (.notBase64 e.message) start
  else .error (.flaw none (asciiFault s) start)

/-- A torn scalar that starts at a mark. It is nothing but a text. -/
def ofTorn (start : Mark) (tag : Tag) (t : Text.Torn) : Except Fault Yaml :=
  let shown := Text.quoteCodes (t.codes.filter fun n => Char.ofNat n ∉ ['_', '+', '-'])
  match tag with
  | .null => .ok null
  | .bool => .error (.scalar (.badWord (.torn t)))
  | .int => .error (.badValue ("invalid literal for int() with base 10: " ++ shown))
  | .float => .error (.badValue ("could not convert string to float: " ++ shown))
  | .text => .ok (torn t)
  | .moment => .error (.scalar .notMoment)
  | .binary => .error (.flaw none (.notAscii (Text.quoteCodes t.codes)) start)
  | _ => .error (.flaw none (.unknownTag tag.full) start)

/-- A scalar that starts at a mark, read as what its tag says. -/
def ofScalar (start : Mark) (tag : Tag) (s : String) : Except Fault Yaml :=
  match tag with
  | .null => .ok null
  | .bool => bool <$> readBool s
  | .int => int <$> readInt s
  | .float => double <$> readDouble s
  | .text => .ok (text s)
  | .moment => moment <$> readMoment s
  | .binary => bytes <$> readBytes start s.toList
  | _ => .error (.flaw none (.unknownTag tag.full) start)

/-- Whether nothing can be made of a tag. -/
def isUnknown : Tag → Bool
  | .unknown _ | .merge | .content => true
  | _ => false

/-- A node that is no collection, read as what its tag says. An instant is read off the node itself, which has to be a
    scalar then. -/
def ofLeaf (d : Document) (n : Node) (fuel : Nat) : Except Fault Yaml := do
  if isUnknown (tagOf n) then ofScalar (startOf n) (tagOf n) ""
  else
    let t ← scalarText d n fuel
    if tagOf n = .moment ∧ form n ≠ "scalar" then throw (.scalar (.momentOfCollection "list"))
    match t with
    | .text s => ofScalar (startOf n) (tagOf n) s
    | .torn t => ofTorn (startOf n) (tagOf n) t

/-- The members of a table that starts at a mark, with the merged ones before them, those of the first of several
    tables last. A table that is merged into itself adds its own members only; `within` are the anchors of the
    tables around. -/
def merged (d : Document) (within : List String) (start : Mark) (ms : List (Node × Node)) :
    (fuel : Nat) → Except Fault (List (Node × Node))
  | 0 => .ok ms
  | fuel + 1 => do
    let isMerge (m : Node × Node) : Bool := tagOf (resolve d m.1) = .merge
    let own := ms.filter fun m => !isMerge m
    let plainKey (k : Node) : Node :=
      if tagOf (resolve d k) = .content then retag .text (resolve d k) else k
    let part (wanted : String) (n : Node) : Except Fault (List (Node × Node)) :=
      match n, resolve d n with
      | .named name, .table start _ inner =>
        if name ∈ within then .ok (inner.filter fun m => !isMerge m)
        else merged d (name :: within) start inner fuel
      | _, .table start _ inner => merged d within start inner fuel
      | _, n => .error (wrongPart .table start wanted n)
    let parts ← (ms.filter isMerge).mapM fun m => match resolve d m.2 with
      | .list _ _ items => do return (← items.mapM (part "a mapping for merging")).reverse.flatten
      | _ => part "a mapping or list of mappings for merging" m.2
    return parts.flatten ++ own.map fun m => (plainKey m.1, m.2)

/-- The values of nodes with anchors that have been read. -/
abbrev Known := List (String × Found Yaml)

/-- A collection of the kind that a tag says, with nothing in it. -/
def hollow : Tag → Yaml
  | .table => table []
  | .set => set []
  | _ => list []

/-- Where a value stands: the anchors of the collections around it, and whether one of them is around it twice. -/
structure Around where
  anchors : List String
  again : Bool

/-- The value of a node. A collection that refers to itself is seen within itself once more; what it would hold
    there of itself is left out. -/
def ofNode (d : Document) (around : Around) (n : Node) : (fuel : Nat) → StateM Known (Found Yaml)
  | 0 => return .ok null
  | fuel + 1 => do
    let member (start : Mark) (m : Node × Node) : StateM Known (Found (Yaml × Yaml)) := do
      let key ← if isFilled (tagOf (resolve d m.1)) then
          pure (Found.fault (.flaw (some (.table, some start)) .collectionAsKey (startOf (resolve d m.1))))
        else ofNode d around m.1 fuel
      return Found.both key (← ofNode d around m.2 fuel)
    let members (start : Mark) (ms : List (Node × Node)) : StateM Known (Found (List (Yaml × Yaml))) := do
      match merged d [] start ms fuel with
      | .error f => return Found.fault f
      | .ok ms => return Found.all (← ms.mapM (member start))
    match n with
    | .named name =>
      match (← get).find? fun k => k.1 = name with
      | some k => return k.2
      | none =>
        let inner := resolve d n
        let isInside : Bool := name ∈ around.anchors
        if isInside && around.again then return .ok (hollow (tagOf inner))
        let r ← ofNode d ⟨name :: around.anchors, around.again || isInside⟩ inner fuel
        if !(around.again || isInside) then modify ((name, r) :: ·)
        return r
    | _ =>
      match tagOf n, n with
      | .list, .list _ _ items =>
        return (Found.all (← items.mapM fun i => ofNode d around i fuel)).deeper.map list
      | .list, n => return (Found.fault (wrongForm "a sequence node" n)).deeper
      | .table, .table start _ ms =>
        return (← members start ms).deeper.map fun ps => table (membersOf ps)
      | .set, .table start _ ms =>
        return (← members start ms).deeper.map fun ps => set (distinct (ps.map Prod.fst))
      | .table, n | .set, n => return (Found.fault (wrongForm "a mapping node" n)).deeper
      | .pairs ordered, .list start _ items =>
        let a : Activity := if ordered then .orderedTable else .pairs
        let pair (i : Node) : StateM Known (Found Yaml) := do
          match resolve d i with
          | .table _ _ [(k, v)] =>
            return (Found.both (← ofNode d around k fuel) (← ofNode d around v fuel)).map
              fun p => list [p.1, p.2]
          | .table place _ ms => return Found.fault (.flaw (some (a, some start)) (.items ms.length) place)
          | n => return Found.fault (wrongPart a start "a mapping of length 1" n)
        return (Found.all (← items.mapM pair)).deeper.map list
      | .pairs ordered, n =>
        let a : Activity := if ordered then .orderedTable else .pairs
        return (Found.fault (wrongPart a (startOf n) "a sequence" n)).deeper
      | _, n => return Found.ofExcept (ofLeaf d n fuel)

/-- The value of a text; of a text without a document it is null. On the way down from the root every node is
    passed twice at most, and there are no more nodes on it than tokens. -/
def ofText (levels : Nat) (s : List Char) : Except Fault Yaml := do
  match ← Document.ofText levels s with
  | none => return null
  | some d =>
    match ((ofNode d ⟨[], false⟩ d.root (8 * s.length + 8)).run []).1 with
    | .ok v => return v
    | .error e => throw e.2

end Yaml
end Adjudication
