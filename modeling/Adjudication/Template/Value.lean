import Adjudication.Text.Quoted

/-!
What the fields of templates reach: texts, kinds of values, rows of kinds, nothing, and what values can do. Every value is
of a kind; a kind tells its name, its documentation, the kinds that it stands below and what its values can do. Of
what a value can do a text is left without the address at which the value lies.
-/

namespace Adjudication.Template

/-- The kinds of values. -/
inductive Kind where
  | object
  | text
  | row
  | nothing
  | kind
  | method
  /-- What is done by an operator. -/
  | operation
  deriving DecidableEq, Repr

/-- Why a template cannot be filled in. -/
inductive Fault where
  /-- The template or a layout in it is not well formed. -/
  | malformed (message : String)
  /-- A field names no value. -/
  | unknownName (name : String)
  /-- A field asks for a value by its place in a list; there is no list. -/
  | noPosition (index : Nat)
  | indexOutOfRange (of : Kind)
  | indexNotNumber (of : Kind)
  /-- A field asks for a part of what has none; the holder is given as it is called. -/
  | noParts (holder : String)
  | noAttribute (holder name : String)
  /-- A value that is no text is to be laid out. -/
  | noLayout (of : Kind)
  /-- A layout is wider than anything that can be held. -/
  | tooWide
  deriving DecidableEq, Repr

namespace Kind

def name : Kind → String
  | object => "object"
  | text => "str"
  | row => "tuple"
  | nothing => "NoneType"
  | kind => "type"
  | method => "builtin_function_or_method"
  | operation => "method-wrapper"

/-- The module that all kinds belong to. -/
def home : String := "builtins"

def documentation : Kind → Option String
  | object => some ("The base class of the class hierarchy.\n\nWhen called, it accepts no arguments and returns a new " ++
      "featureless\ninstance that has no instance attributes and cannot be given any.\n")
  | text => some ("str(object='') -> str\nstr(bytes_or_buffer[, encoding[, errors]]) -> str\n\nCreate a new string " ++
      "object from the given object. If encoding or\nerrors is specified, then the object must expose a data " ++
      "buffer\nthat will be decoded using the given encoding and error handler.\nOtherwise, returns the result of " ++
      "object.__str__() (if defined)\nor repr(object).\nencoding defaults to sys.getdefaultencoding().\nerrors " ++
      "defaults to 'strict'.")
  | row => some ("Built-in immutable sequence.\n\nIf no argument is given, the constructor returns an empty tuple.\nIf " ++
      "iterable is specified the tuple is initialized from iterable's items.\n\nIf the argument is a tuple, the " ++
      "return value is the same object.")
  | nothing => none
  | method | operation => none
  | kind => some "type(object) -> the object's type\ntype(name, bases, dict, **kwds) -> a new type"

/-- The kinds right above. -/
def parents : Kind → List Kind
  | object => []
  | _ => [object]

/-- The kind itself and all above it, nearest first. -/
def line (k : Kind) : List Kind := k :: k.parents

def shown (k : Kind) : String := "<class '" ++ k.name ++ "'>"

/-- What the values of all kinds can do that is not done by an operator. -/
def commonMethods : List String :=
  ["__dir__", "__format__", "__getstate__", "__init_subclass__", "__new__", "__reduce__", "__reduce_ex__", "__sizeof__",
    "__subclasshook__"]

/-- What the values of all kinds can do by operators. -/
def commonOperations : List String :=
  ["__delattr__", "__eq__", "__ge__", "__getattribute__", "__gt__", "__hash__", "__init__", "__le__", "__lt__", "__ne__",
    "__repr__", "__setattr__", "__str__"]

/-- What the values of a kind can do that is not done by an operator. -/
def methods : Kind → List String
  | text => commonMethods ++ ["__getnewargs__", "capitalize", "casefold", "center", "count", "encode", "endswith",
      "expandtabs", "find", "format", "format_map", "index", "isalnum", "isalpha", "isascii", "isdecimal", "isdigit",
      "isidentifier", "islower", "isnumeric", "isprintable", "isspace", "istitle", "isupper", "join", "ljust", "lower",
      "lstrip", "maketrans", "partition", "removeprefix", "removesuffix", "replace", "rfind", "rindex", "rjust",
      "rpartition", "rsplit", "rstrip", "split", "splitlines", "startswith", "strip", "swapcase", "title", "translate",
      "upper", "zfill"]
  | row => commonMethods ++ ["__class_getitem__", "__getnewargs__", "count", "index"]
  | nothing | method | operation => commonMethods
  | object | kind => []

/-- What the values of a kind can do by operators. -/
def operations : Kind → List String
  | text => commonOperations ++
      ["__add__", "__contains__", "__getitem__", "__iter__", "__len__", "__mod__", "__mul__", "__rmod__", "__rmul__"]
  | row => commonOperations ++ ["__add__", "__contains__", "__getitem__", "__iter__", "__len__", "__mul__", "__rmul__"]
  | nothing => commonOperations ++ ["__bool__"]
  | method | operation => commonOperations ++ ["__call__"]
  | object | kind => []

/-- What is done by a kind and not by its values. -/
def ownMethods : List String := ["__class_getitem__", "__init_subclass__", "__new__", "__subclasshook__", "maketrans"]

end Kind

def Fault.message : Fault → String
  | malformed message => message
  | unknownName name => Text.quote name
  | noPosition index =>
    "Replacement index " ++ toString index ++ " out of range for positional args tuple"
  | indexOutOfRange .text => "string index out of range"
  | indexOutOfRange k => k.name ++ " index out of range"
  | indexNotNumber .text => "string indices must be integers, not 'str'"
  | indexNotNumber k => k.name ++ " indices must be integers or slices, not str"
  | noParts holder => holder ++ " is not subscriptable"
  | noAttribute holder name => holder ++ " has no attribute '" ++ name ++ "'"
  | noLayout k => "unsupported format string passed to " ++ k.name ++ ".__format__"
  | tooWide => ""

inductive Value where
  | text (s : List Char)
  | kind (k : Kind)
  | row (kinds : List Kind)
  | nothing
  /-- What a value can do, by its name. -/
  | method (of : Value) (name : String)
  | operation (of : Value) (name : String)
  deriving DecidableEq, Repr

namespace Value

def ofString (s : String) : Value := text s.toList

def ofOption : Option String → Value
  | some s => ofString s
  | none => nothing

def kindOf : Value → Kind
  | text _ => .text
  | kind _ => .kind
  | row _ => .row
  | nothing => .nothing
  | method _ _ => .method
  | operation _ _ => .operation

/-- The text that stands for a value. -/
def shown : Value → List Char
  | text s => s
  | kind k => k.shown.toList
  | row kinds =>
    ("(" ++ ", ".intercalate (kinds.map Kind.shown) ++ (if kinds.length = 1 then "," else "") ++ ")").toList
  | nothing => "None".toList
  | method of name => ("<built-in method " ++ name ++ " of " ++ of.kindOf.name ++ " object>").toList
  | operation of name => ("<method-wrapper '" ++ name ++ "' of " ++ of.kindOf.name ++ " object>").toList

/-- The text that stands for a value, a text being quoted in the given way. -/
def quoted (quote : String → String) : Value → List Char
  | text s => (quote (String.ofList s)).toList
  | v => v.shown

/-- What a value is called that lacks an attribute. -/
def holder : Value → String
  | kind k => "type object '" ++ k.name ++ "'"
  | v => "'" ++ v.kindOf.name ++ "' object"

/-- What a kind tells of itself under a name. -/
def ofKind? (k : Kind) (name : String) : Option Value :=
  match name with
  | "__name__" | "__qualname__" => some (ofString k.name)
  | "__module__" => some (ofString Kind.home)
  | "__base__" => some (k.parents.head?.elim nothing kind)
  | "__bases__" => some (row k.parents)
  | "__mro__" => some (row k.line)
  | "__doc__" => some (ofOption k.documentation)
  | _ => none

/-- What a value can do under a name. -/
def ability? (v : Value) (name : String) : Option Value :=
  if name ∈ v.kindOf.operations then some (operation v name)
  else if name ∉ v.kindOf.methods then none
  else if name ∈ Kind.ownMethods then some (method (kind v.kindOf) name)
  else some (method v name)

/-- What a value has under a name: its kind, the documentation of its kind, what it can do, and, being a kind, what it
    tells. -/
def under (v : Value) (name : String) : Except Fault Value :=
  let found := match v, name with
    | _, "__class__" => some (kind v.kindOf)
    | kind k, _ => ofKind? k name
    | method _ title, "__name__" | operation _ title, "__name__" => some (ofString title)
    | method of _, "__self__" | operation of _, "__self__" => some of
    | text _, "__doc__" | row _, "__doc__" | nothing, "__doc__" => some (ofOption v.kindOf.documentation)
    | _, _ => v.ability? name
  match found with
  | some a => .ok a
  | none => .error (.noAttribute v.holder name)

/-- A part of a value by its index; `none` stands for an index that is no number. -/
def part (v : Value) (index : Option Nat) : Except Fault Value :=
  let among (parts : List Value) : Except Fault Value :=
    match index with
    | none => .error (.indexNotNumber v.kindOf)
    | some i =>
      match parts[i]? with
      | some p => .ok p
      | none => .error (.indexOutOfRange v.kindOf)
  match v with
  | text s => among (s.map fun c => text [c])
  | row kinds => among (kinds.map kind)
  | kind k => .error (.noParts ("type '" ++ k.name ++ "'"))
  | nothing | method _ _ | operation _ _ => .error (.noParts v.holder)

end Value
end Adjudication.Template
