import Tern.Number.Notation
import Tern.Syntax.Node

/-!
# Values

What expressions evaluate to. Lists, instances and numbers are plain data; a struct definition
is a reference, since methods can be added to it later, and a function carries its body and the
layer it was defined in. Values have two texts: `display` is what programs print and fails on
structs and enums, `echo` is what the prompt shows. It fails on integers that are too long to be
written, which only the ends of ranges can be.
-/

namespace Tern

/-- A struct definition: its number in the store, and what never changes about it. -/
structure StructRef where
  id : Nat
  name : String
  fields : List String
  deriving Repr, DecidableEq

/-- A function or method. Its frame is the layer it was defined in. -/
structure Function where
  name : String
  params : List String
  body : Node
  frame : Option Nat
  deriving Repr

inductive Value
  | nothing
  | number (x : Float)
  | string (s : String)
  | bool (b : Bool)
  | list (items : List Value)
  /-- The integers from `start` up to, and without, `stop`. -/
  | range (start stop : Int)
  | function (f : Function)
  | struct (s : StructRef)
  /-- An instance of the struct that its name is bound to. -/
  | object (name : String) (fields : List (String × Value))
  | enum (variants : List String)
  | variant (owner name : String)
  deriving Repr

/-! ## Types -/

inductive TypeKind
  | number | string | bool | list | function | range | enum | variant | struct | object | nothing
  deriving Repr, DecidableEq

def TypeKind.name : TypeKind → String
  | number => "Int"
  | string => "String"
  | bool => "Bool"
  | list => "List"
  | function => "Func"
  | range => "Range"
  | enum => "Enum"
  | variant => "FieldEnum"
  | struct => "Struct"
  | object => "FieldStruct"
  | nothing => "None"

/-- A value's type as diagnostics name it: its kind, and the name of a struct or enum. -/
structure ValueType where
  kind : TypeKind
  name? : Option String := none
  deriving Repr, DecidableEq

def ValueType.text (t : ValueType) : String :=
  match t.name? with
  | none => t.kind.name
  | some name => t.kind.name ++ "(" ++ name ++ ")"

namespace Value

def type : Value → ValueType
  | nothing => ⟨.nothing, none⟩
  | number _ => ⟨.number, none⟩
  | string _ => ⟨.string, none⟩
  | bool _ => ⟨.bool, none⟩
  | list _ => ⟨.list, none⟩
  | range _ _ => ⟨.range, none⟩
  | function _ => ⟨.function, none⟩
  | struct s => ⟨.struct, some s.name⟩
  | object name _ => ⟨.object, some name⟩
  | enum _ => ⟨.enum, none⟩
  | variant owner _ => ⟨.variant, some owner⟩

/-! ## Texts -/

def boolText (b : Bool) : String := if b then "true" else "false"

mutual

/-- The text that programs print; a value of a type that has none is named. -/
def display : Value → Except ValueType String
  | nothing => .ok "None"
  | number x => .ok (Number.plain x)
  | string s => .ok s
  | bool b => .ok (boolText b)
  | function _ => .ok "function"
  | range _ _ => .ok "range"
  | list items => (displayItems items).map fun texts => "[" ++ ", ".intercalate texts ++ "]"
  | v => .error v.type

/-- The texts of the items, up to the first that has none. -/
def displayItems : List Value → Except ValueType (List String)
  | [] => .ok []
  | v :: rest =>
    match display v with
    | .error t => .error t
    | .ok text => (displayItems rest).map (text :: ·)

end

mutual

/-- The text that the prompt shows, or the first integer that is too long to be written. -/
def echo : Value → Except Int String
  | nothing => .ok "None"
  | number x => .ok (Number.plain x)
  | string s => .ok ("\"" ++ s ++ "\"")
  | bool b => .ok (boolText b)
  | list items => (echoItems items).map fun texts => "[" ++ ", ".intercalate texts ++ "]"
  | range start stop =>
    match Number.inFull start with
    | .error i => .error i
    | .ok text => (Number.inFull stop).map (text ++ ".." ++ ·)
  | function f => .ok ("<function " ++ f.name ++ "(" ++ ", ".intercalate f.params ++ ")>")
  | struct s => .ok ("<struct " ++ s.name ++ " \x7b " ++ ", ".intercalate s.fields ++ " \x7d>")
  | object name [] => .ok (name ++ " \x7b\x7d")
  | object name fields =>
    (echoFields fields).map fun texts => name ++ " \x7b " ++ ", ".intercalate texts ++ " \x7d"
  | enum variants =>
    .ok ("TernEnum(variants=[" ++ ", ".intercalate (variants.map Text.inspect) ++ "])")
  | variant owner name =>
    .ok ("TernEnumVariant(name=" ++ Text.inspect owner ++ ", variant=" ++ Text.inspect name ++ ")")

/-- The echoes of the items, up to the first that has none. -/
def echoItems : List Value → Except Int (List String)
  | [] => .ok []
  | v :: rest =>
    match echo v with
    | .error i => .error i
    | .ok text => (echoItems rest).map (text :: ·)

def echoFields : List (String × Value) → Except Int (List String)
  | [] => .ok []
  | (name, v) :: rest =>
    match echo v with
    | .error i => .error i
    | .ok text => (echoFields rest).map ((name ++ ": " ++ text) :: ·)

end

/-- The text of an operand in an error: the printed one if there is one, else the echoed one. -/
def operandText (v : Value) : Except Int String :=
  match v.display with
  | .ok text => .ok text
  | .error _ => v.echo

/-! ## Equality -/

/-- Whether two values match: numbers, strings, truth values and nothing match their equals,
and nothing else matches anything. -/
def matching : Value → Value → Bool
  | number a, number b => a == b
  | string a, string b => a == b
  | bool a, bool b => a == b
  | nothing, nothing => true
  | _, _ => false

end Value

end Tern
