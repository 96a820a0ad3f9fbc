import Tern.Eval.Basic

/-!
# Structs

A struct definition is bound to its name; an instance keeps the name, not the definition, so
rebinding the name changes which methods its instances have. Building an instance evaluates the
value of every key, also of keys that are not declared, which are dropped.
-/

namespace Tern.Eval

/-- The struct definition that a name is bound to. -/
def lookupStruct (env : LayerId) (name : String) : Eval StructRef := do
  match ← lookup? env name with
  | none => raise (.structNotFound name)
  | some (.struct r) => pure r
  | some v => mismatch "struct" v

def structDef (env : LayerId) : List Node → Eval Value
  | [nameNode, fieldsNode] => do
    let name ← expectIdent nameNode
    let fields ← identList fieldsNode
    let r ← create (·.addStruct name fields [])
    bindName env name (.struct r)
    record (.structDefined name fields)
    pure .nothing
  | _ => misshapen

/-- A key and its value. -/
def pair (ev : Evaluator) (env : LayerId) (n : Node) : Eval (String × Value) :=
  if n.label? = some .pair then
    match n.children with
    | [keyNode, valueNode] => do
      let key ← expectIdent keyNode
      let value ← ev valueNode env
      pure (key, value)
    | _ => misshapen
  else
    let found := match n.label? with
      | some label => if label.name = "" then "unknown" else label.name
      | none => "unknown"
    raise (.typeMismatch "pair" found)

/-- The slots of an instance: the declared keys, each with its last value. -/
def slots (ev : Evaluator) (env : LayerId) (declared : List String) (filled : Bindings Value) :
    List Node → Eval (Bindings Value)
  | [] => pure filled
  | n :: rest => do
    let (key, value) ← pair ev env n
    slots ev env declared (if key ∈ declared then filled.put key value else filled) rest

/-- `Name { key: value, … }`. -/
def callStruct (ev : Evaluator) (env : LayerId) : List Node → Eval Value
  | nameNode :: pairs => do
    let name ← expectIdent nameNode
    let r ← lookupStruct env name
    let fields ← slots ev env r.fields [] pairs
    pure (.object name fields)
  | [] => misshapen

/-- `name.attribute`. An unbound name is reported like a value without attributes. -/
def getAttr (env : LayerId) : List Node → Eval Value
  | [nameNode, attrNode] => do
    let attr ← expectIdent attrNode
    let name ← expectIdent nameNode
    match ← lookup? env name with
    | some (.object _ fields) =>
      match Bindings.get? fields attr with
      | some v => pure v
      | none => raise (.attributeNotFound attr)
    | _ => raise (.typeMismatch "struct" "unknown")
  | _ => misshapen

/-- Gives a struct definition a method. -/
def impl (env : LayerId) : List Node → Eval Value
  | [structNode, methodNode, paramsNode, body] => do
    let r ← lookupStruct env (← expectIdent structNode)
    let method ← expectIdent methodNode
    let params ← identList paramsNode
    update (·.putMethod r method ⟨method, params, body, some env⟩)
    record (.methodDefined r.name method params)
    pure .nothing
  | _ => misshapen

end Tern.Eval
