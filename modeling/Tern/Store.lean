import Tern.Bindings
import Tern.Log
import Tern.Value

/-!
# The store

All that an evaluation can change. An environment is a *layer* of bindings with an optional
parent; layers are only ever added, so a layer is known by its number, and a parent's number is
smaller than its child's. A name is looked up in the layer and then outward along the parents,
and the first layer that binds it decides, for reading and for writing alike.

Beside the layers stand the method tables of the struct definitions, the registries of builtins
(each shared by all layers that come from one root), the text written so far, and the log.
-/

namespace Tern

/-- The number of a layer. -/
abbrev LayerId := Nat

inductive Builtin
  | print | println
  deriving Repr, DecidableEq

namespace Builtin

def name : Builtin → String
  | print => "print"
  | println => "println"

/-- The builtins of every new registry. -/
def all : List Builtin := [print, println]

end Builtin

/-- One environment's own bindings, where to look further, and what it has from its root. -/
structure Layer where
  parent : Option LayerId
  bindings : Bindings Value
  registry : Nat
  config : Config
  deriving Repr

structure Store where
  layers : Array Layer
  /-- The methods of each struct definition, by its number. -/
  methods : Array (Bindings Function)
  registries : Array (List Builtin)
  /-- What has been written, piece by piece. -/
  written : Array String
  log : Array Event
  deriving Repr

namespace Store

def empty : Store := ⟨#[], #[], #[], #[], #[]⟩

/-! ## Layers -/

/-- What stands for a layer that does not exist. -/
def noLayer : Layer := ⟨none, [], 0, {}⟩

def layer (s : Store) (e : LayerId) : Layer := (s.layers[e]?).getD noLayer

def bindings (s : Store) (e : LayerId) : Bindings Value := (s.layer e).bindings

def parent? (s : Store) (e : LayerId) : Option LayerId := (s.layer e).parent

def config (s : Store) (e : LayerId) : Config := (s.layer e).config

/-- The layers from one outward, at most so many. -/
def outwardFrom (s : Store) : Nat → LayerId → List LayerId
  | 0, _ => []
  | n + 1, e =>
    e :: match s.parent? e with
      | some p => s.outwardFrom n p
      | none => []

/-- The layers from one outward to its root. Since numbers decrease on the way, there are no
more than the layer's number and one. -/
def outward (s : Store) (e : LayerId) : List LayerId := s.outwardFrom (e + 1) e

/-- The first layer outward that binds a name. -/
def owner? (s : Store) (e : LayerId) (name : String) : Option LayerId :=
  (s.outward e).find? fun l => (s.bindings l).holds name

def lookup? (s : Store) (e : LayerId) (name : String) : Option Value :=
  (s.outward e).findSome? fun l => (s.bindings l).get? name

/-- Binds a name in a layer itself. -/
def bind (s : Store) (e : LayerId) (name : String) (value : Value) : Store :=
  { s with layers := s.layers.modify e fun l => { l with bindings := l.bindings.put name value } }

/-! ## New layers -/

/-- Adds a layer. -/
def push (s : Store) (l : Layer) : Store × LayerId :=
  let e := s.layers.size
  ({ s with layers := s.layers.push l }, e)

/-- An empty layer with the registry and configuration of another. -/
def spawn (s : Store) (source : LayerId) (parent : Option LayerId) : Store × LayerId :=
  let l := s.layer source
  s.push { l with parent, bindings := [] }

/-- A layer without a parent, with a registry of its own that holds every builtin. -/
def addRoot (s : Store) (config : Config) : Store × LayerId :=
  let registry := s.registries.size
  { s with registries := s.registries.push Builtin.all }.push
    { parent := none, bindings := [], registry, config }

/-- A store with one root, which is layer zero. -/
def root (config : Config) : Store := (empty.addRoot config).1

/-! ## Builtins -/

/-- The builtins that a layer has. -/
def builtins (s : Store) (e : LayerId) : List Builtin :=
  (s.registries[(s.layer e).registry]?).getD []

def builtin? (s : Store) (e : LayerId) (name : String) : Option Builtin :=
  (s.builtins e).find? (·.name == name)

/-- Takes a builtin out of a layer's registry. -/
def dropBuiltin (s : Store) (e : LayerId) (name : String) : Store :=
  { s with registries :=
      s.registries.modify (s.layer e).registry fun r => r.filter (·.name != name) }

/-! ## Struct definitions -/

/-- Adds a struct definition. -/
def addStruct (s : Store) (name : String) (fields : List String)
    (methods : Bindings Function) : Store × StructRef :=
  let r : StructRef := ⟨s.methods.size, name, fields⟩
  ({ s with methods := s.methods.push methods }, r)

/-- The methods of a struct definition. -/
def methodsOf (s : Store) (r : StructRef) : Bindings Function := (s.methods[r.id]?).getD []

/-- Gives a struct definition a method, in place of an earlier one of that name. -/
def putMethod (s : Store) (r : StructRef) (name : String) (f : Function) : Store :=
  { s with methods := s.methods.modify r.id fun table => table.put name f }

/-! ## Text and log -/

def write (s : Store) (text : String) : Store := { s with written := s.written.push text }

def record (s : Store) (e : Event) : Store := { s with log := s.log.push e }

/-- All that has been written. -/
def text (s : Store) : String := String.join s.written.toList

/-- The store with nothing written yet. -/
def forgetText (s : Store) : Store := { s with written := #[] }

/-- The store with nothing written and nothing recorded yet. -/
def forget (s : Store) : Store := { s with written := #[], log := #[] }

end Store

end Tern
