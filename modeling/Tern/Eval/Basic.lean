import Tern.Store

/-!
# Evaluation

An evaluation takes a store to an outcome: a value or a failure, and in both cases the store
that it leaves. Handlers are written against an *evaluator* for the nodes inside their own, so
that how deep evaluation may nest is decided in one place. A runtime error without a position
takes one from the node that it leaves (`located`), and `attempt` is the only way to go on after
one; other failures pass through both.
-/

namespace Tern

/-- A value or a failure, and the store that is left. -/
abbrev Outcome (α : Type) := Except Failure α × Store

def Eval (α : Type) := Store → Outcome α

/-- Evaluates a node in the environment of a layer. -/
abbrev Evaluator := Node → LayerId → Eval Value

namespace Eval

variable {α β : Type}

@[always_inline, inline]
protected def pure (a : α) : Eval α := fun s => (.ok a, s)

@[always_inline, inline]
protected def bind (x : Eval α) (f : α → Eval β) : Eval β := fun s =>
  match x s with
  | (.ok a, s') => f a s'
  | (.error e, s') => (.error e, s')

instance : Monad Eval where
  pure := Eval.pure
  bind := Eval.bind

theorem pure_apply (a : α) (s : Store) : (pure a : Eval α) s = (.ok a, s) := rfl

theorem bind_apply (x : Eval α) (f : α → Eval β) (s : Store) :
    (x >>= f) s = match x s with
      | (.ok a, s') => f a s'
      | (.error e, s') => (.error e, s') := rfl

/-! ## Failing -/

def fail (e : Failure) : Eval α := fun s => (.error e, s)

def raise (cause : Cause) : Eval α := fail (.raised ⟨cause, none⟩)

/-- A node whose children are not those of its label. -/
def misshapen : Eval α := fail .misshapen

def ofExcept : Except Failure α → Eval α
  | .ok a => pure a
  | .error f => fail f

/-- Gives a runtime error that leaves `n` the position of `n`, if it has none yet. -/
def located (n : Node) (x : Eval α) : Eval α := fun s =>
  match x s with
  | (.error (.raised e), s') => (.error (.raised (e.at n.position?)), s')
  | outcome => outcome

/-- Goes on after a runtime error, in the store that it leaves. -/
def attempt (x : Eval α) : Eval (Except RuntimeError α) := fun s =>
  match x s with
  | (.ok a, s') => (.ok (.ok a), s')
  | (.error (.raised e), s') => (.ok (.error e), s')
  | (.error e, s') => (.error e, s')

/-! ## The store -/

/-- What a view of the store shows. -/
def view (f : Store → α) : Eval α := fun s => (.ok (f s), s)

def update (f : Store → Store) : Eval Unit := fun s => (.ok (), f s)

/-- Adds something to the store and gives its number. -/
def create (f : Store → Store × α) : Eval α := fun s =>
  let (s', a) := f s
  (.ok a, s')

def lookup? (env : LayerId) (name : String) : Eval (Option Value) :=
  view (·.lookup? env name)

def bindName (env : LayerId) (name : String) (value : Value) : Eval Unit :=
  update (·.bind env name value)

/-- Binds a name again in the first layer outward that binds it. -/
def setName (env : LayerId) (name : String) (value : Value) : Eval Unit := fun s =>
  match s.owner? env name with
  | some l => (.ok (), s.bind l name value)
  | none => (.error (.raised ⟨.variableNotFound name, none⟩), s)

/-- The value of a name that must be bound. -/
def getName (env : LayerId) (name : String) : Eval Value := do
  match ← lookup? env name with
  | some v => pure v
  | none => raise (.variableNotFound name)

def configOf (env : LayerId) : Eval Config := view (·.config env)

/-- An empty layer with what `env` has from its root. -/
def spawn (env : LayerId) (parent : Option LayerId) : Eval LayerId :=
  create (·.spawn env parent)

def record (e : Event) : Eval Unit := update (·.record e)

def write (text : String) : Eval Unit := update (·.write text)

/-! ## In order -/

/-- Runs through a list from the left and collects the results. -/
def each (f : α → Eval β) : List α → Eval (List β)
  | [] => pure []
  | a :: rest => do
    let b ← f a
    let bs ← each f rest
    pure (b :: bs)

/-- The same for an effect alone. -/
def forAll (f : α → Eval Unit) : List α → Eval Unit
  | [] => pure ()
  | a :: rest => do
    f a
    forAll f rest

/-! ## Names in trees -/

/-- The name in a place for one. -/
def expectIdent (n : Node) : Eval String :=
  match n.identName? with
  | some name => pure name
  | none => raise (.typeMismatch "ident" n.kindName)

/-- The names in a list of parameters or fields. -/
def identList (n : Node) : Eval (List String) := each expectIdent n.children

/-- A value is not of the type that is expected. -/
def mismatch (expected : String) (found : Value) : Eval α :=
  raise (.typeMismatch expected found.type.text)

end Eval

end Tern
