import Tern.Proofs.Mirrors

/-!
# Recoding

Where a mirror leaves no choice, because the node in a node's place is a function of it, the second
run has one value for each value of the first, one layer for each layer and one store for each
store: the first run's with names and bodies *recoded* (`Store.eq_recode`). The log is no part of
this, as it is no part of mirroring, and a recoded store has none.
-/

namespace Tern

variable (name : String → String) (code : Node → Node)

/-! ## Values and stores -/

def Function.recode (f : Function) : Function :=
  ⟨name f.name, f.params.map name, code f.body, f.frame⟩

def StructRef.recode (r : StructRef) : StructRef := ⟨r.id, name r.name, r.fields.map name⟩

mutual

/-- A value with the names and bodies in it recoded. -/
def Value.recode : Value → Value
  | .list items => .list (Value.recodeItems items)
  | .function f => .function (f.recode name code)
  | .struct r => .struct (r.recode name)
  | .object owner fields => .object (name owner) (Value.recodeFields fields)
  | v => v

def Value.recodeItems : List Value → List Value
  | [] => []
  | v :: rest => v.recode :: Value.recodeItems rest

def Value.recodeFields : List (String × Value) → List (String × Value)
  | [] => []
  | (x, v) :: rest => (name x, v.recode) :: Value.recodeFields rest

end

def Layer.recode (l : Layer) : Layer :=
  { l with bindings := l.bindings.map (Prod.map name (Value.recode name code)) }

/-- A store with the names and bodies in it recoded, and without the log. -/
def Store.recode (s : Store) : Store where
  layers := s.layers.map (Layer.recode name code)
  methods := s.methods.map fun table => table.map (Prod.map name (Function.recode name code))
  registries := s.registries
  written := s.written
  log := #[]

/-! ## Recoding to the same -/

theorem Function.recode_id (f : Function) : f.recode id id = f := by
  rw [Function.recode, List.map_id]
  rfl

mutual

theorem Value.recode_id : ∀ v : Value, v.recode id id = v
  | .list items => congrArg Value.list (recodeItems_id items)
  | .function f => congrArg Value.function f.recode_id
  | .struct r => by rw [Value.recode, StructRef.recode, List.map_id]; rfl
  | .object owner fields => congrArg (Value.object owner) (recodeFields_id fields)
  | .nothing | .number _ | .string _ | .bool _ | .range _ _ | .enum _ | .variant _ _ => rfl

theorem Value.recodeItems_id : ∀ vs : List Value, Value.recodeItems id id vs = vs
  | [] => rfl
  | v :: rest => congrArg₂ List.cons v.recode_id (recodeItems_id rest)

theorem Value.recodeFields_id : ∀ fs : List (String × Value), Value.recodeFields id id fs = fs
  | [] => rfl
  | (x, v) :: rest =>
      congrArg₂ List.cons (congrArg (Prod.mk x) v.recode_id) (recodeFields_id rest)

end

theorem map_prodMap_id {α : Type} {g : α → α} (hg : ∀ a, g a = a) (b : Bindings α) :
    b.map (Prod.map id g) = b := by
  have hid : g = id := funext hg
  rw [hid, Prod.map_id, List.map_id]

theorem Layer.recode_id (l : Layer) : l.recode id id = l := by
  rw [Layer.recode, map_prodMap_id Value.recode_id]

theorem Store.recode_id (s : Store) : s.recode id id = { s with log := #[] } := by
  have hlayers : s.layers.map (Layer.recode id id) = s.layers := by
    rw [funext Layer.recode_id, Array.map_id']
  have hmethods : (s.methods.map fun table => table.map (Prod.map id (Function.recode id id))) =
      s.methods := by
    rw [funext fun table => map_prodMap_id Function.recode_id table, Array.map_id']
  rw [Store.recode, hlayers, hmethods]

/-! ## What mirrors is recoded -/

/-- The mirror has one node in each node's place. -/
def Mirror.Codes (M : Mirror) (code : Node → Node) : Prop := ∀ n n', M.node n n' → n' = code n

section Mirrored

variable {M : Mirror} {code : Node → Node}

theorem Function.eq_recode (hcode : M.Codes code) {f f' : Function} (h : f.Mirrored M f') :
    f' = f.recode M.name code := by
  obtain ⟨name, params, body, frame⟩ := f'
  obtain ⟨rfl, rfl, hbody, rfl⟩ := h
  exact congrArg (Function.mk _ _ · _) (hcode _ _ hbody.node)

mutual

theorem Value.eq_recode (hcode : M.Codes code) :
    ∀ {v v' : Value}, v.Mirrored M v' → v' = v.recode M.name code
  | _, _, .nothing => rfl
  | _, _, .number _ => rfl
  | _, _, .string _ => rfl
  | _, _, .bool _ => rfl
  | _, _, .list h => congrArg Value.list (eq_recodeItems hcode h)
  | _, _, .range _ _ => rfl
  | _, _, .function h => congrArg Value.function (Function.eq_recode hcode h)
  | _, .struct ⟨_, _, _⟩, .struct h => by
      obtain ⟨rfl, rfl, rfl⟩ := h
      rfl
  | _, _, .object h => congrArg (Value.object _) (eq_recodeFields hcode h)
  | _, _, .enum _ => rfl
  | _, _, .variant _ _ => rfl

theorem Value.eq_recodeItems (hcode : M.Codes code) :
    ∀ {vs vs' : List Value},
    List.Forall₂ (Value.Mirrored M) vs vs' → vs' = Value.recodeItems M.name code vs
  | _, _, .nil => rfl
  | _, _, .cons h hs => congrArg₂ List.cons (eq_recode hcode h) (eq_recodeItems hcode hs)

theorem Value.eq_recodeFields (hcode : M.Codes code) :
    ∀ {fs fs' : List (String × Value)},
    List.Forall₂ (Entry M.name (Value.Mirrored M)) fs fs' →
    fs' = Value.recodeFields M.name code fs
  | _, _, .nil => rfl
  | _, _, .cons (.mk h) hs =>
      congrArg₂ List.cons (congrArg (Prod.mk _) (eq_recode hcode h)) (eq_recodeFields hcode hs)

end

theorem Bindings.eq_map {α : Type} {R : α → α → Prop} {name : String → String} {g : α → α}
    (hg : ∀ {a b}, R a b → b = g a) {b c : Bindings α} (h : List.Forall₂ (Entry name R) b c) :
    c = b.map (Prod.map name g) := by
  induction h with
  | nil => rfl
  | cons hq _ ih =>
      obtain ⟨hab⟩ := hq
      rw [List.map_cons, ih, hg hab]
      rfl

theorem Layer.eq_recode (hcode : M.Codes code) {l l' : Layer} (h : l.Mirrored M l') :
    l' = l.recode M.name code := by
  obtain ⟨parent, bindings, registry, config⟩ := l'
  obtain ⟨rfl, hbindings, rfl, rfl⟩ := h
  exact congrArg (Layer.mk _ · _ _)
    (Bindings.eq_map (g := Value.recode M.name code) (Value.eq_recode hcode) hbindings)

/-- An array that is the image of another place by place, whatever stands for missing places. -/
theorem eq_map_of_getD {α β : Type} {g : α → β} {as : Array α} {bs : Array β} {a : α} {b : β}
    (hsize : bs.size = as.size)
    (h : ∀ i : Nat, i < as.size → (bs[i]?).getD b = g ((as[i]?).getD a)) : bs = as.map g := by
  refine Array.ext (by rw [hsize, Array.size_map]) fun i hi hi' => ?_
  rw [Array.getElem_map]
  rw [Array.size_map] at hi'
  have hget := h i hi'
  rwa [Array.getElem?_eq_getElem hi, Array.getElem?_eq_getElem hi'] at hget

theorem Store.eq_recode (hcode : M.Codes code) {s t : Store} (h : s.Mirrored M t) :
    { t with log := #[] } = s.recode M.name code := by
  have hlayers : t.layers = s.layers.map (Layer.recode M.name code) :=
    eq_map_of_getD (a := noLayer) (b := noLayer) h.size fun l _ => Layer.eq_recode hcode (h.layer l)
  have hmethods : t.methods =
      s.methods.map fun table => table.map (Prod.map M.name (Function.recode M.name code)) :=
    eq_map_of_getD (a := []) (b := []) h.structs fun i _ =>
      Bindings.eq_map (g := Function.recode M.name code) (Function.eq_recode hcode) (h.methods i)
  rw [Store.recode, hlayers, hmethods, h.registries, h.written]

end Mirrored

end Tern
