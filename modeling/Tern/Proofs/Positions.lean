import Tern.Proofs.Mirrors
import Tern.Proofs.Prefixes

/-!
# Positions

Where tokens stand matters for nothing but the positions in trees: tokens of the same kinds and
texts that stand elsewhere are read in the same way, and the tree is the same with its positions
moved along (`ends_readTokens`). Each function of the parser is shown to take moved parts to
moved parts; a rule's position is the first of some that may be missing, and the first of the
moved ones is the moved first one.

A node is *bare* when its positions are taken out.
-/

namespace Tern

/-! ## Trees with other positions -/

mutual

/-- A node with another position for each of its own. -/
def Node.reposition (f : Option Pos → Option Pos) : Node → Node
  | .tree label cs pos => .tree label (Node.repositionAll f cs) (f pos)
  | .token kind text pos => .token kind text (f pos)
  | .stray d => .stray d

def Node.repositionAll (f : Option Pos → Option Pos) : List Node → List Node
  | [] => []
  | n :: rest => n.reposition f :: Node.repositionAll f rest

end

/-- A node that stands elsewhere. -/
def Node.relocate (f : Pos → Pos) : Node → Node := Node.reposition (·.map f)

/-- A node without positions. -/
def Node.bare : Node → Node := Node.reposition fun _ => none

theorem Node.repositionAll_eq_map (f : Option Pos → Option Pos) :
    ∀ ns : List Node, Node.repositionAll f ns = ns.map (Node.reposition f)
  | [] => rfl
  | n :: rest => by rw [Node.repositionAll, Node.repositionAll_eq_map f rest, List.map_cons]

mutual

theorem Node.reposition_reposition (f g : Option Pos → Option Pos) :
    ∀ n : Node, (n.reposition f).reposition g = n.reposition (g ∘ f)
  | .tree label cs pos => by
      simp only [Node.reposition, Node.repositionAll_reposition f g cs, Function.comp_apply]
  | .token .. => rfl
  | .stray _ => rfl

theorem Node.repositionAll_reposition (f g : Option Pos → Option Pos) : ∀ ns : List Node,
    Node.repositionAll g (Node.repositionAll f ns) = Node.repositionAll (g ∘ f) ns
  | [] => rfl
  | n :: rest => by
      simp only [Node.repositionAll, n.reposition_reposition f g,
        Node.repositionAll_reposition f g rest]

end

@[simp] theorem Node.relocate_tree (f : Pos → Pos) (label : Label) (cs : List Node)
    (pos : Option Pos) : (Node.tree label cs pos).relocate f =
      .tree label (cs.map (·.relocate f)) (pos.map f) :=
  congrArg (Node.tree label · _) (Node.repositionAll_eq_map _ cs)

@[simp] theorem Node.relocate_token (f : Pos → Pos) (kind : TokenKind) (text : String)
    (pos : Option Pos) : (Node.token kind text pos).relocate f = .token kind text (pos.map f) := rfl

@[simp] theorem Node.relocate_stray (f : Pos → Pos) (d : Stray) :
    (Node.stray d).relocate f = .stray d := rfl

@[simp] theorem Node.bare_tree (label : Label) (cs : List Node) (pos : Option Pos) :
    (Node.tree label cs pos).bare = .tree label (cs.map Node.bare) none :=
  congrArg (Node.tree label · none) (Node.repositionAll_eq_map _ cs)

@[simp] theorem Node.bare_token (kind : TokenKind) (text : String) (pos : Option Pos) :
    (Node.token kind text pos).bare = .token kind text none := rfl

@[simp] theorem Node.bare_stray (d : Stray) : (Node.stray d).bare = .stray d := rfl

@[simp] theorem Node.bare_relocate (f : Pos → Pos) (n : Node) : (n.relocate f).bare = n.bare :=
  n.reposition_reposition _ _

/-! ## Tokens that stand elsewhere -/

/-- The same token at another place. -/
structure Lexeme.Moved (f : Pos → Pos) (t t' : Lexeme) : Prop where
  kind : t'.kind = t.kind
  text : t'.text = t.text
  pos : t'.pos = f t.pos

variable (f : Pos → Pos)

def Part.relocate (p : Part) : Part := ⟨p.node.relocate f, p.outer.map f⟩

def Frame.relocate (fr : Frame) : Frame := ⟨fr.start.map f, fr.parts.map (·.relocate f)⟩

def Reading.relocate (r : Reading) : Reading := ⟨r.goals, r.frames.map (·.relocate f)⟩

@[simp] theorem Part.node_relocate (p : Part) : (p.relocate f).node = p.node.relocate f := rfl

@[simp] theorem Part.outer_relocate (p : Part) : (p.relocate f).outer = p.outer.map f := rfl

/-! ## Rules -/

theorem Part.join_relocate (left op right : Part) :
    (left.relocate f).join (op.relocate f) (right.relocate f) =
      (left.join op right).relocate f := by
  obtain ⟨op, outer⟩ := op
  cases op with
  | token kind text pos => cases kind <;> simp [Part.join, Part.relocate]
  | tree label cs pos => simp [Part.join, Part.relocate]
  | stray d => simp [Part.join, Part.relocate]

theorem Part.isOperator_relocate (p : Part) (kind : TokenKind) :
    (p.relocate f).isOperator kind = p.isOperator kind := by
  obtain ⟨_ | _ | _, outer⟩ := p <;> rfl

/-- Operators and operands that stand elsewhere. -/
abbrev relocatePairs : List (Part × Part) → List (Part × Part) :=
  List.map (Prod.map (Part.relocate f) (Part.relocate f))

theorem joinLevel_relocate (level : TokenKind) : ∀ (left : Part) (rest : List (Part × Part)),
    joinLevel level (left.relocate f) (relocatePairs f rest) =
      Prod.map (Part.relocate f) (relocatePairs f) (joinLevel level left rest)
  | _, [] => rfl
  | left, (op, right) :: rest => by
      simp only [relocatePairs, List.map_cons, Prod.map_apply, joinLevel,
        Part.isOperator_relocate, Part.join_relocate]
      split
      · exact joinLevel_relocate level _ rest
      · have ih := joinLevel_relocate level right rest
        rw [relocatePairs] at ih
        rw [ih]
        rfl

theorem pairOperators_relocate : ∀ ps : List Part,
    pairOperators (ps.map (·.relocate f)) = relocatePairs f (pairOperators ps)
  | [] => rfl
  | [_] => rfl
  | _ :: _ :: rest => congrArg (_ :: ·) (pairOperators_relocate rest)

theorem joinExpression_relocate (first : Part) (rest : List (Part × Part)) :
    joinExpression (first.relocate f) (relocatePairs f rest) =
      (joinExpression first rest).relocate f := by
  unfold joinExpression
  generalize operatorLevels = levels
  induction levels generalizing first rest with
  | nil => rfl
  | cons level levels ih =>
      rw [List.foldl_cons, List.foldl_cons, joinLevel_relocate]
      exact ih _ _

theorem ofStruct_relocate (struct : Node) (n : Node) :
    ofStruct (struct.relocate f) (n.relocate f) = (ofStruct struct n).relocate f := by
  cases n <;> simp [ofStruct]

theorem Rule.build_relocate (start : Option Pos) (parts : List Part) (rule : Rule) :
    rule.build (start.map f) (parts.map (·.relocate f)) = (rule.build start parts).relocate f := by
  cases rule with
  | node label => simp [Rule.build, Part.relocate, Function.comp_def]
  | conditional => simp [Rule.build, Part.relocate, Function.comp_def]
  | expression =>
      cases parts with
      | nil => simp [Rule.build, Part.relocate]
      | cons first rest =>
          rw [List.map_cons]
          simp only [Rule.build]
          rw [pairOperators_relocate, joinExpression_relocate]
  | group =>
      cases parts with
      | nil => simp [Rule.build, Part.relocate]
      | cons part rest =>
          obtain ⟨_ | _ | _, outer⟩ := part <;> simp [Rule.build, Part.relocate]
  | method => simp [Rule.build, Part.relocate, Function.comp_def]
  | methods =>
      cases parts with
      | nil => simp [Rule.build, Part.relocate]
      | cons struct bodies =>
          simp [Rule.build, Part.relocate, Function.comp_def, ofStruct_relocate]

/-! ## Frames -/

theorem addPart_relocate (p : Part) (fs : List Frame) :
    addPart (p.relocate f) (fs.map (·.relocate f)) = (addPart p fs).map (·.relocate f) := by
  cases fs <;> simp [addPart, Frame.relocate, Option.map_or]

theorem addPos_relocate (pos : Pos) (fs : List Frame) :
    addPos (f pos) (fs.map (·.relocate f)) = (addPos pos fs).map (·.relocate f) := by
  cases fs <;> simp [addPos, Frame.relocate]

theorem leaveFrame_relocate (rule : Rule) (fs : List Frame) :
    leaveFrame rule (fs.map (·.relocate f)) = (leaveFrame rule fs).map (·.relocate f) := by
  cases fs with
  | nil => rfl
  | cons fr fs =>
      rw [List.map_cons]
      simp only [leaveFrame]
      rw [← addPart_relocate, ← Rule.build_relocate, List.map_reverse]
      rfl

/-! ## Readings -/

theorem settle_relocate (gs : List Goal) (fs : List Frame) :
    settle gs (fs.map (·.relocate f)) = Prod.map id (List.map (·.relocate f)) (settle gs fs) := by
  fun_induction settle gs fs with
  | case1 gs fs ih => exact ih
  | case2 rule gs fs ih => rwa [← leaveFrame_relocate] at ih
  | case3 gs fs henter hleave =>
      rw [settle]
      · rfl
      · exact henter
      · exact hleave

theorem advance_relocate (gs : List Goal) (fs : List Frame) :
    advance gs (fs.map (·.relocate f)) = (advance gs fs).map (·.relocate f) := by
  fun_induction advance gs fs with
  | case1 fs => rfl
  | case2 gs fs ih => exact ih
  | case3 rule gs fs ih => rwa [← leaveFrame_relocate] at ih
  | case4 k gs fs => rfl
  | case5 k gs fs => rfl
  | case6 g gs fs henter hleave hkeep hdrop ih =>
      rw [advance, List.map_flatMap]
      · refine List.flatMap_congr fun production hproduction => ?_
        rw [settle_relocate]
        obtain ⟨_ | ⟨goal, goals⟩, fs'⟩ := settle production fs
        · exact ih fs'
        · rfl
      all_goals assumption

theorem Reading.take?_relocate {t t' : Lexeme} (h : t.Moved f t') (r : Reading) :
    (r.relocate f).take? t' = (r.take? t).map (·.relocate f) := by
  obtain ⟨goals, fs⟩ := r
  unfold Reading.take? Reading.relocate
  simp only [h.kind, h.text, h.pos]
  cases goals with
  | nil => rfl
  | cons g gs =>
      cases g with
      | keep k =>
          by_cases hk : k = t.kind
          · simp only [if_pos hk]
            exact congrArg (fun fs => some (Reading.mk gs fs)) (addPart_relocate f t.part fs)
          · simp only [if_neg hk]
            rfl
      | drop k =>
          by_cases hk : k = t.kind
          · simp only [if_pos hk]
            exact congrArg (fun fs => some (Reading.mk gs fs)) (addPos_relocate f t.pos fs)
          · simp only [if_neg hk]
            rfl
      | _ => rfl

theorem mergeReadings_relocate : ∀ rs : List Reading,
    mergeReadings (rs.map (·.relocate f)) = (mergeReadings rs).map (·.relocate f)
  | [] => rfl
  | r :: rest => by
      rw [List.map_cons, mergeReadings, mergeReadings_relocate rest, List.filter_map]
      rfl

theorem takeToken_relocate {t t' : Lexeme} (h : t.Moved f t') (rs : List Reading) :
    takeToken (rs.map (·.relocate f)) t' = (takeToken rs t).map (·.relocate f) := by
  have htake : (rs.map (·.relocate f)).filterMap (·.take? t') =
      (rs.filterMap (·.take? t)).map (·.relocate f) := by
    rw [List.filterMap_map, List.map_filterMap]
    exact List.filterMap_congr fun r _ => r.take?_relocate f h
  unfold takeToken
  rw [htake, mergeReadings_relocate, List.flatMap_map, List.map_flatMap]
  exact List.flatMap_congr fun r _ => advance_relocate f r.goals r.frames

/-- Tokens that stand elsewhere are read in the same way. -/
theorem ends_readTokens {ts ts' : List Lexeme} (h : List.Forall₂ (Lexeme.Moved f) ts ts')
    (rs : List Reading) :
    Ends (fun _ _ => True) (fun later later' => later' = later.map (·.relocate f))
      (readTokens rs ts) (readTokens (rs.map (·.relocate f)) ts') := by
  induction h generalizing rs with
  | nil => exact .ok rfl
  | @cons t t' ts ts' hfirst _ ih =>
      simp only [readTokens, takeToken_relocate f hfirst]
      cases takeToken rs t with
      | nil => exact .error trivial
      | cons r later => exact ih (r :: later)

theorem Reading.tree?_relocate (r : Reading) :
    (r.relocate f).tree? = r.tree?.map (·.relocate f) := by
  obtain ⟨_ | ⟨g, gs⟩, _ | ⟨⟨start, _ | ⟨p, ps⟩⟩, fs⟩⟩ := r <;> rfl

theorem findSome?_relocate (rs : List Reading) :
    (rs.map (·.relocate f)).findSome? Reading.tree? =
      (rs.findSome? Reading.tree?).map (·.relocate f) := by
  induction rs with
  | nil => rfl
  | cons r rs ih =>
      rw [List.map_cons, List.findSome?_cons, List.findSome?_cons, Reading.tree?_relocate, ih]
      cases r.tree? <;> rfl

theorem firstReadings_relocate : firstReadings.map (·.relocate f) = firstReadings :=
  (advance_relocate f Goal.program [.empty]).symm

/-! ## Programs -/

/-- Texts with the same tokens, wherever these stand, have the same tree apart from positions. -/
theorem exists_parse_of_moved {source source' : String} {tree : Node}
    (h : parse source = .ok tree) (hlex : (lex source').failure? = none) {f f' : Pos → Pos}
    {ts : List Lexeme} (hts : List.Forall₂ (Lexeme.Moved f) (tokens source) ts)
    (hts' : List.Forall₂ (Lexeme.Moved f') (tokens source') ts) :
    ∃ tree', parse source' = .ok tree' ∧ tree'.relocate f' = tree.relocate f := by
  obtain ⟨-, later, hread, htree⟩ := parse_eq_ok_iff.mp h
  have hends := ends_readTokens f hts firstReadings
  have hends' := ends_readTokens f' hts' firstReadings
  rw [firstReadings_relocate] at hends hends'
  rw [hread] at hends
  generalize readTokens firstReadings ts = r at hends hends'
  obtain ⟨rfl⟩ | _ := hends
  generalize hread' : readTokens firstReadings (tokens source') = r' at hends'
  obtain @⟨later', _, hlater⟩ | _ := hends'
  have htree' : (later'.findSome? Reading.tree?).map (·.relocate f') = some (tree.relocate f) := by
    rw [← findSome?_relocate, ← hlater, findSome?_relocate, htree]
    rfl
  obtain ⟨tree', hfound, hsame⟩ := Option.map_eq_some_iff.mp htree'
  exact ⟨tree', parse_eq_ok_iff.mpr ⟨hlex, later', hread', hfound⟩, hsame⟩

end Tern
