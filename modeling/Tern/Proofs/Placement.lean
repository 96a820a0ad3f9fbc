import Tern.Proofs.Gathering
import Tern.Proofs.Prefixes
import Tern.Proofs.Shape

/-!
# Where nodes stand

A node of a program stands at one of its tokens, and a token in it is one of them. Only the list of
a rule that has read nothing has no position: parameters, fields and arguments, and the program
itself when it is empty. None of the first three is ever evaluated, so whatever is evaluated in a
program has a position of its own, and that is the start of a token (`placed_of_parse`,
`exists_position`). Methods take the position of their own rule, not the one of the struct that is
put in front of them.

By induction over what the rules read, with the methods of structs as nodes of their own
(`Laid`): every part is placed, and what has read a token has a position.
-/

namespace Tern

/-! ## Placed nodes -/

namespace Node

/-- A node of some tokens: they are its own tokens, and every tree stands at one of them, except
for lists without children. -/
inductive Placed (ts : List Lexeme) : Node → Prop
  | token {t : Lexeme} (ht : t ∈ ts) : Placed ts (.token t.kind t.text (some t.pos))
  | tree (label : Label) {cs : List Node} {t : Lexeme} (ht : t ∈ ts)
      (hcs : ∀ c ∈ cs, Placed ts c) : Placed ts (.tree label cs (some t.pos))
  | empty {label : Label} (hl : label.mayBeEmpty) : Placed ts (.tree label [] none)

variable {ts us : List Lexeme}

theorem Placed.mono {n : Node} (h : n.Placed ts) (hsub : ts ⊆ us) : n.Placed us := by
  induction h with
  | token ht => exact .token (hsub ht)
  | tree label ht _ ih => exact .tree label (hsub ht) ih
  | empty hl => exact .empty hl

end Node

/-! ## What is read -/

/-- The place of one of some tokens. -/
def StartOf (ts : List Lexeme) (p : Pos) : Prop := ∃ t ∈ ts, t.pos = p

theorem StartOf.mono {ts us : List Lexeme} {p : Pos} (h : StartOf ts p) (hsub : ts ⊆ us) :
    StartOf us p := by
  obtain ⟨t, ht, rfl⟩ := h
  exact ⟨t, hsub ht, rfl⟩

/-- What can be evaluated has a position of its own. -/
theorem Node.Placed.exists_position {ts : List Lexeme} {n : Node} (h : n.Placed ts)
    (hn : n.WellShaped) : ∃ p, n.position? = some p ∧ StartOf ts p := by
  cases h with
  | token ht => exact ⟨_, rfl, _, ht, rfl⟩
  | tree label ht _ => exact ⟨_, rfl, _, ht, rfl⟩
  | empty hl => cases hn <;> cases hl

/-- A part whose nodes stand at some tokens; a token's outer position is its own. -/
structure Part.Stands (ts : List Lexeme) (p : Part) : Prop where
  node : p.node.Placed ts
  outer : ∀ kind text pos, p.node = .token kind text pos → p.outer = pos

theorem Part.Stands.mono {ts us : List Lexeme} {p : Part} (h : p.Stands ts) (hsub : ts ⊆ us) :
    p.Stands us :=
  ⟨h.node.mono hsub, h.outer⟩

/-- What has been read from tokens stands at them, and has a position if there were any. -/
structure Laid (ts : List Lexeme) (y : Yield) : Prop where
  parts : ∀ p ∈ y.parts, p.Stands ts
  outer : ∀ p ∈ y.outer, StartOf ts p
  read : ts ≠ [] → y.outer.isSome

namespace Laid

variable {ts us : List Lexeme} {y z : Yield}

theorem append (hy : Laid ts y) (hz : Laid us z) : Laid (ts ++ us) (y ++ z) := by
  have hleft : ts ⊆ ts ++ us := List.subset_append_left ts us
  have hright : us ⊆ ts ++ us := List.subset_append_right ts us
  refine ⟨fun p hp => ?_, fun p hp => ?_, fun hne => ?_⟩
  · rcases List.mem_append.mp hp with hp | hp
    · exact (hy.parts p hp).mono hleft
    · exact (hz.parts p hp).mono hright
  · rcases Option.or_eq_some_iff.mp hp with hp | ⟨-, hp⟩
    · exact (hy.outer p hp).mono hleft
    · exact (hz.outer p hp).mono hright
  · rw [Yield.outer_append, Option.isSome_or]
    cases ts with
    | nil => simp [hz.read hne]
    | cons t ts => simp [hy.read (List.cons_ne_nil t ts)]

/-- What has read anything stands at one of the tokens. -/
theorem exists_outer (h : Laid ts y) (hne : ts ≠ []) : ∃ t ∈ ts, y.outer = some t.pos := by
  obtain ⟨p, hp⟩ := Option.isSome_iff_exists.mp (h.read hne)
  obtain ⟨t, ht, rfl⟩ := h.outer p hp
  exact ⟨t, ht, hp⟩

theorem node (h : Laid ts y) {label : Label}
    (hlabel : ts = [] → label.mayBeEmpty ∧ y = .nothing) : Laid ts (y.node label) := by
  refine ⟨List.forall_mem_singleton.mpr ⟨?_, nofun⟩, h.outer, h.read⟩
  by_cases hts : ts = []
  · obtain ⟨hempty, rfl⟩ := hlabel hts
    exact .empty hempty
  · obtain ⟨t, ht, houter⟩ := h.exists_outer hts
    dsimp only
    rw [houter]
    exact .tree label ht (List.forall_mem_map.mpr fun p hp => (h.parts p hp).node)

theorem within {p : Part} {outer : Option Pos} (h : Laid ts ⟨[p], outer⟩) :
    Laid ts (.one (p.within outer)) := by
  have hp := h.parts p (List.mem_singleton_self p)
  obtain ⟨node, own⟩ := p
  cases node with
  | tree label cs pos => exact ⟨List.forall_mem_singleton.mpr ⟨hp.node, nofun⟩, h.outer, h.read⟩
  | token kind text pos =>
      obtain rfl : own = pos := hp.outer _ _ _ rfl
      refine ⟨List.forall_mem_singleton.mpr hp, ?_, ?_⟩
      · cases hp.node with
        | token ht => simpa [Part.within] using ⟨_, ht, rfl⟩
      · cases hp.node with
        | token ht => exact fun _ => rfl
  | stray d => cases hp.node

end Laid

theorem placed_implsOf {ts : List Lexeme} {struct : Node} {methods : List Node}
    (hs : struct.Placed ts) (h : ∀ m ∈ methods, m.Placed ts ∧ IsMethodNode m) :
    ∀ m ∈ implsOf (struct :: methods), m.Placed ts := by
  refine List.forall_mem_map.mpr fun m hm => ?_
  obtain ⟨hplaced, cs, pos, rfl⟩ := h m hm
  cases hplaced with
  | tree _ ht hcs => exact .tree .impl ht (List.forall_mem_cons.mpr ⟨hs, hcs⟩)
  | empty hl => cases hl

/-- The methods of a struct are nodes of their own, which stand where the methods do. -/
theorem Laid.impls {ts : List Lexeme} {y : Yield} {t : Lexeme} {methods : List Part}
    (h : Laid ts y) (hne : ts ≠ []) (hparts : y.parts = t.part :: methods)
    (hmethods : ∀ m ∈ methods, IsMethodNode m.node) :
    Laid ts (.one ⟨.tree .block (implsOf (y.parts.map (·.node))) y.outer, y.outer⟩) := by
  obtain ⟨first, hfirst, houter⟩ := h.exists_outer hne
  refine ⟨List.forall_mem_singleton.mpr ⟨?_, nofun⟩, h.outer, h.read⟩
  have hall := h.parts
  rw [hparts] at hall
  obtain ⟨hname, hrest⟩ := List.forall_mem_cons.mp hall
  dsimp only
  rw [houter, hparts]
  exact .tree .block hfirst (placed_implsOf hname.node
    (List.forall_mem_map.mpr fun q hq => ⟨(hrest q hq).node, hmethods q hq⟩))

theorem gathers_laid : Gathers Laid where
  nothing := ⟨List.forall_mem_nil _, nofun, fun h => absurd rfl h⟩
  keep t := by
    have ht : t ∈ [t] := List.mem_singleton_self t
    refine ⟨List.forall_mem_singleton.mpr ⟨.token ht, ?_⟩, ?_, fun _ => rfl⟩
    · rintro _ _ _ ⟨⟩
      rfl
    · simpa using ⟨t, ht, rfl⟩
  drop t := ⟨List.forall_mem_nil _, by simpa using ⟨t, List.mem_singleton_self t, rfl⟩,
    fun _ => rfl⟩
  append := .append
  node h hlabel := h.node hlabel
  within := .within
  impls h hne hparts _ hmethods := h.impls hne hparts hmethods

/-! ## Programs -/

/-- A program with any tokens stands at them. -/
theorem placed_of_parse {source : String} {tree : Node} (h : parse source = .ok tree)
    (hne : tokens source ≠ []) : tree.Placed (tokens source) := by
  obtain ⟨n, ⟨outer, hn⟩, rfl⟩ := isTreeOf_of_parse (isProgram_of_parse h).1 h
  obtain ⟨y, hstatements, hy⟩ := reads_program_iff.mp (reads_lower hn)
  have hlaid : Laid (tokens source) y := laid_of_reads gathers_laid hstatements nofun
  have hprogram : Laid (tokens source) (y.node .block) := hlaid.node fun hnil => absurd hnil hne
  rw [← hy] at hprogram
  exact (hprogram.parts _ (List.mem_singleton_self _)).node

/-- Without tokens there is the empty program alone. -/
theorem parse_of_no_tokens {source : String} {tree : Node} (h : parse source = .ok tree)
    (hnil : tokens source = []) : tree = .tree .block [] none := by
  obtain ⟨-, later, hread, htree⟩ := parse_eq_ok_iff.mp h
  rw [hnil] at hread
  cases hread
  have hempty : firstReadings.findSome? Reading.tree? = some (.tree .block [] none) := by rfl
  exact Option.some.inj (htree.symm.trans hempty)

end Tern
