import Tern.Proofs.Rules

/-!
# What rules gather

What has been read grows by one token, by what comes next, by a node made of it, and where a
struct's methods get the struct in front. A property that all of these keep (`Gathers`) holds of
all that the rules read but the whole program (`laid_of_reads`). So what is to be said of nodes and
their positions is said of a few steps, apart from the rules there are.

Which rules may read nothing is gone into here, for then there is no token to take a position from:
they leave no part, or only a list without parts (`Nonterminal.Lays.nothing`).
-/

namespace Tern

/-! ## What may read nothing -/

/-- Lists that a rule may leave empty. -/
def Label.mayBeEmpty : Label → Bool
  | .params | .fields | .args => true
  | _ => false

/-- The rules that may read nothing. -/
def Nonterminal.mayBeEmpty : Nonterminal → Bool
  | program | statements | params | fields | args | expressions | pairs => true
  | _ => false

namespace Phrase

def mayBeEmpty : Phrase → Bool
  | rule n => n.mayBeEmpty
  | seq p q => p.mayBeEmpty && q.mayBeEmpty
  | either p q => p.mayBeEmpty || q.mayBeEmpty
  | many _ | optional _ | nothing => true
  | keep _ | drop _ => false

/-- Whether a phrase leaves nothing where it reads nothing. -/
def leavesNothing : Phrase → Bool
  | rule n => !n.mayBeEmpty || n.isSpliced
  | seq p q | either p q => p.leavesNothing && q.leavesNothing
  | many p | optional p => p.leavesNothing
  | keep _ | drop _ | nothing => true

/-- Whether a rule occurs in a phrase. -/
def mentions (n : Nonterminal) : Phrase → Bool
  | rule m => m = n
  | seq p q | either p q => p.mentions n || q.mentions n
  | many p | optional p => p.mentions n
  | keep _ | drop _ | nothing => false

theorem mayBeEmpty_of_takes : ∀ {p : Phrase} {ts : List Lexeme} {y : Yield},
    p.Takes (fun n ts _ => ts = [] → n.mayBeEmpty) ts y → ts = [] → p.mayBeEmpty
  | keep _, _, _, ⟨_, _, hts, _⟩, hnil => by simp [hnil] at hts
  | drop _, _, _, ⟨_, _, hts, _⟩, hnil => by simp [hnil] at hts
  | rule _, _, _, h, hnil => h hnil
  | nothing, _, _, _, _ => rfl
  | seq _ _, _, _, ⟨_, _, _, _, hp, hq, hts, _⟩, hnil => by
      obtain ⟨hfirst, hsecond⟩ := List.append_eq_nil_iff.mp (hts.symm.trans hnil)
      exact Bool.and_eq_true_iff.mpr ⟨mayBeEmpty_of_takes hp hfirst, mayBeEmpty_of_takes hq hsecond⟩
  | either _ _, _, _, h, hnil =>
      Bool.or_eq_true_iff.mpr (h.imp (mayBeEmpty_of_takes · hnil) (mayBeEmpty_of_takes · hnil))
  | many _, _, _, _, _ => rfl
  | optional _, _, _, _, _ => rfl

theorem nothing_of_takes : ∀ {p : Phrase} {ts : List Lexeme} {y : Yield}, p.leavesNothing →
    p.Takes (fun n ts y => ts = [] → n.mayBeEmpty ∧ (n.isSpliced → y = .nothing)) ts y →
    ts = [] → y = .nothing
  | keep _, _, _, _, ⟨_, _, hts, _⟩, hnil => by simp [hnil] at hts
  | drop _, _, _, _, ⟨_, _, hts, _⟩, hnil => by simp [hnil] at hts
  | rule _, _, _, hp, h, hnil => by
      obtain ⟨hempty, hspliced⟩ := h hnil
      exact hspliced (by simpa [leavesNothing, hempty] using hp)
  | nothing, _, _, _, h, _ => h.2
  | seq _ _, _, _, hp, ⟨_, _, _, _, hfirst, hsecond, hts, hy⟩, hnil => by
      obtain ⟨hp, hq⟩ := Bool.and_eq_true_iff.mp hp
      obtain ⟨hts₁, hts₂⟩ := List.append_eq_nil_iff.mp (hts.symm.trans hnil)
      rw [hy, nothing_of_takes hp hfirst hts₁, nothing_of_takes hq hsecond hts₂]
      rfl
  | either _ _, _, _, hp, h, hnil => by
      obtain ⟨hp, hq⟩ := Bool.and_eq_true_iff.mp hp
      exact h.elim (nothing_of_takes hp · hnil) (nothing_of_takes hq · hnil)
  | many _, _, _, hp, h, hnil => by
      induction h with
      | stop => rfl
      | again h _ ih =>
          obtain ⟨hts₁, hts₂⟩ := List.append_eq_nil_iff.mp hnil
          rw [nothing_of_takes (by exact hp) h hts₁, ih hts₂]
          rfl
  | optional _, _, _, _, .inl h, _ => h.2
  | optional _, _, _, hp, .inr h, hnil => nothing_of_takes (by exact hp) h hnil

end Phrase

/-! ## What is kept all along -/

/-- A method, before its struct is put in front. -/
def IsMethodNode (n : Node) : Prop := ∃ cs pos, n = .tree (.other "method") cs pos

/-- What is kept wherever something is added to what has been read, or made of it. -/
structure Gathers (L : List Lexeme → Yield → Prop) : Prop where
  nothing : L [] .nothing
  keep (t) : L [t] (.one t.part)
  drop (t) : L [t] (.skipped t.pos)
  append {ts us y z} : L ts y → L us z → L (ts ++ us) (y ++ z)
  node {ts y label} : L ts y → (ts = [] → label.mayBeEmpty ∧ y = .nothing) → L ts (y.node label)
  within {ts p outer} : L ts ⟨[p], outer⟩ → L ts (.one (p.within outer))
  /-- The methods of a struct become nodes of their own. -/
  impls {ts : List Lexeme} {y : Yield} {t : Lexeme} {methods : List Part} : L ts y → ts ≠ [] →
    y.parts = t.part :: methods → t.kind = .ident → (∀ m ∈ methods, IsMethodNode m.node) →
    L ts (.one ⟨.tree .block (implsOf (y.parts.map (·.node))) y.outer, y.outer⟩)

/-- What a rule leaves of what it has read. -/
structure Nonterminal.Lays (L : List Lexeme → Yield → Prop) (n : Nonterminal) (ts : List Lexeme)
    (y : Yield) : Prop where
  laid : n ≠ .program → L ts y
  nothing : ts = [] → n.mayBeEmpty ∧ (n.isSpliced → y = .nothing)
  method : n = .method → ∀ p ∈ y.parts, IsMethodNode p.node

section Laying

variable {L : List Lexeme → Yield → Prop}

theorem isMethodNode_of_repeats {ts : List Lexeme} {y : Yield}
    (h : Repeats (Nonterminal.method.Lays L) ts y) : ∀ p ∈ y.parts, IsMethodNode p.node := by
  induction h with
  | stop => exact List.forall_mem_nil _
  | again h _ ih => exact List.forall_mem_append.mpr ⟨h.method rfl, ih⟩

variable (hL : Gathers L)

include hL

theorem Phrase.laid_of_takes : ∀ {p : Phrase} {ts : List Lexeme} {y : Yield},
    p.mentions .program = false → p.Takes (fun n ts y => n ≠ .program → L ts y) ts y → L ts y
  | .keep _, _, _, _, ⟨t, _, rfl, rfl⟩ => hL.keep t
  | .drop _, _, _, _, ⟨t, _, rfl, rfl⟩ => hL.drop t
  | .rule _, _, _, hp, h => h (by simpa [mentions] using hp)
  | .nothing, _, _, _, ⟨rfl, rfl⟩ => hL.nothing
  | .seq _ _, _, _, hp, ⟨_, _, _, _, hfirst, hsecond, rfl, rfl⟩ => by
      obtain ⟨hp, hq⟩ := Bool.or_eq_false_iff.mp hp
      exact hL.append (laid_of_takes hp hfirst) (laid_of_takes hq hsecond)
  | .either _ _, _, _, hp, h => by
      obtain ⟨hp, hq⟩ := Bool.or_eq_false_iff.mp hp
      exact h.elim (laid_of_takes hp) (laid_of_takes hq)
  | .many _, _, _, hp, h => by
      induction h with
      | stop => exact hL.nothing
      | again h _ ih => exact hL.append (laid_of_takes (by exact hp) h) ih
  | .optional _, _, _, _, .inl ⟨rfl, rfl⟩ => hL.nothing
  | .optional _, _, _, hp, .inr h => laid_of_takes (by exact hp) h

theorem laid_surface {n : Nonterminal} (hn : n ≠ .program) {ps : List Phrase}
    {alias? : Option Label} (ha : (ps, alias?) ∈ n.alternatives) {ts : List Lexeme} {y : Yield}
    (h : L ts y) (hempty : ts = [] → n.mayBeEmpty ∧ y = .nothing) :
    L ts (Convention.surface n alias? y) := by
  have hlists : ∀ q ∈ n.alternatives, n.mayBeEmpty → n.isSpliced = false →
      n.isTransparent = false ∧ (q.2.getD n.label).mayBeEmpty := by
    revert hn
    clear ha hempty
    cases n <;> decide
  unfold Convention.surface
  split
  · exact h
  · next hspliced =>
    have hspliced : n.isSpliced = false := by simpa using hspliced
    split
    · next htransparent =>
      -- A rule that leaves a single part as it is reads something.
      have hread : ts ≠ [] := fun hts => by
        rw [(hlists _ ha (hempty hts).1 hspliced).1] at htransparent
        cases htransparent.1
      obtain ⟨_ | ⟨p, _ | ⟨q, rest⟩⟩, outer⟩ := y
      · exact hL.node h fun hts => absurd hts hread
      · exact hL.within h
      · exact hL.node h fun hts => absurd hts hread
    · exact hL.node h fun hts => ⟨(hlists _ ha (hempty hts).1 hspliced).2, (hempty hts).2⟩

theorem laid_implBlock {ps : List Phrase} {alias? : Option Label}
    (ha : (ps, alias?) ∈ Nonterminal.implBlock.alternatives) {ts : List Lexeme} {y : Yield}
    (h : (Phrase.row ps).Takes (Nonterminal.Lays L) ts y) (hlaid : L ts y) :
    L ts (Convention.lowered .implBlock alias? y) := by
  obtain ⟨rfl, rfl⟩ := Prod.mk.inj (List.mem_singleton.mp ha)
  obtain ⟨_, _, _, _, ⟨t, -, rfl, rfl⟩, ⟨_, _, _, _, ⟨name, hname, rfl, rfl⟩, ⟨_, _, _, _,
    ⟨brace, -, rfl, rfl⟩, ⟨_, us, z, _, hmethods, ⟨_, _, _, _, ⟨close, -, rfl, rfl⟩, ⟨rfl, rfl⟩,
      rfl, rfl⟩, rfl, rfl⟩, rfl, rfl⟩, rfl, rfl⟩, rfl, rfl⟩ := h
  exact hL.impls hlaid (by simp) (by simp) hname (isMethodNode_of_repeats hmethods)

theorem lays_of_reads {n : Nonterminal} {ts : List Lexeme} {y : Yield} (h : n.Reads ts y) :
    n.Lays L ts y := by
  have hall : (Phrase.rule n).Takes (Nonterminal.Lays L) ts y := by
    refine h.takes fun n ps alias? ha ts y h => ?_
    have hempty : ts = [] → n.mayBeEmpty ∧ y = .nothing := by
      intro hts
      have hrow := Phrase.mayBeEmpty_of_takes (h.mono fun _ _ _ h hts => (h.nothing hts).1) hts
      have hall : ∀ q ∈ n.alternatives, (Phrase.row q.1).mayBeEmpty →
          n.mayBeEmpty ∧ (Phrase.row q.1).leavesNothing := by
        cases n <;> decide
      obtain ⟨hn, hleaves⟩ := hall _ ha hrow
      exact ⟨hn, Phrase.nothing_of_takes hleaves (h.mono fun _ _ _ h => h.nothing) hts⟩
    have hlaid : L ts y := by
      have hall : ∀ q ∈ n.alternatives, (Phrase.row q.1).mentions .program = false := by
        cases n <;> decide
      exact Phrase.laid_of_takes hL (hall _ ha) (h.mono fun _ _ _ h => h.laid)
    refine ⟨fun hn => ?_, fun hts => ⟨(hempty hts).1, fun hspliced => ?_⟩, ?_⟩
    · by_cases himpl : n = .implBlock
      · subst himpl
        exact laid_implBlock hL ha h hlaid
      · rw [lowered_of_ne himpl]
        exact laid_surface hL hn ha hlaid hempty
    · rw [lowered_of_isSpliced hspliced]
      exact (hempty hts).2
    · rintro rfl
      obtain ⟨rfl, rfl⟩ := Prod.mk.inj (List.mem_singleton.mp ha)
      exact List.forall_mem_singleton.mpr ⟨_, _, rfl⟩
  exact hall

/-- What is kept wherever something is read holds of all that rules read. -/
theorem laid_of_reads {n : Nonterminal} {ts : List Lexeme} {y : Yield} (h : n.Reads ts y)
    (hn : n ≠ .program) : L ts y := (lays_of_reads hL h).laid hn

end Laying

/-- A rule that must read something does. -/
theorem ne_nil_of_reads {n : Nonterminal} {ts : List Lexeme} {y : Yield} (h : n.Reads ts y)
    (hn : n.mayBeEmpty = false) : ts ≠ [] := by
  have hanything : Gathers fun _ _ => True := ⟨trivial, fun _ => trivial, fun _ => trivial,
    fun _ _ => trivial, fun _ _ => trivial, fun _ => trivial, fun _ _ _ _ _ => trivial⟩
  intro hts
  have := ((lays_of_reads hanything h).nothing hts).1
  rw [hn] at this
  cases this

end Tern
