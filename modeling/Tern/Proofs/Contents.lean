import Tern.Proofs.Derivations

/-!
# What rules read

Of the frames of a derivation only the nodes matter for the shape of a tree. A `Stack` holds them
without their positions, and an `Account` says what the reading of each nonterminal does to it, as
far as tokens that fit are concerned. `Account.wp` runs a row of goals by the account; an account
is closed when every production, run by it, does no more than the account says of its
nonterminal. Then so does every derivation (`Account.Closed.derives`).
-/

namespace Tern

/-- The nodes that each rule entered has read, the innermost rule first. -/
abbrev Stack := List (List Node)

/-- A node that a rule may make of some nodes. -/
def Rule.Builds (rule : Rule) (ns : List Node) (n : Node) : Prop :=
  ∃ start parts, parts.map (·.node) = ns ∧ n = (rule.build start parts).node

namespace Stack

def ofFrames (fs : List Frame) : Stack := fs.map fun f => f.parts.reverse.map (·.node)

/-- Nodes are read by the innermost rule. -/
def put (ns : List Node) : Stack → Stack
  | [] => []
  | top :: below => (top ++ ns) :: below

/-- The innermost rule ends. -/
def Leaves (rule : Rule) : Stack → Stack → Prop
  | [], σ => σ = []
  | ns :: below, σ => ∃ n, rule.Builds ns n ∧ σ = put [n] below

@[simp] theorem put_nil (σ : Stack) : put [] σ = σ := by
  cases σ <;> simp [put]

@[simp] theorem put_put (ms ns : List Node) (σ : Stack) :
    put ns (put ms σ) = put (ms ++ ns) σ := by
  cases σ <;> simp [put]

theorem ofFrames_addPart (part : Part) (fs : List Frame) :
    ofFrames (addPart part fs) = put [part.node] (ofFrames fs) := by
  cases fs <;> simp [ofFrames, addPart, put]

theorem ofFrames_addPos (pos : Pos) (fs : List Frame) :
    ofFrames (addPos pos fs) = ofFrames fs := by
  cases fs <;> rfl

theorem leaves_leaveFrame (rule : Rule) (fs : List Frame) :
    Leaves rule (ofFrames fs) (ofFrames (leaveFrame rule fs)) := by
  cases fs with
  | nil => rfl
  | cons f below =>
      refine ⟨_, ⟨f.start, f.parts.reverse, rfl, rfl⟩, ?_⟩
      rw [leaveFrame, ofFrames_addPart]
      rfl

end Stack

/-! ## Accounts -/

structure Account where
  /-- The tokens that are accounted for. -/
  fits : TokenKind → String → Prop
  /-- What the reading of a nonterminal may do. -/
  effect : Goal → Stack → Stack → Prop

namespace Account

open Stack

/-- Whatever reading the goals may come to has the property. -/
def wp (A : Account) : List Goal → (Stack → Prop) → Stack → Prop
  | [], Q, σ => Q σ
  | .keep k :: gs, Q, σ =>
    ∀ text pos, A.fits k text → A.wp gs Q (put [.token k text (some pos)] σ)
  | .drop _ :: gs, Q, σ => A.wp gs Q σ
  | .enter :: gs, Q, σ => A.wp gs Q ([] :: σ)
  | .leave rule :: gs, Q, σ => ∀ σ', Leaves rule σ σ' → A.wp gs Q σ'
  | g :: gs, Q, σ => ∀ σ', A.effect g σ σ' → A.wp gs Q σ'

/-- The alternatives of a nonterminal do what is said of it. -/
def Meets (A : Account) (g : Goal) (production : List Goal) : Prop :=
  ∀ Q σ, (∀ σ', A.effect g σ σ' → Q σ') → A.wp production Q σ

def Closed (A : Account) : Prop := ∀ g, ∀ production ∈ g.productions, A.Meets g production

variable {A : Account}

theorem wp_append {Q : Stack → Prop} : ∀ {gs hs : List Goal} {σ : Stack},
    A.wp gs (A.wp hs Q) σ → A.wp (gs ++ hs) Q σ
  | [], _, _, h => h
  | g :: gs, hs, σ, h => by
      cases g <;> first
        | exact fun text pos hfit => wp_append (h text pos hfit)
        | exact fun σ' hσ => wp_append (h σ' hσ)
        | exact (wp_append h : A.wp (gs ++ hs) Q _)

/-- Expanding a nonterminal by a production that meets what is said of it. -/
theorem wp_of_mem_productions (hA : A.Closed) {g : Goal} {production gs : List Goal}
    (hp : production ∈ g.productions) {Q : Stack → Prop} {σ : Stack}
    (h : A.wp (g :: gs) Q σ) : A.wp (production ++ gs) Q σ := by
  refine wp_append (hA g production hp _ σ ?_)
  cases g <;> first
    | exact h
    | cases hp

/-- A closed account is right about every derivation. -/
theorem Closed.derives (hA : A.Closed) {gs : List Goal} {fs fs' : List Frame}
    {ts : List Lexeme} (hd : Derives gs fs ts fs') (hts : ∀ t ∈ ts, A.fits t.kind t.text)
    {Q : Stack → Prop} (h : A.wp gs Q (ofFrames fs)) : Q (ofFrames fs') := by
  induction hd with
  | done fs => exact h
  | keep t _ ih =>
      refine ih (fun t' ht' => hts t' (List.mem_cons_of_mem _ ht')) ?_
      rw [ofFrames_addPart]
      exact h t.text t.pos (hts t (List.mem_cons_self ..))
  | drop t _ ih =>
      refine ih (fun t' ht' => hts t' (List.mem_cons_of_mem _ ht')) ?_
      rw [ofFrames_addPos]
      exact h
  | enter _ ih => exact ih hts h
  | leave rule _ ih => exact ih hts (h _ (leaves_leaveFrame rule _))
  | expand hp _ ih => exact ih hts (wp_of_mem_productions hA hp h)

/-! ## Ends of rules -/

variable {Q : Stack → Prop} {gs : List Goal} {ns : List Node} {σ : Stack}

theorem wp_leave {rule : Rule} (h : ∀ n, rule.Builds ns n → A.wp gs Q (put [n] σ)) :
    A.wp (.leave rule :: gs) Q (ns :: σ) := by
  rintro _ ⟨n, hn, rfl⟩
  exact h n hn

theorem wp_leave_node {label : Label} (h : ∀ pos, A.wp gs Q (put [.tree label ns pos] σ)) :
    A.wp (.leave (.node label) :: gs) Q (ns :: σ) := by
  refine wp_leave fun n hn => ?_
  obtain ⟨start, parts, rfl, rfl⟩ := hn
  exact h start

end Account

end Tern
