/-!
# String literals

A text is written between double quotes, with a backslash before each quote and each
backslash, and with `\n`, `\t` and `\r` for the three control characters that have a letter.
Reading is lenient: a backslash before any other character stands for itself, and a text that
is not between quotes is read all the same. Main statement: `unquote_quote`, reading undoes
writing.
-/

namespace Tern.Text

/-- The letter that stands for a character after a backslash. -/
def escapeLetter? : Char → Option Char
  | '\n' => some 'n'
  | '\t' => some 't'
  | '\r' => some 'r'
  | '"' => some '"'
  | '\\' => some '\\'
  | _ => none

/-- The character that a letter after a backslash stands for. -/
def escaped? : Char → Option Char
  | 'n' => some '\n'
  | 't' => some '\t'
  | 'r' => some '\r'
  | '"' => some '"'
  | '\\' => some '\\'
  | _ => none

/-- The inside of a literal. -/
def escapeChars : List Char → List Char
  | [] => []
  | c :: rest =>
    match escapeLetter? c with
    | some letter => '\\' :: letter :: escapeChars rest
    | none => c :: escapeChars rest

/-- Reads the inside of a literal. -/
def unescapeChars : List Char → List Char
  | [] => []
  | ['\\'] => ['\\']
  | '\\' :: c :: rest =>
    match escaped? c with
    | some plain => plain :: unescapeChars rest
    | none => '\\' :: c :: unescapeChars rest
  | c :: rest => c :: unescapeChars rest

def quoteChars (cs : List Char) : List Char := '"' :: (escapeChars cs ++ ['"'])

/-- Takes the quotes off a text of at least two characters that has one at either end. -/
def stripQuotes (cs : List Char) : List Char :=
  match cs with
  | '"' :: rest => if rest.getLast? = some '"' then rest.dropLast else cs
  | _ => cs

def unquoteChars (cs : List Char) : List Char := unescapeChars (stripQuotes cs)

def quote (s : String) : String := String.ofList (quoteChars s.toList)

def unquote (s : String) : String := String.ofList (unquoteChars s.toList)

/-! ## Reading undoes writing -/

theorem escaped?_of_escapeLetter? {c l : Char} (h : escapeLetter? c = some l) :
    escaped? l = some c := by
  unfold escapeLetter? at h
  split at h <;> cases h <;> rfl

theorem ne_backslash_of_escapeLetter? {c : Char} (h : escapeLetter? c = none) : c ≠ '\\' := by
  rintro rfl
  cases h

/-- A character other than a backslash is read as itself. -/
theorem unescapeChars_cons {c : Char} (h : c ≠ '\\') (rest : List Char) :
    unescapeChars (c :: rest) = c :: unescapeChars rest := by
  rw [unescapeChars.eq_4]
  · rintro rfl; exact absurd rfl h
  · rintro d r rfl; exact absurd rfl h

theorem unescapeChars_escapeChars (cs : List Char) : unescapeChars (escapeChars cs) = cs := by
  induction cs with
  | nil => rfl
  | cons c rest ih =>
    rw [escapeChars]
    split
    · next letter h => rw [unescapeChars, escaped?_of_escapeLetter? h, ih]
    · next h => rw [unescapeChars_cons (ne_backslash_of_escapeLetter? h), ih]

theorem stripQuotes_quoteChars (cs : List Char) : stripQuotes (quoteChars cs) = escapeChars cs := by
  simp [quoteChars, stripQuotes]

theorem unquoteChars_quoteChars (cs : List Char) : unquoteChars (quoteChars cs) = cs := by
  rw [unquoteChars, stripQuotes_quoteChars, unescapeChars_escapeChars]

theorem unquote_quote (s : String) : unquote (quote s) = s := by
  simp [unquote, quote, unquoteChars_quoteChars]

end Tern.Text
