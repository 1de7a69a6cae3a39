import Munch.Text.Basic

/-!
# Definitions

A definition gives a name to a fragment of a pattern. A pattern refers to it by the name in braces.

* `Definitions.expand` replaces references, one definition after the other in the order in which
  they were made: a fragment that is put in is searched for the names of later definitions only.
* `references` finds what still looks like a reference: an identifier in braces.
-/

namespace Munch

/-- Fragments by name, in the order in which they were defined. -/
structure Definitions where
  entries : List (Text × Text) := []
  deriving DecidableEq, Repr, Inhabited

namespace Definitions

/-- The fragment of a name. -/
def find? (d : Definitions) (name : Text) : Option Text := d.entries.lookup name

/-- Adds a definition; `none` if the name is taken. -/
def define? (d : Definitions) (name fragment : Text) : Option Definitions :=
  match d.find? name with
  | some _ => none
  | none => some ⟨d.entries ++ [(name, fragment)]⟩

/-- How a pattern refers to a name. -/
def reference (name : Text) : Text := [.char '\x7b'] ++ name ++ [.char '\x7d']

/-- A fragment as it is put into a pattern. -/
def grouped (fragment : Text) : Text := [.char '('] ++ fragment ++ [.char ')']

/-- The pattern with all references replaced, one definition after the other. -/
def expand (d : Definitions) (pattern : Text) : Text :=
  if pattern.holds '\x7b' then
    d.entries.foldl
      (fun p (name, fragment) => Text.replaceAll (reference name) (grouped fragment) p) pattern
  else pattern

end Definitions

/-! ## What looks like a reference -/

/-- Can the symbol start an identifier? -/
def Symbol.startsName : Symbol → Bool
  | .char c => c.isAlpha || c = '_'
  | .stray _ => false

/-- Can the symbol be part of an identifier? -/
def Symbol.inName : Symbol → Bool
  | .char c => c.isAlphanum || c = '_'
  | .stray _ => false

/-- The identifier at the front of a text, if a closing brace follows it, and what follows that. -/
def bracedName? (t : Text) : Option (Text × Text) :=
  match t with
  | s :: _ =>
    if s.startsName then
      match t.span Symbol.inName with
      | (name, .char '\x7d' :: rest) => some (name, rest)
      | _ => none
    else none
  | [] => none

/-- Looks for identifiers in braces at one symbol after the other. -/
def referencesFrom : (fuel : Nat) → Text → List Text
  | 0, _ => []
  | _ + 1, [] => []
  | fuel + 1, s :: rest =>
    if s.is '\x7b' then
      match bracedName? rest with
      | some (name, rest) => name :: referencesFrom fuel rest
      | none => referencesFrom fuel rest
    else referencesFrom fuel rest

/-- The identifiers in braces, from left to right. -/
def references (t : Text) : List Text := referencesFrom t.length t

end Munch
