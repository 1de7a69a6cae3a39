import Munch.Proofs.Client
import Munch.Proofs.Words
import Munch.RuleFile.Load

/-!
# Rule files as they are written

A rule file is a list of entries, and of lines that say nothing between them. How it is laid out
does not belong to the entries: padding, and the gaps between words.

* `Pattern`: a pattern made of parts, each closed in itself: an escape, a literal, a class, or a
  symbol on its own.
* `Declared`, `Ruled`: the entries of the two sections, each with the calls that it stands for.
* `Row`: an entry with its layout, or a line that says nothing.
* `Written`: a whole file, with its text and its calls. Each call has the number of its line.
* `call`: makes calls up to the first that fails.
-/

namespace Munch.RuleFile

/-! ## Space -/

/-- A symbol that sets words apart. -/
inductive Space where
  | blank
  | tab
  deriving DecidableEq, Repr, Inhabited

/-- The symbol that is written. -/
def Space.symbol : Space → Symbol
  | .blank => .char ' '
  | .tab => .char '\t'

/-- Space that may be left out. -/
abbrev Pad := List Space

/-- The text of padding. -/
def Pad.text (p : Pad) : Text := p.map Space.symbol

/-- The space between two words. -/
structure Gap where
  first : Space
  rest : Pad := []
  deriving DecidableEq, Repr, Inhabited

/-- The text of a gap. It is never empty. -/
def Gap.text (g : Gap) : Text := g.first.symbol :: Pad.text g.rest

theorem Space.isBlank_symbol (s : Space) : s.symbol.isBlank = true := by
  cases s <;> rfl

theorem Pad.blank_text (p : Pad) : p.text.Blank := by
  intro s hs
  obtain ⟨space, -, rfl⟩ := List.mem_map.mp hs
  exact space.isBlank_symbol

theorem Gap.blank_text (g : Gap) : g.text.Blank := Pad.blank_text (g.first :: g.rest)

theorem Gap.text_ne_nil (g : Gap) : g.text ≠ [] := List.cons_ne_nil _ _

/-! ## What entries are made of -/

/-- What stands between gaps: a name, or a word of a directive. -/
structure Word where
  text : Text
  isWord : text.IsWord

/-- A name of a definition. -/
structure Identifier where
  text : Text
  isIdentifier : IsIdentifier text

/-- What a definition stands for: anything that fits on the line. -/
structure Fragment where
  text : Text
  ne_nil : text ≠ []
  trimmed : text.Trimmed
  oneLine : text.holds '\n' = false

/-- A directive as it is written. -/
structure Order where
  directive : Directive
  areWords : ∀ w ∈ directive.words, w.IsWord

/-- What stands in a literal or in a class. -/
inductive Item where
  | symbol (s : Symbol)
  | escape (s : Symbol)
  deriving DecidableEq, Repr, Inhabited

/-- The text of an item: an escape is a backslash and any symbol. -/
def Item.text : Item → Text
  | symbol s => [s]
  | escape s => [.char '\\', s]

/-- The item does not end what `close` closes. -/
def Item.fits (close : Char) : Item → Bool
  | symbol s => !s.is '\\' && !s.is close
  | escape _ => true

/-- A part of a pattern that is closed in itself. -/
inductive Part where
  | symbol (s : Symbol)
  | escape (s : Symbol)
  | literal (body : List Item)
  | cls (body : List Item)
  deriving DecidableEq, Repr, Inhabited

/-- The text of a part, with the quotes or the brackets around it. -/
def Part.text : Part → Text
  | symbol s => [s]
  | escape s => [.char '\\', s]
  | literal body => .char '"' :: (body.flatMap Item.text ++ [.char '"'])
  | cls body => .char '[' :: (body.flatMap Item.text ++ [.char ']'])

/-- The part is what it looks like. -/
def Part.fits : Part → Bool
  | symbol s => !s.is '\\' && !s.is '"' && !s.is '[' && !s.is ' ' && !s.is '\t'
  | escape _ => true
  | literal body => body.all (Item.fits '"')
  | cls body => body.all (Item.fits ']')

/-- The text of parts one after the other. -/
def textOf (parts : List Part) : Text := parts.flatMap Part.text

/-- A pattern that can start a line. -/
structure Pattern where
  parts : List Part
  fits : ∀ p ∈ parts, p.fits = true
  oneLine : (textOf parts).holds '\n' = false
  notBlank : ∀ s ∈ (textOf parts).head?, s.isBlank = false
  notComment : (textOf parts).startsWith "#" = false
  notDefault : (textOf parts).startsWith "%default" = false

/-- The text of a pattern: its parts one after the other. -/
def Pattern.text (p : Pattern) : Text := textOf p.parts

/-! ## Entries -/

/-- Calls to a lexer whose actions are directives. -/
abbrev Call := Setting (List Directive) Unit

/-- An entry of the first section. -/
inductive Declared where
  | options (names : List Word)
  | inclusive (states : List Word)
  | exclusive (states : List Word)
  | tokens (names : List Word)
  | definition (name : Identifier) (fragment : Fragment)

namespace Declared

/-- What starts the line. -/
def front : Declared → Text
  | options _ => "%option"
  | inclusive _ => "%s"
  | exclusive _ => "%x"
  | tokens _ => "%token"
  | definition name _ => name.text

/-- What follows, with gaps in front of each. -/
def rest : Declared → List Text
  | options names => names.map (·.text)
  | inclusive states => states.map (·.text)
  | exclusive states => states.map (·.text)
  | tokens names => names.map (·.text)
  | definition _ fragment => [fragment.text]

/-- The calls that the entry stands for. -/
def calls : Declared → List Call
  | options names => names.map fun name => .option name.text true
  | inclusive states => states.map fun state => .declare state.text .inclusive
  | exclusive states => states.map fun state => .declare state.text .exclusive
  | tokens names => names.map fun name => .token name.text
  | definition name fragment => [.define name.text fragment.text]

end Declared

/-- An entry of the second section. -/
inductive Ruled where
  | rule (pattern : Pattern) (order : Order) (orders : List Order)
  | default (orders : List Order)

namespace Ruled

/-- What starts the line: a pattern, or the keyword. -/
def front : Ruled → Text
  | rule pattern _ _ => pattern.text
  | default _ => "%default"

/-- The directives behind it. A pattern is followed by one or more. -/
def orders : Ruled → List Order
  | rule _ order orders => order :: orders
  | default orders => orders

/-- The action that the directives make up. -/
def action (r : Ruled) : List Directive := r.orders.map (·.directive)

/-- What follows, with gaps in front of each: the words of the action. -/
def rest (r : Ruled) : List Text := r.action.flatMap Directive.words

/-- The call that the entry stands for. -/
def calls (r : Ruled) : List Call :=
  match r with
  | rule pattern _ _ => [.rule pattern.text (some r.action)]
  | default _ => [.defaultRule (some r.action)]

/-- The pattern of a rule is not empty. -/
def Spoken : Ruled → Prop
  | rule pattern _ _ => pattern.text ≠ []
  | default _ => True

end Ruled

/-! ## Rows and files -/

/-- How an entry is laid out. -/
structure Layout where
  before : Pad := []
  gaps : Nat → Gap := fun _ => ⟨.blank, []⟩
  after : Pad := []

/-- Texts with gaps in front of them. -/
def gapped (gaps : Nat → Gap) : List Text → Text
  | [] => []
  | t :: ts => (gaps 0).text ++ t ++ gapped (fun i => gaps (i + 1)) ts

/-- A line of a rule file. -/
inductive Row (ι : Type) where
  | blank (p : Pad)
  | comment (before : Pad) (text : Text) (oneLine : text.holds '\n' = false)
  | entry (layout : Layout) (e : ι)

namespace Row

variable {ι : Type}

/-- The text of a line whose entry starts with `front` and goes on with `rest`. -/
def text (front : ι → Text) (rest : ι → List Text) : Row ι → Text
  | blank p => p.text
  | comment before text _ => before.text ++ .char '#' :: text
  | entry layout e =>
    layout.before.text ++ (front e ++ gapped layout.gaps (rest e)) ++ layout.after.text

/-- The calls of the lines, the first of which has the number `n`. -/
def numbered (calls : ι → List Call) : (n : Nat) → List (Row ι) → List (Nat × Call)
  | _, [] => []
  | n, entry _ e :: rows => (calls e).map (n, ·) ++ numbered calls (n + 1) rows
  | n, _ :: rows => numbered calls (n + 1) rows

end Row

/-- A rule file. -/
structure Written where
  declarations : List (Row Declared)
  divider : Pad × Pad
  clauses : List (Row Ruled)

namespace Written

variable (f : Written)

/-- The line between the sections. -/
def dividerText : Text := f.divider.1.text ++ Text.ofString "%%" ++ f.divider.2.text

/-- The lines of the file. -/
def lines : List Text :=
  f.declarations.map (Row.text Declared.front Declared.rest) ++ f.dividerText ::
    f.clauses.map (Row.text Ruled.front Ruled.rest)

/-- The text of the file: its lines, with a newline between any two of them. -/
def text : Text := List.intercalate [.char '\n'] f.lines

/-- The calls of the file, each with the number of its line. -/
def calls : List (Nat × Call) :=
  Row.numbered Declared.calls 1 f.declarations ++
    Row.numbered Ruled.calls (f.declarations.length + 2) f.clauses

/-- No rule of the file has the empty pattern. -/
def Spoken : Prop := ∀ layout r, Row.entry layout r ∈ f.clauses → r.Spoken

end Written

/-! ## Calls -/

/-- Makes calls up to the first that fails; its error tells the line. -/
def call : List (Nat × Call) → DirectedLexer → Except Error DirectedLexer
  | [], lx => .ok lx
  | (n, s) :: calls, lx =>
    match s.answer lx with
    | some e => .error (.inLine n e)
    | none => call calls (s.apply lx)

end Munch.RuleFile
