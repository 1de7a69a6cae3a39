import Munch.Lexer.Scan

/-!
# Tokenizers

A tokenizer hands out the tokens of a scan one at a time. The lexer's token handler puts tokens into
the tokenizer's queue; when the queue is empty the tokenizer steps the lexer until there is a token
or the scan is over. Behind the last token, and after an error, it hands out `none`. Whether the
scan is over is decided by the latest step: one that dispatched a match goes on, whatever its action
has pulled.
-/

namespace Munch

/-- The tokens emitted but not handed out, and whether the scan is over. -/
structure Tokenizer (υ : Type) where
  pending : List (Token υ) := []
  stopped : Bool := false
  deriving Repr, Inhabited

/-- Where a world keeps a tokenizer. -/
structure Place (υ ω : Type) where
  get : ω → Tokenizer υ
  set : Tokenizer υ → ω → ω

/-- What a tokenizer hands out. -/
inductive Pulled (υ : Type) where
  | token (t : Token υ)
  | ended
  /-- the matcher broke down -/
  | broken
  /-- there is more to do than the limit allows -/
  | unfinished
  deriving Repr, Inhabited

namespace Tokenizer

variable {α η υ ω : Type}

/-- The tokenizer with a token put into its queue. -/
def push (t : Tokenizer υ) (token : Token υ) : Tokenizer υ :=
  { t with pending := t.pending ++ [token] }

/-- Steps the lexer until there is a token or the scan is over, at most `limit` times. Errors go to
`report`. -/
def fill (h : Host α η υ ω) (p : Place υ ω) (report : Error → Lexer α η → ω → Lexer α η × ω) :
    (limit : Nat) → Lexer α η → ω → Option (Pulled υ) × Lexer α η × ω
  | 0, lx, world => (some .unfinished, lx, world)
  | limit + 1, lx, world =>
    if !(p.get world).pending.isEmpty || (p.get world).stopped then (none, lx, world)
    else
      match lx.step h world with
      | (.more, lx, world) =>
        fill h p report limit lx (p.set { p.get world with stopped := false } world)
      | (.done, lx, world) =>
        fill h p report limit lx (p.set { p.get world with stopped := true } world)
      | (.failed e, lx, world) =>
        let (lx, world) := report e lx world
        fill h p report limit lx (p.set { p.get world with stopped := true } world)
      | (.broken, lx, world) => (some .broken, lx, world)

/-- The next token. -/
def next (h : Host α η υ ω) (p : Place υ ω) (report : Error → Lexer α η → ω → Lexer α η × ω)
    (limit : Nat) (lx : Lexer α η) (world : ω) : Pulled υ × Lexer α η × ω :=
  match fill h p report limit lx world with
  | (some other, lx, world) => (other, lx, world)
  | (none, lx, world) =>
    match (p.get world).pending with
    | [] => (.ended, lx.note .debug .tokensEnded, world)
    | token :: rest => (.token token, lx, p.set { p.get world with pending := rest } world)

end Tokenizer

end Munch
