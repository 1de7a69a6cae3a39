import Munch.Text.Basic

/-!
# Options

A lexer has three switches, known by name.
-/

namespace Munch

/-- The switches of a lexer. -/
structure Options where
  /-- notices are written at level info instead of debug -/
  verbose : Bool := false
  /-- rules registered from now on fold case -/
  caseless : Bool := false
  /-- patterns are matched as patterns over bytes -/
  dfa : Bool := false
  deriving DecidableEq, Repr, Inhabited

namespace Options

/-- The names of all options, in alphabetical order. -/
def names : List Text := ["caseless", "dfa", "verbose"]

/-- The setting of an option; `none` if there is no such option. -/
def get? (o : Options) (name : Text) : Option Bool :=
  if name = Text.ofString "verbose" then some o.verbose
  else if name = Text.ofString "caseless" then some o.caseless
  else if name = Text.ofString "dfa" then some o.dfa
  else none

/-- The options with one of them switched; `none` if there is no such option. -/
def set? (o : Options) (name : Text) (on : Bool) : Option Options :=
  if name = Text.ofString "verbose" then some { o with verbose := on }
  else if name = Text.ofString "caseless" then some { o with caseless := on }
  else if name = Text.ofString "dfa" then some { o with dfa := on }
  else none

end Options

end Munch
