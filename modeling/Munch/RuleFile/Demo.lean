import Munch.RuleFile.Load

/-!
# A small rule file

Numbers, names, operators and quoted strings, for experiments.
-/

namespace Munch.RuleFile

/-- The rule file that is used if none is given. -/
def demo : Text := Text.join "\n" [
  "%token NUM ID OP STR",
  "%x STRING",
  "DIGIT   [0-9]",
  "%%",
  "\x7bDIGIT\x7d+(\\.\x7bDIGIT\x7d+)?    emit NUM",
  "[A-Za-z_][A-Za-z0-9_]*   emit ID",
  "[-+*/=()]                emit OP",
  "\"\\\"\"                     begin STRING",
  "<STRING>[^\"\\n]*          emit STR",
  "<STRING>\"\\\"\"             begin initial",
  "[ \\t\\n]+                 skip"]

end Munch.RuleFile
