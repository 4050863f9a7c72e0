import Formula.Text.GraphemeExtend
import Formula.Text.Unprintable

namespace Formula.Text

def hexDigits (n : Nat) : List Char := Nat.toDigits 16 n

/-- A combining mark would join the quote before it, so it is written by its code point too. -/
def escape (c : Char) : List Char :=
  match c with
  | '"' => ['\\', '"']
  | '\\' => ['\\', '\\']
  | '\n' => ['\\', 'n']
  | '\r' => ['\\', 'r']
  | '\t' => ['\\', 't']
  | '\x00' => ['\\', '0']
  | c =>
    if isGraphemeExtend c || isUnprintable c then
      ['\\', 'u', '\x7b'] ++ hexDigits c.toNat ++ ['\x7d']
    else [c]

def quoted (s : String) : String :=
  String.ofList ('"' :: s.toList.flatMap escape ++ ['"'])

example : quoted "say \"a\\b\"" = "\"say \\\"a\\\\b\\\"\"" := by decide +kernel

example : quoted "e\u0301 \u200b\t'" = "\"e\\u\x7b301\x7d \\u\x7b200b\x7d\\t'\"" := by
  decide +kernel

end Formula.Text
