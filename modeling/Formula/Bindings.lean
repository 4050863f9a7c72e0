import Std.Data.TreeMap
import Formula.Decimal.Reader
import Formula.Text.Blank

namespace Formula

abbrev Bindings := Std.TreeMap String Float

namespace Bindings

/-- The last value given to a name is the one it has. -/
def ofPairs (pairs : List (String × Float)) : Bindings := Std.TreeMap.ofList pairs

def toPairs (m : Bindings) : List (String × Float) := m.toList

/-- Splits at the first `=`; blanks around the name and around the value do not count. -/
def readPair? (text : String) : Option (String × Float) :=
  let name := text.toList.takeWhile (· != '=')
  match text.toList.dropWhile (· != '=') with
  | [] => none
  | _ :: value =>
    let name := Text.trimChars name
    if name.isEmpty then none
    else
      (Decimal.readFloat? (String.ofList (Text.trimChars value))).map (String.ofList name, ·)

example : ["x=1", " x y = 2.5 ", "x", "=1", "x = = 1", "x=1=2"].map readPair? =
    [some ("x", 1.0), some ("x y", 2.5), none, none, none, none] := by decide +kernel

end Bindings

end Formula
