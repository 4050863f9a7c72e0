import Formula.Report

namespace Formula.Session

def greeting : String := "Type \"q|quit|exit\" line to quit."

inductive Reply where
  | silence
  | report (text : String)
  | farewell
deriving DecidableEq

/-- Blanks around an input do not count. A line that is not UTF-8 ends the session. -/
def reply (settings : Settings) (line : List UInt8) : Reply :=
  match String.fromUTF8? (ByteArray.mk line.toArray) with
  | none => .farewell
  | some text =>
    match Text.trim text with
    | "q" => .farewell
    | "quit" => .farewell
    | "exit" => .farewell
    | "" => .silence
    | input => .report (settings.report input (Expr.parse input))

def newline : UInt8 := 10

/-- The lines, without the bytes that end them. Behind the last of these stands one more line,
which is empty when the bytes end in a newline and then has no reply. -/
def splitLines : List UInt8 → List (List UInt8)
  | [] => [[]]
  | b :: bs =>
    if b = newline then [] :: splitLines bs
    else
      match splitLines bs with
      | [] => [[b]]
      | line :: lines => (b :: line) :: lines

theorem splitLines_append {line : List UInt8} (h : newline ∉ line) (rest : List UInt8) :
    splitLines (line ++ newline :: rest) = line :: splitLines rest := by
  induction line with
  | nil => simp [splitLines]
  | cons b line ih =>
    obtain ⟨hb, hl⟩ : b ≠ newline ∧ newline ∉ line := by
      simpa [eq_comm] using h
    simp only [List.cons_append, splitLines, hb, if_false, ih hl]

def replies (settings : Settings) : List (List UInt8) → String
  | [] => ""
  | line :: lines =>
    match reply settings line with
    | .silence => replies settings lines
    | .report text => text ++ "\n" ++ replies settings lines
    | .farewell => ""

def transcript (settings : Settings) (input : List UInt8) : String :=
  greeting ++ "\n" ++ replies settings (splitLines input)

end Formula.Session
