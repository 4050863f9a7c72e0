import Formula.CommandLine

namespace Formula.CommandLine

def version : String := "pratt-cli 0.1.0\n"

def help : String :=
  "Parse and evaluate arithmetic expressions\n\n" ++
  "Usage: pratt-cli [OPTIONS] [EXPRESSIONS]...\n\n" ++
  "Arguments:\n" ++
  "  [EXPRESSIONS]...  Expressions to evaluate. Starts an interactive session when empty\n\n" ++
  "Options:\n" ++
  "  -b, --bind <BINDINGS>  Value for a symbol, as `name=value`. May be repeated\n" ++
  "      --fold             Print the folded tree instead of the parsed one\n" ++
  "  -h, --help             Print help\n" ++
  "  -V, --version          Print version\n"

inductive Argument where
  | expression (text : String)
  /-- Everything behind it is an expression. -/
  | separator
  | version
  | help
  | fold
  /-- A binding, or none if it is the next argument. -/
  | binding (text : Option String)
  | unknown
deriving DecidableEq

/-- A single dash is an expression, and so is the empty text. -/
def Argument.ofText (text : String) : Argument :=
  match text.toList with
  | ['-'] => .expression text
  | ['-', '-'] => .separator
  | '-' :: 'V' :: _ => .version
  | '-' :: 'h' :: _ => .help
  | ['-', 'b'] => .binding none
  | '-' :: 'b' :: '=' :: value => .binding (some (String.ofList value))
  | '-' :: 'b' :: value => .binding (some (String.ofList value))
  | '-' :: '-' :: 'b' :: 'i' :: 'n' :: 'd' :: '=' :: value =>
    .binding (some (String.ofList value))
  | '-' :: _ =>
    if text = "--version" then .version
    else if text = "--help" then .help
    else if text = "--fold" then .fold
    else if text = "--bind" then .binding none
    else .unknown
  | _ => .expression text

def misuse : Outcome := ⟨2, ""⟩

def Request.addBinding (r : Request) (text : String) : Except Outcome Request :=
  match Bindings.readPair? text with
  | some p => .ok { r with bindings := r.bindings ++ [p] }
  | none => .error misuse

/-- Reads the arguments from left to right. The argument behind a lone `-b` is its value, unless it
looks like an option. -/
def Request.read (r : Request) : Reader
  | [] => .ok r
  | arg :: args =>
    match Argument.ofText arg with
    | .expression text => (r.addExpressions [text]).read args
    | .separator => .ok (r.addExpressions args)
    | .version => .error ⟨0, version⟩
    | .help => .error ⟨0, help⟩
    | .fold => if r.folds then .error misuse else { r with folds := true }.read args
    | .binding (some text) =>
      match r.addBinding text with
      | .ok r => r.read args
      | .error outcome => .error outcome
    | .binding none =>
      match args with
      | [] => .error misuse
      | text :: args =>
        match Argument.ofText text, r.addBinding text with
        | .expression _, .ok r => r.read args
        | _, _ => .error misuse
    | .unknown => .error misuse

/-- The reader that the program is built with. What it does with the request is said for any
reader. -/
def readArguments : Reader := Request.read ⟨[], false, []⟩

example : run readArguments ["--fold", "-bx=2", "x + 1", "--", "-x"] [] =
    ⟨0, "[Echo] x + 1\n[Parse] 3\n[Eval] 3\n[Echo] -x\n[Parse] -2\n[Eval] -2\n"⟩ := by
  decide +kernel

example : [["-b", "-x=1"], ["--fold", "--fold"], ["-x"], ["-b"]].map (run readArguments · []) =
    List.replicate 4 misuse := by decide +kernel

end Formula.CommandLine
