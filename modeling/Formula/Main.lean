import Formula.Arguments

namespace Formula.Main

open CommandLine

partial def readLine (stdin : IO.FS.Stream) (line : ByteArray) : IO (List UInt8 × Bool) := do
  let byte ← stdin.read 1
  if byte.isEmpty then return (line.toList, true)
  else if byte[0]! = Session.newline then return (line.toList, false)
  else readLine stdin (line ++ byte)

partial def converse (settings : Settings) (stdin stdout : IO.FS.Stream) : IO Unit := do
  let (line, last) ← readLine stdin ByteArray.empty
  match Session.reply settings line with
  | .farewell => return
  | .silence => if !last then converse settings stdin stdout
  | .report text =>
    stdout.putStrLn text
    stdout.flush
    if !last then converse settings stdin stdout

end Formula.Main

open Formula Formula.CommandLine in
def main (args : List String) : IO UInt32 := do
  match readArguments args with
  | .error outcome =>
    IO.print outcome.output
    return outcome.exitCode.toUInt32
  | .ok r =>
    if r.expressions.isEmpty then
      let stdout ← IO.getStdout
      stdout.putStrLn Session.greeting
      Formula.Main.converse r.settings (← IO.getStdin) stdout
    else
      IO.print (batch r.settings r.expressions)
    return 0
