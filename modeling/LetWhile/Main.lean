import LetWhile.CommandLine.Script

/-!
# The command

Plays the script of a command against the real files, input and terminal.
-/

namespace LetWhile.Main

/-- The fault behind an error of the system. -/
def fault : IO.Error → FileFault
  | .noFileOrDirectory _ _ _ => .missing
  | .inappropriateType _ 20 _ => .notDirectory
  | .inappropriateType _ 21 _ => .isDirectory
  | e => .other (toString e)

/-- Reads a file. -/
def load (path : String) : IO (Except FileError (List UInt8)) := do
  match ← (IO.FS.readBinFile path).toBaseIO with
  | .ok bytes => return .ok bytes.toList
  | .error e =>
    match fault e with
    | .isDirectory => return .error (.reading path .isDirectory)
    | f => return .error (.opening path f)

/-- Writes a file. -/
def save (path : String) (content : List UInt8) : IO (Option FileError) := do
  match ← (IO.FS.writeBinFile path (ByteArray.mk content.toArray)).toBaseIO with
  | .ok _ => return none
  | .error e => return some (.opening path (fault e))

/-- Shows a text. -/
def tell (event : Event) : IO Unit := do
  let stream ← match event.channel with
    | .out => IO.getStdout
    | .err => IO.getStderr
  stream.putStr event.text
  stream.flush

/-- Holds a conversation line by line. -/
partial def talk (stdin : IO.FS.Stream) (c : Conversation) : IO Conversation := do
  match c.promptFault? with
  | some complaint =>
    tell complaint
    return c
  | none =>
    tell { channel := .out, text := c.prompt }
    match Conversation.lines (utf8Bytes (← stdin.getLine)) with
    | [] =>
      tell { channel := .out, text := "\n" }
      return c
    | lines =>
      let mut c := c
      for line in lines do
        let (events, next) := c.take line
        events.forM tell
        c := next
      talk stdin c

/-- Holds a conversation with the history in its file. -/
def converse (settings : Settings) (color : Bool) : IO Unit := do
  let path := settings.historyPath ((← IO.getEnv "HOME").getD "")
  let history ← if path = "" then pure {} else
    match ← load path with
    | .ok content => pure (History.ofBytes content)
    | .error _ => pure {}
  let c ← talk (← IO.getStdin) (Conversation.start settings color history)
  if path ≠ "" then
    let _ ← save path c.history.toBytes

/-- Plays a script. -/
def play : Script → IO UInt32
  | .exit code => return code.toUInt32
  | .tell event next => do
    tell event
    play next
  | .load path next => do
    play (next (← load path))
  | .save path content next => do
    play (next (← save path content))
  | .input next => do
    match ← (← IO.getStdin).readBinToEnd.toBaseIO with
    | .ok bytes => play (next { bytes := bytes.toList })
    | .error e => play (next { bytes := [], failure := some (toString e) })
  | .converse settings color => do
    converse settings color
    return 0

end LetWhile.Main

/-- Runs the command with its arguments. -/
def main (arguments : List String) : IO UInt32 := do
  let terminal ← (← IO.getStdin).isTty
  let color ← (← IO.getStderr).isTty
  LetWhile.Main.play (LetWhile.Script.ofArguments { terminal, color } arguments)
