import LittleMan.CommandLine.Program

/-! The program on the real files and streams. All that is decided is decided by the functions of the
library; here bytes are read and written. -/

namespace LittleMan

namespace Main

def faultText : Fault → String
  | .tooManyDigits => "a numeral has too many digits"
  | .outOfRange => "a position is out of range"
  | .missingKey _ | .missingItem _ => "a message lacks a field"
  | .wrongShape => "a message has a value of the wrong form"
  | .notAnObject => "a message has no object where one is needed"
  | .sizeOverflow => "a message is too large"
  | .noMemory => "a text is too long"
  | .fileNotFound => "a file is not found"
  | .isDirectory => "a file is a directory"
  | .notDirectory => "a directory is a file"
  | .badEncoding => "a file is not UTF-8"
  | .loneSurrogate => "a text has no encoding"
  | .tooDeep => "a message is nested too deep"
  | .badPath => "a path holds the NUL character"
  | .nameTooLong => "a name is too long"
  | .unreadable => "a file cannot be read"

def fail {α : Type} (e : Fault) : IO α := throw (IO.userError (faultText e))

def readText (path : Text) : IO (Except Fault (List CodePoint)) := do
  match pathBytes path.toList, path.toString? with
  | .error e, _ => return .error e
  | .ok _, none => return .error .fileNotFound
  | .ok bytes, some name =>
    if bytes.contains 0 then return .error .badPath
    try
      return textOfFile (← IO.FS.readBinFile name).toList
    catch
      | .noFileOrDirectory .. => return .error .fileNotFound
      | .inappropriateType .. | .illegalOperation .. => return .error .isDirectory
      | _ => return .error .unreadable

def wantedPath? (fields : List (Text × Json)) : Option Text :=
  if Json.lookup "method" fields = some (.str "textDocument/diagnostic") then
    match Json.lookup "params" fields with
    | some params =>
      match params.field "textDocument" >>= (·.field "uri") with
      | .ok (.str uri) => pathOfUri? uri
      | _ => none
    | none => none
  else none

/-- A reader that knows one file, or none. -/
def readerOf (path : Option Text) : IO FileReader := do
  match path with
  | some path =>
    let text ← readText path
    return fun p => if p = path then text else .error .fileNotFound
  | none => return fun _ => .error .fileNotFound

def readerFor : Frame → IO FileReader
  | .message fields => readerOf (wantedPath? fields)
  | _ => readerOf none

partial def readLine (input : IO.FS.Stream) (line : List UInt8) : IO (List UInt8) := do
  let chunk ← input.read 1
  match chunk.toList with
  | [] => return line.reverse
  | b :: _ => if b = 10 then return (b :: line).reverse else readLine input (b :: line)

/-- As many bytes of a stream as asked for, or as there are. -/
partial def readBytes (input : IO.FS.Stream) (count : Option Nat) (bytes : ByteArray) :
    IO (List UInt8) := do
  let left := (count.map (· - bytes.size)).getD 4096
  if left = 0 then return bytes.toList
  let chunk ← input.read (min left 65536).toUSize
  if chunk.isEmpty then return bytes.toList
  readBytes input count (bytes ++ chunk)

def readBody (input : IO.FS.Stream) : Frame.BodySize → IO (List UInt8)
  | .missing _ | .tooLarge => return []
  | .rest => readBytes input none .empty
  | .bytes n => readBytes input (some n) .empty

/-- Takes `Frame.Header.next` from line to line, as `Frame.read` does on a list of bytes. -/
partial def readFrame (input : IO.FS.Stream) (h : Frame.Header) : IO Frame := do
  let line ← readLine input []
  if line.isEmpty then return .ended
  match h.next line with
  | .line h => readFrame input h
  | .malformed why => return .malformed why
  | .body size => return (Frame.readBody size (← readBody input size)).1

/-- Takes `Session.step` from message to message, as `Session.turns` does on a list of frames. -/
partial def serve (input output : IO.FS.Stream) (log : Option (Text → IO Unit)) (server : Server) :
    IO UInt32 := do
  let frame ← readFrame input {}
  let (t, goesOn) := Session.step (← readerFor frame) server frame
  let t := if log.isSome then Program.intoFile t else t
  for line in t.log do log.forM (· line)
  for message in t.out do output.putStr (Frame.text message)
  output.flush
  match t.fault with
  | some e => fail e
  | none =>
    if goesOn then serve input output log t.server
    else return (Session.status t.server).toUInt32

def printText (t : Text) (stream : IO.FS.Stream) : IO Unit :=
  match t.toString? with
  | some s => stream.putStr s
  | none => fail .loneSurrogate

def openLog (path : String) : IO (Text → IO Unit) := do
  let file ← IO.FS.Handle.mk path .append
  let stream := IO.FS.Stream.ofHandle file
  return fun line => do
    printText (line ++ "\n") stream
    stream.flush

/-- Prints the reports on files, all of which are read before. -/
def printReports (hints : Bool) (paths : List String) : IO UInt32 := do
  let texts ← paths.mapM fun (path : String) => do return ((path : Text), ← readText path)
  let files : FileReader := fun path => (texts.lookup path).getD (.error .fileNotFound)
  let (report, result) := Program.reportFiles files hints paths
  printText report (← IO.getStdout)
  match result with
  | .ok clean => return if clean then 0 else 1
  | .error e => fail e

def run (args : List String) : IO UInt32 := do
  match Command.ofArguments args with
  | .serve path =>
    let log ← path.mapM openLog
    log.forM (· Session.greeting)
    serve (← IO.getStdin) (← IO.getStdout) log {}
  | .check paths hints => printReports hints paths
  | _ =>
    let o := Program.run {} args []
    printText o.stdout (← IO.getStdout)
    printText o.stderr (← IO.getStderr)
    return (o.status.toOption.getD 1).toUInt32

end Main

end LittleMan

def main (args : List String) : IO UInt32 := LittleMan.Main.run args
