import LittleMan.CommandLine.Command
import LittleMan.FileTree
import LittleMan.Report
import LittleMan.Session.Transcript

/-! The program as a function: from a command line, standard input and files to a status, what is
printed, and the files after it. -/

namespace LittleMan

/-- How the program ends. A fault breaks it off; what was printed before stays printed. -/
structure Outcome where
  status : Except Fault Nat
  stdout : Text := ""
  stderr : Text := ""
  files : FileTree
  deriving Repr

namespace Program

def baseName (path : String) : String :=
  String.ofList (path.toList.reverse.takeWhile (· != '/')).reverse

def reportFile (files : FileReader) (hints : Bool) (path : String) : Except Fault (Text × Bool) :=
  match files path with
  | .ok text => Report.check (Source.named (some (baseName path)) text) hints
  | .error .fileNotFound => .ok ("File not found: " ++ path ++ "\n", false)
  | .error e => .error e

/-- What is printed about files in turn, and whether nothing is wrong with any of them. A fault keeps
what was printed before it. -/
def reportFiles (files : FileReader) (hints : Bool) : List String → Text × Except Fault Bool
  | [] => ("", .ok true)
  | path :: rest =>
    match reportFile files hints path with
    | .error e => ("", .error e)
    | .ok (text, clean) =>
      let (later, result) := reportFiles files hints rest
      (text ++ later, result.map (clean && ·))

/-- The bytes of the lines of a log, up to one that has no encoding. -/
def logBytes : List Text → List UInt8
  | [] => []
  | line :: lines =>
    match line.toString? with
    | some text => (text ++ "\n").toUTF8.toList ++ logBytes lines
    | none => []

def afterLog (files : FileTree) (path : Option String) (lines : List Text) :
    Except Fault FileTree :=
  match path with
  | some path => files.append path (logBytes lines)
  | none => .ok files

def asksClient : Json → Bool
  | .obj fields => (Json.lookup "method" fields).isSome && (Json.lookup "id" fields).isSome
  | _ => false

/-- A turn of a session that keeps its log in a file. A line that has no encoding ends it; what the turn
asks of the client is asked before. -/
def intoFile (t : Turn) : Turn :=
  if t.log.all (·.toString?.isSome) then t
  else { t with
    out := t.out.filter asksClient
    log := t.log.takeWhile (·.toString?.isSome)
    fault := some .loneSurrogate }

def untilFault : List Turn → List Turn
  | [] => []
  | t :: rest => if t.fault.isSome then [t] else t :: untilFault rest

def serve (files : FileTree) (log : Option String) (input : List UInt8) : Outcome :=
  match afterLog files log [] with
  | .error e => { status := .error e, files }
  | .ok opened =>
    let filesAt (lines : List Text) : FileTree := (afterLog files log lines).toOption.getD opened
    let turns := Session.transcript (fun lines => (filesAt lines).read) input
    let t := Session.merge (if log.isSome then untilFault (turns.map intoFile) else turns)
    { status := match t.fault with
        | some e => .error e
        | none => .ok (Session.status t.server)
      stdout := Text.join (t.out.map fun m => Frame.text m)
      files := filesAt t.log }

def run (files : FileTree) (argv : List String) (input : List UInt8) : Outcome :=
  match Command.ofArguments argv with
  | .help => { status := .ok 0, stdout := Command.manual, files }
  | .refuse message => { status := .ok 2, stderr := Command.refusal message, files }
  | .serve log => serve files log input
  | .listTemplates =>
    { status := .ok 0, stdout := Text.join (Template.all.map (·.name ++ "\n")), files }
  | .showTemplate name =>
    match Template.find? name with
    | some t => { status := .ok 0, stdout := Text.ofList t.text, files }
    | none => { status := .ok 1, stderr := Template.missingMessage name ++ "\n", files }
  | .nothing => { status := .ok 1, stderr := Command.usage, files }
  | .check paths hints =>
    let (stdout, result) := reportFiles files.read hints paths
    { status := result.map fun clean => if clean then 0 else 1, stdout, files }

end Program

end LittleMan
