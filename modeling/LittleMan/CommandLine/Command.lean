import LittleMan.CommandLine.Options

/-! What the program is asked to do, and what it says of its use. -/

namespace LittleMan

inductive Command where
  | help
  /-- The command line is not understood. -/
  | refuse (message : Text)
  /-- Serve a client, and write the log to a file. -/
  | serve (log : Option String)
  | listTemplates
  | showTemplate (name : String)
  | nothing
  | check (paths : List String) (hints : Bool)
  deriving DecidableEq, Repr

namespace Command

def given (value : Option String) : Option String := value.filter (· ≠ "")

/-- Serving comes before all else, then the templates, then the files. -/
def ofOptions (o : Options) : Command :=
  if o.lsp then .serve (given o.lspDebug)
  else if o.listTemplates then .listTemplates
  else
    match given o.template with
    | some name => .showTemplate name
    | none => if o.infiles.isEmpty then .nothing else .check o.infiles (!o.noHints)

def ofArguments (argv : List String) : Command :=
  match Options.ofArguments argv with
  | .options o => ofOptions o
  | .help => .help
  | .refused message => .refuse message

def usage : String :=
  "usage: lmc [-h] [--lsp] [--lsp-debug FILE] [--list-templates]\n" ++
  "           [--template NAME] [--no-hints]\n" ++
  "           [infile ...]\n"

def manual : String :=
  usage ++
  "\nChecker and language server for LMC assembly\n" ++
  "\npositional arguments:\n" ++
  "  infile\n" ++
  "\noptions:\n" ++
  "  -h, --help            show this help message and exit\n" ++
  "  --lsp                 Ignore all other arguments and start in language\n" ++
  "                        server mode\n" ++
  "  --lsp-debug FILE      Append language server debug output to FILE\n" ++
  "  --list-templates      List the example programs\n" ++
  "  --template NAME, -t NAME\n" ++
  "                        Print an example program\n" ++
  "  --no-hints            Do not print suggested fixes\n"

def refusal (message : Text) : Text := usage ++ "lmc: error: " ++ message ++ "\n"

end Command

end LittleMan
