import AbiSig.CommandLine.Report

/-!
# The program

`program` turns the arguments into a finished report, or into a request for one text together with
the report that depends on it. Whoever runs the program reads the text and writes the report; all
else is decided here.
-/

namespace AbiSig.CommandLine

/-! ## Sources -/

/-- Where a listing comes from. -/
inductive Source where
  | standardInput
  | file (path : String)
deriving Repr, DecidableEq

namespace Source

/-- A single dash stands for the standard input. -/
def ofPath (path : String) : Source :=
  if path = "-" then .standardInput else .file path

/-- The source as messages name it. -/
def name : Source → String
  | standardInput => "stdin"
  | file path => path

end Source

/-- Why a source cannot be read. -/
inductive ReadFault where
  | missing
  | denied
  | notDirectory
  | isDirectory
  | nameTooLong
  | notText
  | other (description : String)
deriving Repr, DecidableEq

/-- The wording of the fault, with the number under which systems report it. -/
def ReadFault.message : ReadFault → String
  | missing => "No such file or directory (os error 2)"
  | denied => "Permission denied (os error 13)"
  | notDirectory => "Not a directory (os error 20)"
  | isDirectory => "Is a directory (os error 21)"
  | nameTooLong => "File name too long (os error 36)"
  | notText => "stream did not contain valid UTF-8"
  | other description => description

/-- The text that the bytes encode. -/
def decodeText (bytes : ByteArray) : Except ReadFault String :=
  match String.fromUTF8? bytes with
  | some text => .ok text
  | none => .error .notText

/-! ## Runs -/

/-- A finished run, or one that waits for the bytes of a source. -/
inductive Program where
  | finished (report : Report)
  | reading (source : Source) (resume : Except ReadFault ByteArray → Report)

/-- Reads the listing at a path and goes on with its text. -/
def Program.onListing (path : String) (report : String → Report) : Program :=
  let source := Source.ofPath path
  .reading source fun bytes =>
    match bytes.bind decodeText with
    | .ok text => report text
    | .error fault => .failure s!"failed to read {source.name}" fault.message

/-- The run of a command. -/
def Command.program : Command → Program
  | sig words json => .finished (reportSig (" ".intercalate words) json)
  | batch file json => .onListing file fun listing => reportBatch listing json
  | lookup selector file json =>
    .onListing file fun listing => reportLookup selector file listing json

/-! ## Help -/

/-- The text of `--version`. -/
def versionText : String :=
  unlines ["chainsig 0.1.0"]

/-- The text of `--help`. -/
def helpText : String :=
  unlines
    ["Canonical signatures, digests and selectors of contract interfaces",
     "",
     "Usage: chainsig [OPTIONS] <COMMAND>",
     "",
     "Commands:",
     "  sig     Show the signature of one declaration; its words are joined by spaces",
     "  batch   Show the signature of every declaration in a listing",
     "  lookup  Find the declarations of a listing with a given selector or topic",
     "",
     "Options of sig, batch and lookup:",
     "      --json                 Write JSON",
     "",
     "Options of batch and lookup:",
     "  -f, --file <FILE>          The listing, one declaration per line (- is the standard input)",
     "",
     "Options of lookup:",
     "  -s, --selector <SELECTOR>  A selector of 4 bytes or a topic of 32 bytes, in hexadecimal",
     "",
     "Options of the program and of every command:",
     "  -v, --verbose              Log everything about this program",
     "      --log-level <LEVEL>    The level of the log",
     "      --log-json             Write the log as JSON",
     "  -h, --help                 Show this help",
     "  -V, --version              Show the version (not behind a command)"]

/-- The report on a command line that starts no command. -/
def Stop.report : Stop → Report
  | help => { output := helpText }
  | version => { output := versionText }
  | usage fault =>
    { status := 2
      errors := unlines [s!"error: {fault.message}", "", "For more information, try --help."] }

/-- The run of the program with the given arguments. The log settings of the invocation are for
whoever keeps a log; no report depends on them. -/
def program (args : List String) : Program :=
  match Invocation.ofArguments args with
  | .error stop => .finished stop.report
  | .ok invocation => invocation.command.program

end AbiSig.CommandLine
