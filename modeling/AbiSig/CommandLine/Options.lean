/-!
# The options of the command line

The program and each of its commands is a `Scope` with options of its own; the options for logging
and for help belong to every scope. An `Opt` is written long (`--file`) or, if it has one, short
(`-f`); `Scope.read` tells what a single argument means in a scope.
-/

namespace AbiSig.CommandLine

/-- What the program can be asked to do. -/
inductive CommandName where
  | sig
  | batch
  | lookup
deriving Repr, DecidableEq

/-- The word that names the command. -/
def CommandName.word : CommandName → String
  | sig => "sig"
  | batch => "batch"
  | lookup => "lookup"

/-- All commands. -/
def CommandName.all : List CommandName :=
  [sig, batch, lookup]

/-- The command that a word names. -/
def CommandName.ofWord? (word : String) : Option CommandName :=
  all.find? fun name => name.word == word

/-- Where an argument stands: before the name of the command, or behind it. -/
inductive Scope where
  | program
  | command (name : CommandName)
deriving Repr, DecidableEq

/-! ## Options -/

/-- The options. -/
inductive Opt where
  | help
  | version
  | verbose
  | logLevel
  | logJson
  | json
  | file
  | selector
deriving Repr, DecidableEq

namespace Opt

/-- The long name, without its dashes. -/
def long : Opt → String
  | help => "help"
  | version => "version"
  | verbose => "verbose"
  | logLevel => "log-level"
  | logJson => "log-json"
  | json => "json"
  | file => "file"
  | selector => "selector"

/-- The letter of the short form, if there is one. -/
def short? : Opt → Option Char
  | help => some 'h'
  | version => some 'V'
  | verbose => some 'v'
  | file => some 'f'
  | selector => some 's'
  | logLevel | logJson | json => none

/-- Whether the option has a value; the others are switches. -/
def takesValue : Opt → Bool
  | logLevel | file | selector => true
  | help | version | verbose | logJson | json => false

/-- The options of every scope. -/
def shared : List Opt :=
  [help, verbose, logLevel, logJson]

end Opt

namespace Scope

/-- The options of the scope. -/
def options : Scope → List Opt
  | program => .version :: Opt.shared
  | command .sig => .json :: Opt.shared
  | command .batch => .file :: .json :: Opt.shared
  | command .lookup => .selector :: .file :: .json :: Opt.shared

/-- Whether an argument that begins with a dash and is no option of the scope is plain text there:
declarations may begin with anything. -/
def takesDashes : Scope → Bool
  | command .sig => true
  | _ => false

end Scope

/-! ## Single arguments -/

/-- An option as it is written, with its value if that is attached. -/
structure Setting where
  opt : Opt
  value? : Option String := none
deriving Repr, DecidableEq

/-- What a single argument means. -/
inductive Argument where
  /-- Text that is no option. -/
  | plain (text : String)
  /-- The argument `--`. -/
  | separator
  /-- Options, and whether something unknown follows them in the same argument. -/
  | options (settings : List Setting) (unknown : Bool)
deriving Repr, DecidableEq

/-- The value attached to a short option: all that follows it but one equals sign. -/
def attached? : List Char → Option String
  | [] => none
  | '=' :: value => some (String.ofList value)
  | value => some (String.ofList value)

/-- Reads the letters behind a single dash, up to the first unknown one. -/
def readShort (known : List Opt) : List Char → List Setting × Bool
  | [] => ([], false)
  | c :: cs =>
    match known.find? fun opt => opt.short? == some c with
    | none => ([], true)
    | some opt =>
      if opt.takesValue then ([{ opt, value? := attached? cs }], false)
      else
        let (settings, unknown) := readShort known cs
        ({ opt } :: settings, unknown)

/-- Reads what follows two dashes: a name, and a value behind an equals sign. -/
def readLong (known : List Opt) (cs : List Char) : List Setting × Bool :=
  let name := String.ofList (cs.takeWhile (· != '='))
  let value? := match cs.dropWhile (· != '=') with
    | [] => none
    | _ :: value => some (String.ofList value)
  match known.find? fun opt => opt.long == name with
  | none => ([], true)
  | some opt => ([{ opt, value? }], false)

/-- What the argument means in the scope. A scope that takes dashes reads an argument with anything
unknown in it as text. -/
def Scope.read (scope : Scope) (arg : String) : Argument :=
  let ofReading : List Setting × Bool → Argument := fun (settings, unknown) =>
    if unknown && scope.takesDashes then .plain arg else .options settings unknown
  match arg.toList with
  | ['-', '-'] => .separator
  | '-' :: '-' :: cs => ofReading (readLong scope.options cs)
  | '-' :: c :: cs => ofReading (readShort scope.options (c :: cs))
  | _ => .plain arg

end AbiSig.CommandLine
