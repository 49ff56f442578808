import AbiSig.CommandLine.Options
import AbiSig.LogSettings

/-!
# Invocations

`Invocation.ofArguments` reads a whole command line. The arguments are read from left to right, and the
first one that asks for help or for the version, or that is wrong, decides; whether something is
missing is asked at the end.

* An option without an attached value takes the next argument, if that can be a value.
* An option is given at most once in each scope; a logging option may be given in both.
* In `sig`, everything from the first text on belongs to the declaration.
-/

namespace AbiSig.CommandLine

/-- What is wrong with a command line. -/
inductive UsageFault where
  | unexpected (arg : String)
  | repeated (opt : Opt)
  | missingValue (opt : Opt)
  | needlessValue (opt : Opt)
  | missingOption (opt : Opt)
  | missingDeclaration
  | missingCommand
deriving Repr, DecidableEq

/-- The wording of the fault. -/
def UsageFault.message : UsageFault → String
  | unexpected arg => s!"unexpected argument '{arg}'"
  | repeated opt => s!"the option --{opt.long} is given more than once"
  | missingValue opt => s!"the option --{opt.long} needs a value"
  | needlessValue opt => s!"the option --{opt.long} takes no value"
  | missingOption opt => s!"the option --{opt.long} is missing"
  | missingDeclaration => "the declaration is missing"
  | missingCommand => "the command is missing"

/-- Why the reading of a command line ends before its last argument. -/
inductive Stop where
  | help
  | version
  | usage (fault : UsageFault)
deriving Repr, DecidableEq

/-! ## One scope -/

/-- The options given in a scope so far, and the one that waits for its value. -/
structure Given where
  values : List (Opt × String) := []
  pending? : Option Opt := none
deriving Repr, DecidableEq

namespace Given

/-- Whether the option is given. -/
def has (g : Given) (opt : Opt) : Bool :=
  g.values.any fun (o, _) => o == opt

/-- The value of the option, if it is given. -/
def value? (g : Given) (opt : Opt) : Option String :=
  (g.values.find? fun (o, _) => o == opt).map (·.2)

/-- Gives the option its value. -/
def give (g : Given) (opt : Opt) (value : String) : Given :=
  { values := g.values ++ [(opt, value)], pending? := none }

/-- Takes in an option as it is written. -/
def add (g : Given) (s : Setting) : Except Stop Given :=
  match g.pending? with
  | some opt => .error (.usage (.missingValue opt))
  | none =>
    if g.has s.opt then .error (.usage (.repeated s.opt))
    else
      match s.opt.takesValue, s.value? with
      | true, some value => .ok (g.give s.opt value)
      | true, none => .ok { g with pending? := some s.opt }
      | false, some _ => .error (.usage (.needlessValue s.opt))
      | false, none =>
        match s.opt with
        | .help => .error .help
        | .version => .error .version
        | opt => .ok (g.give opt "")

end Given

/-- What a scope leaves: its options, and the arguments from the first text on. The separator `--`
ends the options as well and is not kept. -/
structure Remainder where
  given : Given
  separated : Bool
  rest : List String
deriving Repr, DecidableEq

/-- Reads the options of a scope. -/
def readScope (scope : Scope) (g : Given) : List String → Except Stop Remainder
  | [] =>
    match g.pending? with
    | some opt => .error (.usage (.missingValue opt))
    | none => .ok { given := g, separated := false, rest := [] }
  | arg :: args =>
    match scope.read arg with
    | .plain text =>
      match g.pending? with
      | some opt => readScope scope (g.give opt text) args
      | none => .ok { given := g, separated := false, rest := arg :: args }
    | .separator =>
      match g.pending? with
      | some opt => .error (.usage (.missingValue opt))
      | none => .ok { given := g, separated := true, rest := args }
    | .options settings unknown => do
      let g ← settings.foldlM Given.add g
      if unknown then .error (.usage (.unexpected arg)) else readScope scope g args

/-! ## Whole command lines -/

/-- A command with what it works on. -/
inductive Command where
  /-- Canonicalizes the declaration made of the words. -/
  | sig (words : List String) (json : Bool)
  /-- Canonicalizes the listing in the file. -/
  | batch (file : String) (json : Bool)
  /-- Looks up a selector or a digest among the listing in the file. -/
  | lookup (selector file : String) (json : Bool)
deriving Repr, DecidableEq

/-- A command and the log settings under which it runs. -/
structure Invocation where
  log : LogSettings
  command : Command
deriving Repr, DecidableEq

/-- The value of an option that must be given. -/
def Given.required (g : Given) (opt : Opt) : Except Stop String :=
  match g.value? opt with
  | some value => .ok value
  | none => .error (.usage (.missingOption opt))

/-- A command that takes no text of its own leaves no argument over. -/
def Remainder.checkEmpty (r : Remainder) : Except Stop Unit :=
  match r.rest with
  | [] => .ok ()
  | arg :: _ => .error (.usage (.unexpected arg))

/-- The command of the given name, from what its scope leaves. -/
def Command.ofRemainder (name : CommandName) (r : Remainder) : Except Stop Command := do
  let json := r.given.has .json
  match name with
  | .sig =>
    if r.rest.isEmpty then .error (.usage .missingDeclaration) else .ok (.sig r.rest json)
  | .batch =>
    r.checkEmpty
    return .batch (← r.given.required .file) json
  | .lookup =>
    r.checkEmpty
    return .lookup (← r.given.required .selector) (← r.given.required .file) json

/-- The log settings that two scopes give; the inner one has the last word on the level. -/
def logSettings (outer inner : Given) : LogSettings where
  level := some (((inner.value? .logLevel).or (outer.value? .logLevel)).getD "warn")
  verbose := outer.has .verbose || inner.has .verbose
  json := outer.has .logJson || inner.has .logJson

/-- The arguments behind the word `help` name at most one command. -/
def checkHelp : List String → Except Stop Invocation
  | [] => .error .help
  | [word] =>
    if (CommandName.ofWord? word).isSome || word == "help" then .error .help
    else .error (.usage (.unexpected word))
  | _ :: arg :: _ => .error (.usage (.unexpected arg))

/-- The invocation that the arguments of the program write. -/
def Invocation.ofArguments (args : List String) : Except Stop Invocation := do
  let outer ← readScope .program {} args
  match outer.rest with
  | [] => .error (.usage .missingCommand)
  | word :: args =>
    if outer.separated then .error (.usage (.unexpected word))
    else if word = "help" then checkHelp args
    else
      match CommandName.ofWord? word with
      | none => .error (.usage (.unexpected word))
      | some name =>
        let inner ← readScope (.command name) {} args
        let command ← Command.ofRemainder name inner
        return { log := logSettings outer.given inner.given, command }

end AbiSig.CommandLine
