import WorktreeTracker.Path

/-!
# The command line

Flags, options and positional arguments of the program and its two commands. Options of the program
are also understood after the name of a command, where they take precedence. An argument is read
when the next one starts, so the first error met in that order is the one reported.
-/

namespace WorktreeTracker

/-! ## Commands -/

/-- The branches that are listed. -/
inductive BranchScope where
  /-- Local branches. -/
  | locals
  /-- Remote-tracking branches. -/
  | tracked
  /-- Branches of both kinds. -/
  | all
deriving DecidableEq, Repr

namespace BranchScope

/-- The scope that two flags choose. -/
def ofFlags (remote all : Bool) : BranchScope :=
  if all then .all else if remote then .tracked else .locals

/-- Whether local branches are listed. -/
def includesLocals : BranchScope → Bool
  | .locals => true
  | .tracked => false
  | .all => true

/-- Whether remote-tracking branches are listed. -/
def includesTracked : BranchScope → Bool
  | .locals => false
  | .tracked => true
  | .all => true

end BranchScope

/-- How much the program prints. -/
inductive Verbosity where
  /-- Errors only. -/
  | quiet
  /-- Reports. -/
  | normal
  /-- Reports and everything that happens. -/
  | debug
deriving DecidableEq, Repr

/-- The verbosity that two flags choose; the quiet one wins. -/
def Verbosity.ofFlags (quiet debug : Bool) : Verbosity :=
  if quiet then .quiet else if debug then .debug else .normal

/-- What the program is asked to do. -/
inductive Command where
  /-- Report on roots. -/
  | status (paths : List Path) (json : Bool)
  /-- List the branches of a root. -/
  | branches (path : Option Path) (remote all json : Bool)
deriving DecidableEq, Repr

/-- A parsed command line. -/
structure Invocation where
  /-- The directory to run in. -/
  cwd : Option Path
  /-- Whether everything that happens is printed. -/
  debug : Bool
  /-- Whether reports are left out. -/
  quiet : Bool
  /-- The backend to read with. -/
  backend : Option String
  /-- The file with the settings of the user. -/
  config : Option Path
  /-- The command. -/
  command : Command
deriving DecidableEq, Repr

/-- Why a command line is not run. -/
inductive UsageError where
  /-- A value is missing or not acceptable. -/
  | invalidValue
  /-- An argument is not known. -/
  | unknownArgument
  /-- A command is not known. -/
  | invalidSubcommand
  /-- A flag has a value. -/
  | tooManyValues
  /-- Two arguments exclude each other. -/
  | argumentConflict
  /-- There is no command. -/
  | missingSubcommand
  /-- The help text is asked for. -/
  | displayHelp
  /-- There is nothing on the command line. -/
  | displayHelpOnMissing
  /-- The version is asked for. -/
  | displayVersion
deriving DecidableEq, Repr

/-- The name of an error. -/
def UsageError.name : UsageError → String
  | .invalidValue => "InvalidValue"
  | .unknownArgument => "UnknownArgument"
  | .invalidSubcommand => "InvalidSubcommand"
  | .tooManyValues => "TooManyValues"
  | .argumentConflict => "ArgumentConflict"
  | .missingSubcommand => "MissingSubcommand"
  | .displayHelp => "DisplayHelp"
  | .displayHelpOnMissing => "DisplayHelpOnMissingArgumentOrSubcommand"
  | .displayVersion => "DisplayVersion"

namespace CommandLine

/-! ## Arguments -/

/-- The arguments of the program and of its commands. -/
inductive Argument where
  /-- The directory to run in. -/
  | cwd
  /-- The flag for printing everything. -/
  | debug
  /-- The flag for printing no report. -/
  | quiet
  /-- The backend to read with. -/
  | backend
  /-- The file with the settings of the user. -/
  | config
  /-- The flag for the help text. -/
  | help
  /-- The flag for the version. -/
  | version
  /-- The flag for JSON. -/
  | json
  /-- The roots to report on. -/
  | paths
  /-- The root to list the branches of. -/
  | path
  /-- The flag for remote-tracking branches. -/
  | remote
  /-- The flag for branches of both kinds. -/
  | all
deriving DecidableEq, Repr

namespace Argument

/-- Whether an argument has a value. -/
def takesValue : Argument → Bool
  | .cwd => true
  | .backend => true
  | .config => true
  | .paths => true
  | .path => true
  | _ => false

/-- Whether the value of an argument is a path, which must not be empty. -/
def isPath : Argument → Bool
  | .cwd => true
  | .config => true
  | .paths => true
  | .path => true
  | _ => false

/-- Whether an argument may be given more than once. -/
def isRepeatable (a : Argument) : Bool := a = .paths

end Argument

/-- What may stand on one level of a command line. -/
structure Level where
  /-- The long names. -/
  longs : List (String × Argument)
  /-- The short names. -/
  shorts : List (Char × Argument)
  /-- The positional argument. -/
  positional : Option Argument
  /-- Whether commands are expected. -/
  hasCommands : Bool

/-- The long names that every level understands. -/
def commonLongs : List (String × Argument) :=
  [("cwd", .cwd), ("debug", .debug), ("quiet", .quiet), ("backend", .backend), ("config", .config),
    ("help", .help)]

/-- The short names that every level understands. -/
def commonShorts : List (Char × Argument) := [('q', .quiet), ('h', .help)]

/-- The level before a command. -/
def programLevel : Level :=
  ⟨commonLongs ++ [("version", .version)], commonShorts ++ [('V', .version)], none, true⟩

/-- The level of the command that reports on roots. -/
def statusLevel : Level :=
  ⟨commonLongs ++ [("json", .json)], commonShorts, some .paths, false⟩

/-- The level of the command that lists branches. -/
def branchesLevel : Level :=
  ⟨commonLongs ++ [("json", .json), ("remote", .remote), ("all", .all)],
    commonShorts ++ [('r', .remote), ('a', .all)], some .path, false⟩

/-- The levels of the commands by name. -/
def commands : List (String × Level) :=
  [("status", statusLevel), ("branches", branchesLevel)]

/-- The name of the command that shows help texts. -/
def helpCommand : String := "help"

/-- Whether a text is the name of a command. -/
def isCommand (name : String) : Bool :=
  name = helpCommand || (commands.lookup name).isSome

/-! ## Reading arguments -/

/-- What has been read of a level. -/
structure Progress where
  /-- The arguments with their values, a flag with none. -/
  found : List (Argument × List String)
  /-- The argument whose values are being collected. -/
  pending : Option (Argument × List String)
  /-- Whether the next text is the value of the pending argument. -/
  awaiting : Bool
  /-- Whether the single positional argument was read. -/
  positionalDone : Bool
  /-- Whether everything that follows is positional. -/
  trailing : Bool

/-- Nothing read. -/
def Progress.start : Progress := ⟨[], none, false, false, false⟩

/-- Takes an argument with its values in. -/
def accept (p : Progress) (a : Argument) (values : List String) : Except UsageError Progress :=
  if a = .help then .error .displayHelp
  else if a = .version then .error .displayVersion
  else if a.takesValue && values.isEmpty then .error .invalidValue
  else if !a.isRepeatable && (p.found.lookup a).isSome then .error .argumentConflict
  else if a.isPath && values.contains "" then .error .invalidValue
  else .ok { p with found := p.found ++ [(a, values)] }

/-- Takes the pending argument in. -/
def settle (p : Progress) : Except UsageError Progress :=
  match p.pending with
  | none => .ok p
  | some (a, values) => accept { p with pending := none, awaiting := false } a values

/-- Reads a flag. -/
def readFlag (p : Progress) (a : Argument) : Except UsageError Progress := do
  accept (← settle p) a []

/-- Reads a long name with the value after an equals sign. -/
def readLong (level : Level) (p : Progress) (text : String) : Except UsageError Progress :=
  let (name, value) := match Text.cut? '=' text with
    | some (name, value) => (name, some value)
    | none => (text, none)
  match level.longs.lookup name, value with
  | none, _ => .error .unknownArgument
  | some a, some value =>
    if a.takesValue then do accept (← settle p) a [value] else .error .tooManyValues
  | some a, none =>
    if a.takesValue then do
      let p ← settle p
      return { p with pending := some (a, []), awaiting := true }
    else readFlag p a

/-- Reads flags by their short names. -/
def readShorts (level : Level) (p : Progress) : List Char → Except UsageError Progress
  | [] => .ok p
  | c :: rest =>
    match level.shorts.lookup c with
    | some a => do readShorts level (← readFlag p a) rest
    | none => .error .unknownArgument

/-- Reads a positional argument. -/
def readPositional (level : Level) (p : Progress) (text : String) : Except UsageError Progress :=
  match level.positional with
  | none =>
    if p.trailing && isCommand text then .error .unknownArgument else .error .invalidSubcommand
  | some a =>
    if p.positionalDone then .error .unknownArgument
    else do
      let collected := p.pending.filter fun e => e.1 = a
      match collected with
      | some (_, values) =>
        return { p with pending := some (a, values ++ [text]) }
      | none =>
        let p ← settle p
        return { p with pending := some (a, [text]), positionalDone := !a.isRepeatable }

/-- Reads one text of a level, the value of an option included. -/
def readText (level : Level) (p : Progress) (text : String) : Except UsageError Progress :=
  if p.trailing then readPositional level { p with awaiting := false } text
  else if text = "--" then .ok { p with trailing := true }
  else match Text.after? "--" text with
    | some long => readLong level p long
    | none =>
      match text.toList with
      | '-' :: c :: rest => readShorts level p (c :: rest)
      | _ =>
        match p.awaiting, p.pending with
        | true, some (a, values) =>
          .ok { p with pending := some (a, values ++ [text]), awaiting := false }
        | _, _ => readPositional level p text

/-- Reads the texts of a level up to the name of a command, which is returned with what follows. -/
def readLevel (level : Level) (p : Progress) :
    List String → Except UsageError (Progress × Option (String × List String))
  | [] => .ok (p, none)
  | text :: rest =>
    if level.hasCommands && !p.trailing && !p.awaiting && isCommand text then
      .ok (p, some (text, rest))
    else do readLevel level (← readText level p text) rest

/-! ## Commands -/

/-- Whether a flag was given. -/
def Progress.has (p : Progress) (a : Argument) : Bool := (p.found.lookup a).isSome

/-- The value that was given for an option. -/
def Progress.value? (p : Progress) (a : Argument) : Option String :=
  (p.found.lookup a).bind List.head?

/-- The values that were given for a positional argument. -/
def Progress.values (p : Progress) (a : Argument) : List String :=
  (p.found.filter fun e => e.1 = a).flatMap Prod.snd

/-- Shows the help text of the named command. -/
def readHelp : List String → UsageError
  | [] => .displayHelp
  | [name] => if isCommand name then .displayHelp else .invalidSubcommand
  | _ => .invalidSubcommand

/-- Reads the arguments of a command. -/
def readCommand (name : String) (texts : List String) : Except UsageError Progress :=
  match commands.lookup name with
  | none => .error (readHelp texts)
  | some level => do
    let (p, _) ← readLevel level .start texts
    let p ← settle p
    if p.has .remote && p.has .all then throw .argumentConflict
    return p

/-- The command that was read. -/
def commandOf (name : String) (p : Progress) : Command :=
  if name = "status" then .status ((p.values .paths).map Path.mk) (p.has .json)
  else .branches ((p.value? .path).map Path.mk) (p.has .remote) (p.has .all) (p.has .json)

/-- Parses the texts after the name of the program. -/
def parse (texts : List String) : Except UsageError Invocation := do
  let (program, command) ← readLevel programLevel .start texts
  match command with
  | none =>
    let program ← settle program
    if program.found.isEmpty then throw .displayHelpOnMissing else throw .missingSubcommand
  | some (name, rest) =>
    let inner ← readCommand name rest
    let outer ← settle program
    let value? (a : Argument) : Option String := (inner.value? a).or (outer.value? a)
    return {
      cwd := (value? .cwd).map Path.mk
      debug := inner.has .debug || outer.has .debug
      quiet := inner.has .quiet || outer.has .quiet
      backend := value? .backend
      config := (value? .config).map Path.mk
      command := commandOf name inner }

end CommandLine

end WorktreeTracker
