import Multidrop.Cli.Action
import Multidrop.Cli.Number
import Multidrop.Text.Terminal

/-!
The command line: options, then a subcommand with its own arguments. An argument is looked at as
soon as it is known where it ends: the value of an option when the next option begins or the line is
over, and so after the subcommand with all its arguments; an argument of the subcommand when the
next one begins. Which of two faults is reported follows from that.
-/

namespace Multidrop.Cli

/-- Why a command line is not understood, or needs no bus. -/
inductive Stop where
  | nothing
  | help
  | version
  | missingSubcommand
  | unknownSubcommand (name : String)
  | unexpected (argument : String)
  | unexpectedValue (value flag : String)
  | missingArguments
  /-- An argument was given no value, or an empty one where that is none. -/
  | missingValue (argument : String)
  | repeated (argument : String)
  | invalid (value argument : String) (fault : NumberFault)
  deriving DecidableEq

/-- What the program is for. -/
def purpose : String := "talk to nodes on an LBUS bus"

/-- The text before its first line feed, and before a carriage return that belongs to it. -/
def firstLine : List Char → List Char
  | [] => []
  | '\n' :: _ => []
  | '\r' :: '\n' :: _ => []
  | char :: rest => char :: firstLine rest

/-- What the program says about the command line, on the first line if the command line holds no
line feeds. What it says again of the command line is stripped of escape sequences. -/
def Stop.text : Stop → String
  | nothing => purpose
  | help => purpose
  | version => "lbus 0.1.0"
  | missingSubcommand => "error: 'lbus-tool' requires a subcommand but one was not provided"
  | unknownSubcommand name => s!"error: unrecognized subcommand '{Terminal.strip name}'"
  | unexpected argument => s!"error: unexpected argument '{Terminal.strip argument}' found"
  | unexpectedValue value flag =>
    let value := Terminal.strip value
    s!"error: unexpected value '{value}' for '{flag}' found; no more were expected"
  | missingArguments => "error: the following required arguments were not provided:"
  | missingValue argument =>
    s!"error: a value is required for '{argument}' but none was supplied"
  | repeated argument => s!"error: the argument '{argument}' cannot be used multiple times"
  | invalid value argument fault =>
    s!"error: invalid value '{Terminal.strip value}' for '{argument}': {fault.message}"

/-- The first line of what the program says about the command line. -/
def Stop.message (stop : Stop) : String :=
  String.ofList (firstLine stop.text.toList)

/-- Whether the program did what it was asked to when it stops so. -/
def Stop.isSuccess : Stop → Bool
  | help | version => true
  | _ => false

/-- The value of an argument. -/
inductive Value where
  | number (value : Nat)
  | path (path : String)
  deriving DecidableEq

/-- What an argument of a subcommand holds. -/
inductive Place.Kind where
  | number (bits : Nat)
  | path
  deriving DecidableEq

/-- An argument of a subcommand. -/
structure Place where
  name : String
  kind : Place.Kind
  /-- Whether more than one value may be given. -/
  many : Bool := false
  deriving DecidableEq

namespace Place

def label (place : Place) : String :=
  if place.many then "<" ++ place.name ++ ">..." else "<" ++ place.name ++ ">"

def read (place : Place) (text : String) : Except Stop Value :=
  match place.kind with
  | .path => if text.isEmpty then .error (.missingValue place.label) else .ok (.path text)
  | .number bits =>
    match Cli.number bits text with
    | .ok value => .ok (.number value)
    | .error fault => .error (.invalid text place.label fault)

def node : Place := ⟨"NODE", .number 8, false⟩

end Place

/-- A subcommand: its name, its arguments, and what it makes of their values. -/
structure Subcommand where
  name : String
  places : List Place
  make : List Value → Option Action

namespace Subcommand

/-- The values of a list of numbers. -/
def numbers (values : List Value) : Option (List Nat) :=
  values.mapM fun
    | .number value => some value
    | .path _ => none

/-- A subcommand whose only argument is a node. -/
def onNode (name : String) (action : UInt8 → Action) : Subcommand where
  name
  places := [.node]
  make
    | [.number node] => some (action (UInt8.ofNat node))
    | _ => none

def all : List Subcommand := [
  { name := "echo"
    places := []
    make
      | [] => some .echo
      | _ => none },
  onNode "ping" .ping,
  onNode "status" .status,
  onNode "address" .address,
  onNode "firmware-version" .firmwareVersion,
  onNode "bootloader-version" .bootloaderVersion,
  onNode "firmware-name" .firmwareName,
  { name := "get-data"
    places := [.node, ⟨"QUERY", .number 16, false⟩, ⟨"SIZE", .number 16, false⟩]
    make
      | [.number node, .number query, .number size] =>
        some (.getData (UInt8.ofNat node) (UInt16.ofNat query) (UInt16.ofNat size))
      | _ => none },
  { name := "set-address"
    places := [.node, ⟨"ADDRESS", .number 8, false⟩]
    make
      | [.number node, .number address] =>
        some (.setAddress (UInt8.ofNat node) (UInt8.ofNat address))
      | _ => none },
  onNode "erase-config" .eraseConfig,
  onNode "reset-to-bootloader" .resetToBootloader,
  onNode "reset-to-firmware" .resetToFirmware,
  { name := "read-memory"
    places := [.node, ⟨"LOCATION", .number 32, false⟩, ⟨"LENGTH", .number 16, false⟩]
    make
      | [.number node, .number location, .number length] =>
        some (.readMemory (UInt8.ofNat node) (UInt32.ofNat location) (UInt16.ofNat length))
      | _ => none },
  { name := "led-set16"
    places := [.node, ⟨"LED", .number 16, false⟩, ⟨"VALUES", .number 16, true⟩]
    make
      | .number node :: .number led :: values =>
        (numbers values).map fun values =>
          .ledSet16 (UInt8.ofNat node) (UInt16.ofNat led) (values.map UInt16.ofNat)
      | _ => none },
  { name := "led-set8"
    places := [.node, ⟨"LED", .number 16, false⟩, ⟨"VALUES", .number 8, true⟩]
    make
      | .number node :: .number led :: values =>
        (numbers values).map fun values =>
          .ledSet8 (UInt8.ofNat node) (UInt16.ofNat led) (values.map UInt8.ofNat)
      | _ => none },
  onNode "led-commit" .ledCommit,
  { name := "flash"
    places := [.node, ⟨"FILE", .path, false⟩]
    make
      | [.number node, .path file] => some (.flash (UInt8.ofNat node) file)
      | _ => none }]

def find? (name : String) : Option Subcommand :=
  all.find? (·.name == name)

end Subcommand

/-- What an argument looks like. -/
inductive Shape where
  /-- Two dashes alone: what follows is taken as it stands. -/
  | escape
  | long (name : String) (value : Option String)
  /-- Letters behind one dash, of which the first is given. -/
  | short (letter : Char)
  | plain
  deriving DecidableEq

/-- The text before the first equals sign, and the text after it if there is one. -/
def splitValue : List Char → List Char × Option (List Char)
  | [] => ([], none)
  | '=' :: value => ([], some value)
  | char :: rest =>
    let (name, value) := splitValue rest
    (char :: name, value)

/-- What an argument looks like. A dash alone is plain. -/
def Shape.of (argument : String) : Shape :=
  match argument.toList with
  | ['-', '-'] => escape
  | '-' :: '-' :: rest =>
    let (name, value) := splitValue rest
    long (String.ofList name) (value.map String.ofList)
  | '-' :: letter :: _ => short letter
  | _ => plain

/-- The arguments of a subcommand as far as they were read. -/
structure Progress where
  values : List Value
  /-- The argument that goes on, with the texts given for it. -/
  pending : Option (Place × List String)
  places : List Place
  /-- Whether two dashes went by. -/
  escaped : Bool

namespace Progress

def resolve (progress : Progress) : Except Stop Progress :=
  match progress.pending with
  | none => .ok progress
  | some (place, texts) => do
    let values ← texts.mapM place.read
    pure { progress with values := progress.values ++ values, pending := none }

def take (progress : Progress) (text : String) : Except Stop Progress := do
  match progress.pending with
  | some (place, texts) =>
    if place.many then
      return { progress with pending := some (place, texts ++ [text]) }
  | none => pure ()
  match progress.places with
  | [] => throw (.unexpected text)
  | place :: places =>
    let progress ← progress.resolve
    pure { progress with pending := some (place, [text]), places }

def step (progress : Progress) (argument : String) : Except Stop Progress :=
  if progress.escaped then progress.take argument
  else
    match Shape.of argument with
    | .escape => .ok { progress with escaped := true }
    | .long "help" none | .short 'h' => do
      let _ ← progress.resolve
      throw .help
    | .long "help" (some value) => .error (.unexpectedValue value "--help")
    | .long name _ => .error (.unexpected ("--" ++ name))
    | .short letter => .error (.unexpected (String.ofList ['-', letter]))
    | .plain => progress.take argument

end Progress

/-- What a subcommand is asked to do by its arguments. -/
def Subcommand.parse (subcommand : Subcommand) (arguments : List String) : Except Stop Action := do
  let progress ← arguments.foldlM Progress.step ⟨[], none, subcommand.places, false⟩
  let progress ← progress.resolve
  if progress.places.isEmpty then
    match subcommand.make progress.values with
    | some action => pure action
    | none => throw .missingArguments
  else throw .missingArguments

/-- An option that takes a value. -/
inductive Setting where
  | serial
  | baud
  | timeout
  deriving DecidableEq

namespace Setting

def find? : String → Option Setting
  | "serial" => some serial
  | "baud" => some baud
  | "timeout" => some timeout
  | _ => none

def label : Setting → String
  | serial => "--serial <SERIAL>"
  | baud => "--baud <BAUD>"
  | timeout => "--timeout <TIMEOUT>"

end Setting

/-- The options as far as they were read. -/
structure Options where
  serial : Option String := none
  baud : Option Nat := none
  timeout : Option Nat := none
  /-- The option whose value is not read yet, and the value if it came already. -/
  pending : Option (Setting × Option String) := none
  deriving DecidableEq

namespace Options

/-- Whether an option was given and its value read. -/
def has (options : Options) : Setting → Bool
  | .serial => options.serial.isSome
  | .baud => options.baud.isSome
  | .timeout => options.timeout.isSome

/-- Whether any option was given and its value read. -/
def any (options : Options) : Bool :=
  options.has .serial || options.has .baud || options.has .timeout

/-- Reads the value of an option, which may be given once. -/
def read (options : Options) (setting : Setting) (text : String) : Except Stop Options :=
  if options.has setting then .error (.repeated setting.label)
  else
    match setting with
    | .serial =>
      if text.isEmpty then .error (.missingValue setting.label)
      else .ok { options with serial := some text }
    | .baud =>
      match decimalBelow UInt32.size text with
      | .ok value => .ok { options with baud := some value }
      | .error fault => .error (.invalid text setting.label fault)
    | .timeout =>
      match decimal text with
      | .ok value => .ok { options with timeout := some value }
      | .error fault => .error (.invalid text setting.label fault)

def resolve (options : Options) : Except Stop Options :=
  match options.pending with
  | none => .ok options
  | some (setting, none) => .error (.missingValue setting.label)
  | some (setting, some text) => { options with pending := none }.read setting text

/-- Whether the next argument is the value of an option unless it is an option itself. -/
def waits (options : Options) : Bool :=
  match options.pending with
  | some (_, none) => true
  | _ => false

/-- Takes the value of the option that waits for it. -/
def take (options : Options) (text : String) : Options :=
  { options with pending := options.pending.map fun (setting, _) => (setting, some text) }

def settings (options : Options) : Host.Settings :=
  let standard : Host.Settings := {}
  { standard with
    baudRate := options.baud.getD standard.baudRate
    timeout := options.timeout.getD standard.timeout }

/-- The end of a command line without a subcommand. -/
def finish (options : Options) : Except Stop Invocation := do
  let options ← options.resolve
  throw (if options.any then .missingSubcommand else .nothing)

/-- The arguments of a subcommand, after which the last option is read. -/
def enter (options : Options) (subcommand : Subcommand) (arguments : List String) :
    Except Stop Invocation := do
  let action ← subcommand.parse arguments
  let options ← options.resolve
  pure { serial := options.serial, settings := options.settings, action }

/-- What follows two dashes, where a subcommand is not understood any more. -/
def refuse (options : Options) : List String → Except Stop Invocation
  | [] => options.finish
  | argument :: _ =>
    if (Subcommand.find? argument).isSome ∨ argument = "help" then .error (.unexpected argument)
    else .error (.unknownSubcommand argument)

/-- What comes of asking for help on the subcommands named. None has subcommands of its own. -/
def help : List String → Stop
  | [] => .help
  | name :: rest =>
    if (Subcommand.find? name).isSome ∨ name = "help" then
      match rest with
      | [] => .help
      | other :: _ => .unknownSubcommand other
    else .unknownSubcommand name

/-- Reads the command line from its first option that was not read yet. -/
def parse (options : Options) : List String → Except Stop Invocation
  | [] => options.finish
  | argument :: rest =>
    match if options.waits then none else Subcommand.find? argument with
    | some subcommand => options.enter subcommand rest
    | none =>
      match Shape.of argument with
      | .escape => options.refuse rest
      | .long "help" none | .short 'h' => do
        let _ ← options.resolve
        throw .help
      | .long "version" none | .short 'V' => do
        let _ ← options.resolve
        throw .version
      | .long "help" (some value) => .error (.unexpectedValue value "--help")
      | .long "version" (some value) => .error (.unexpectedValue value "--version")
      | .long name value =>
        match Setting.find? name, value with
        | none, _ => .error (.unexpected ("--" ++ name))
        | some setting, none => do
          let options ← options.resolve
          parse { options with pending := some (setting, none) } rest
        | some setting, some value => do
          let options ← options.resolve
          parse (← options.read setting value) rest
      | .short letter => .error (.unexpected (String.ofList ['-', letter]))
      | .plain =>
        if options.waits then parse (options.take argument) rest
        else if argument = "help" then .error (help rest)
        else .error (.unknownSubcommand argument)

end Options

/-- What a command line asks for. -/
def parse (arguments : List String) : Except Stop Invocation :=
  ({} : Options).parse arguments

end Multidrop.Cli
