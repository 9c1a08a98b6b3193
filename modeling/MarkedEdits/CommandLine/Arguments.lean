import MarkedEdits.Text.Search

/-!
# Arguments

The arguments name a command and its settings. A setting has a long name after two dashes and may
have a letter after one dash, letters may be joined, and a value follows as the next argument or is
attached, after an equals sign where one is needed. Each setting is given at most once, and there
are no arguments besides the command and settings.
-/

namespace MarkedEdits

namespace CommandLine

/-- What there is to do. -/
inductive Verb where
  | apply
  | revert
  | check
  | list
  deriving DecidableEq, Repr

/-- What the arguments may set. -/
inductive Setting where
  | verbose
  | help
  | version
  | root
  | patches
  | targetVersion
  | dryRun
  | diff
  | json
  deriving DecidableEq, Repr

/-- The name of the command. -/
def Verb.name : Verb → String
  | apply => "apply"
  | revert => "revert"
  | check => "check"
  | list => "list"

/-- All commands. -/
def Verb.all : List Verb := [.apply, .revert, .check, .list]

/-- The settings of the command. -/
def Verb.settings : Verb → List Setting
  | apply => [.verbose, .help, .root, .patches, .targetVersion, .dryRun, .diff]
  | revert => [.verbose, .help, .root, .patches, .dryRun]
  | check => [.verbose, .help, .root, .patches, .targetVersion, .json]
  | list => [.verbose, .help, .root, .patches]

/-- The settings that are given before a command. -/
def generalSettings : List Setting := [.verbose, .help, .version]

namespace Setting

/-- The name after two dashes. -/
def name : Setting → String
  | verbose => "verbose"
  | help => "help"
  | version => "version"
  | root => "root"
  | patches => "patches"
  | targetVersion => "target-version"
  | dryRun => "dry-run"
  | diff => "diff"
  | json => "json"

/-- The letter after one dash. -/
def letter? : Setting → Option Char
  | verbose => some 'v'
  | help => some 'h'
  | version => some 'V'
  | root => some 'r'
  | patches => some 'p'
  | targetVersion => some 't'
  | dryRun => some 'n'
  | diff => some 'd'
  | json => none

/-- The setting has a value. -/
def hasValue : Setting → Bool
  | root | patches | targetVersion => true
  | verbose | help | version | dryRun | diff | json => false

/-- The setting may have this value. Paths are not empty. -/
def allows (setting : Setting) (value : Text) : Bool :=
  match setting with
  | root | patches => value ≠ []
  | _ => true

end Setting

/-- Why arguments are refused. -/
inductive Refusal where
  | unexpected (argument : Text)
  | repeated (setting : Setting)
  | valueMissing (setting : Setting)
  | valueUnwanted (setting : Setting)
  | noCommand
  deriving DecidableEq, Repr

/-- The refusal in words. -/
def Refusal.message : Refusal → String
  | unexpected argument => s!"unexpected argument '{String.ofList argument}'"
  | repeated setting => s!"--{setting.name} is given more than once"
  | valueMissing setting => s!"--{setting.name} needs a value"
  | valueUnwanted setting => s!"--{setting.name} takes no value"
  | noCommand => "a command is needed"

/-- What ends the reading of arguments before their end. -/
inductive Stop where
  | version
  | help
  | refused (reason : Refusal)
  deriving DecidableEq, Repr

/-- How an argument looks. -/
inductive Shape where
  | separator
  | long (name : Text) (value : Option Text)
  | letters (letters : Text)
  | word
  deriving DecidableEq, Repr

/-- The shape of the argument. A single dash is a word. -/
def shape : Text → Shape
  | ['-', '-'] => .separator
  | '-' :: '-' :: rest =>
      match Text.splitFirst? ['='] rest with
      | some (name, value) => .long name (some value)
      | none => .long rest none
  | '-' :: c :: rest => .letters (c :: rest)
  | _ => .word

/-- The settings given so far with their values, the setting that waits for its value, and whether
a separator has ended the settings. -/
structure Reading where
  given : List (Setting × Text) := []
  awaited : Option Setting := none
  ended : Bool := false
  deriving DecidableEq, Repr

namespace Reading

/-- The reading with one more setting. Settings that ask for information take effect at once. -/
def give (reading : Reading) (setting : Setting) (value : Text) : Except Stop Reading :=
  match setting with
  | .version => .error .version
  | .help => .error .help
  | _ =>
      if (reading.given.lookup setting).isSome then .error (.refused (.repeated setting))
      else if setting.allows value then
        .ok { reading with given := reading.given ++ [(setting, value)], awaited := none }
      else .error (.refused (.valueMissing setting))

/-- Reads letters after a dash. What follows the letter of a setting with a value is its value. -/
def letters (allowed : List Setting) (reading : Reading) : Text → Except Stop Reading
  | [] => .ok reading
  | c :: rest =>
      match allowed.find? (·.letter? = some c) with
      | none => .error (.refused (.unexpected ['-', c]))
      | some setting =>
          if setting.hasValue then
            match rest with
            | [] => .ok { reading with awaited := some setting }
            | '=' :: value => reading.give setting value
            | value => reading.give setting value
          else do letters allowed (← reading.give setting []) rest

/-- Reads an argument with a name after two dashes. -/
def long (allowed : List Setting) (reading : Reading) (name : Text) (value : Option Text) :
    Except Stop Reading :=
  match allowed.find? (·.name.toList = name), value with
  | none, _ => .error (.refused (.unexpected ('-' :: '-' :: name)))
  | some setting, none =>
      if setting.hasValue then .ok { reading with awaited := some setting }
      else reading.give setting []
  | some setting, some value =>
      if setting.hasValue then reading.give setting value
      else .error (.refused (.valueUnwanted setting))

/-- Reads one of the arguments after the command. -/
def next (allowed : List Setting) (reading : Reading) (argument : Text) : Except Stop Reading :=
  match reading.awaited, shape argument with
  | some setting, .word => reading.give setting argument
  | some setting, _ => .error (.refused (.valueMissing setting))
  | none, shape =>
      if reading.ended then .error (.refused (.unexpected argument))
      else
        match shape with
        | .separator => .ok { reading with ended := true }
        | .long name value => reading.long allowed name value
        | .letters letters => reading.letters allowed letters
        | .word => .error (.refused (.unexpected argument))

end Reading

/-- A command with its settings. -/
structure Request where
  verb : Verb
  given : List (Setting × Text)
  deriving DecidableEq, Repr

namespace Request

/-- The value of the setting, if it is given. -/
def get? (request : Request) (setting : Setting) : Option Text :=
  request.given.lookup setting

/-- The setting is given. -/
def has (request : Request) (setting : Setting) : Bool :=
  (request.get? setting).isSome

/-- The command with the settings that the arguments after it give. -/
def ofSettings (verb : Verb) (arguments : List Text) : Except Stop Request := do
  let reading ← arguments.foldlM (Reading.next verb.settings) {}
  match reading.awaited with
  | some setting => .error (.refused (.valueMissing setting))
  | none => .ok ⟨verb, reading.given⟩

/-- What becomes of a request for help on the topics, of which there may be one: a command or the
request for help itself. -/
def helpOn : List Text → Stop
  | [] => .help
  | [topic] =>
      if topic ∈ Setting.help.name.toList :: Verb.all.map (·.name.toList) then .help
      else .refused (.unexpected topic)
  | _ :: topic :: _ => .refused (.unexpected topic)

/-- The request that the arguments make, after some of the settings that come first. -/
def ofReading (reading : Reading) : List Text → Except Stop Request
  | [] => .error (.refused .noCommand)
  | argument :: rest =>
      match shape argument with
      | .word =>
          match Verb.all.find? (·.name.toList = argument) with
          | some verb => ofSettings verb rest
          | none =>
              if argument = Setting.help.name.toList then .error (helpOn rest)
              else .error (.refused (.unexpected argument))
      | .separator => .error (.refused (.unexpected argument))
      | .long name value => do ofReading (← reading.long generalSettings name value) rest
      | .letters letters => do ofReading (← reading.letters generalSettings letters) rest

/-- The request that the arguments make. -/
def ofArguments (arguments : List Text) : Except Stop Request :=
  ofReading {} arguments

end Request

end CommandLine

end MarkedEdits
