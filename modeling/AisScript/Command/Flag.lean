import AisScript.Command.Value

/-!
# Flags

What the command line can say besides the command and its files.  A flag is its name and how it
changes the settings; arguments are read from left to right, and flags may stand between other
arguments.

* `Settings`     everything that flags say
* `Flag`         a flag
* `readFlags`    the settings and the other arguments of a command line
-/

namespace AisScript.Command

/-- What the flags say. -/
structure Settings where
  color : Text := "auto"
  quiet : Bool := false
  timings : Bool := false
  maxDiagnostics : Int := 100
  /-- The format of diagnostics. -/
  diagnostics : Text := "short"
  /-- The file that a trace is written to. -/
  trace : Text := []
  traceLevel : Text := "off"
  traceMode : Text := "stream"
  traceFormat : Text := "auto"
  traceRingSize : Int := 4096
  heartbeat : Duration := .zero
  help : Bool := false
  showVersion : Bool := false
  outDir : Text := []
  jobs : Int := 0
  noCache : Bool := false
  /-- Whether generated text is printed. -/
  prints : Bool := false
  /-- How progress is shown. -/
  ui : Text := "auto"
  /-- The format of what a command prints. -/
  format : Text := "pretty"
  hash : Bool := false
  message : Bool := false
  date : Bool := false
  full : Bool := false

/-- How a flag changes the settings. -/
inductive Effect where
  | text (set : Settings → Text → Settings)
  | bool (set : Settings → Bool → Settings)
  | integer (set : Settings → Int → Settings)
  | duration (set : Settings → Duration → Settings)

/-- A flag. -/
structure Flag where
  name : Text
  /-- The letter that stands for it. -/
  letter : Option UInt8 := none
  effect : Effect

namespace Flag

/-- Whether the flag needs no value. -/
def isSwitch (f : Flag) : Bool :=
  match f.effect with
  | .bool _ => true
  | _ => false

/-- The flag as error messages name it. -/
def shown (f : Flag) : Text :=
  match f.letter with
  | some l => "-" ++ [l] ++ ", --" ++ f.name
  | none => "--" ++ f.name

/-- Flags of every command. -/
def shared : List Flag :=
  [{ name := "color", effect := .text fun s v => { s with color := v } },
    { name := "quiet", effect := .bool fun s v => { s with quiet := v } },
    { name := "timings", effect := .bool fun s v => { s with timings := v } },
    { name := "max-diagnostics", effect := .integer fun s v => { s with maxDiagnostics := v } },
    { name := "diagnostics", effect := .text fun s v => { s with diagnostics := v } },
    { name := "trace", effect := .text fun s v => { s with trace := v } },
    { name := "trace-level", effect := .text fun s v => { s with traceLevel := v } },
    { name := "trace-mode", effect := .text fun s v => { s with traceMode := v } },
    { name := "trace-format", effect := .text fun s v => { s with traceFormat := v } },
    { name := "trace-ring-size", effect := .integer fun s v => { s with traceRingSize := v } },
    { name := "trace-heartbeat", effect := .duration fun s v => { s with heartbeat := v } },
    { name := "cpuprofile", effect := .text fun s _ => s },
    { name := "memprofile", effect := .text fun s _ => s },
    { name := "runtime-trace", effect := .text fun s _ => s }]

/-- Asks for help. -/
def help : Flag := { name := "help", letter := some 0x68, effect := .bool fun s v => { s with help := v } }

/-- Asks for the version. -/
def version : Flag :=
  { name := "version", letter := some 0x76, effect := .bool fun s v => { s with showVersion := v } }

/-- The format of what a command prints. -/
def format : Flag := { name := "format", effect := .text fun s v => { s with format := v } }

/-- Leaves descriptions out of completions. -/
def undescribed : Flag := { name := "no-descriptions", effect := .bool fun s _ => s }

/-- Flags of builds. -/
def building : List Flag :=
  [{ name := "out-dir", effect := .text fun s v => { s with outDir := v } },
    { name := "jobs", effect := .integer fun s v => { s with jobs := v } },
    { name := "no-cache", effect := .bool fun s v => { s with noCache := v } },
    { name := "stdout", effect := .bool fun s v => { s with prints := v } },
    { name := "ui", effect := .text fun s v => { s with ui := v } }]

/-- Flags that say what to show of a version. -/
def versioning : List Flag :=
  [{ name := "hash", effect := .bool fun s v => { s with hash := v } },
    { name := "message", effect := .bool fun s v => { s with message := v } },
    { name := "date", effect := .bool fun s v => { s with date := v } },
    { name := "full", effect := .bool fun s v => { s with full := v } }, format]

end Flag

/-- Why a command line is refused. -/
inductive FlagError where
  | badForm (argument : Text)
  | unknown (name : Text)
  | unknownLetter (letter : UInt8) (letters : Text)
  | valueMissing (name : Text)
  | badValue (value : Text) (flag : Text) (cause : ValueError)
deriving DecidableEq, Repr

/-- The words of an error.  An unknown letter is shown as the first byte of its UTF-8 form. -/
def FlagError.message : FlagError → Text
  | .badForm a => "bad flag syntax: " ++ a
  | .unknown n => "unknown flag: --" ++ n
  | .unknownLetter l ls =>
    let shown := ((Text.encode l.toNat).headD 0).toNat
    "unknown shorthand flag: " ++ Text.quoteChar shown ++ " in -" ++ ls
  | .valueMissing n => "flag needs an argument: --" ++ n
  | .badValue v f cause => "invalid argument " ++ v.quote ++ " for " ++ f.quote ++ " flag: " ++ cause.message

/-- The settings after a flag was given a value. -/
def Flag.set (f : Flag) (s : Settings) (value : Text) : Except FlagError Settings :=
  let checked {α : Type} (read : Text → Except ValueError α) (store : Settings → α → Settings) :
      Except FlagError Settings :=
    match read value with
    | .ok v => .ok (store s v)
    | .error e => .error (.badValue value f.shown e)
  match f.effect with
  | .text store => .ok (store s value)
  | .bool store => checked bool store
  | .integer store => checked integer store
  | .duration store => checked duration store

/-- The value of a switch that is given without one. -/
def switchedOn : Text := "true"

/-- Reads the letters of an argument; all flags with letters are switches. -/
def readLetters (flags : List Flag) (s : Settings) : Text → Except FlagError Settings
  | [] => .ok s
  | l :: ls =>
    if ("test." : Text).isPrefixOf (l :: ls) then .ok s
    else match flags.find? (·.letter == some l) with
      | none => .error (.unknownLetter l (l :: ls))
      | some f =>
        match ls with
        | 0x3D :: v :: vs => f.set s (v :: vs)
        | ls => do readLetters flags (← f.set s switchedOn) ls

/-- Whether an argument is a flag: a dash with something behind it. -/
def isFlag (a : Text) : Bool := a.head? = some 0x2D && 1 < a.length

/-- The name of a long flag and the value behind an equals sign, if there is one. -/
def named (a : Text) : Text × Option Text :=
  let name := (a.drop 2).takeWhile (· ≠ 0x3D)
  match (a.drop 2).drop name.length with
  | _ :: v => (name, some v)
  | [] => (name, none)

/-- Reads arguments: the settings, and the arguments that are no flags.  Two dashes end the
flags. -/
def readFlags (flags : List Flag) (s : Settings) : List Text → Except FlagError (Settings × List Text)
  | [] => .ok (s, [])
  | a :: as =>
    if !isFlag a then do
      let (s, rest) ← readFlags flags s as
      return (s, a :: rest)
    else if a = ("--" : Text) then .ok (s, as)
    else if (a.drop 1).head? ≠ some 0x2D then do readFlags flags (← readLetters flags s (a.drop 1)) as
    else
      let (name, value) := named a
      if name.isEmpty || name.head? = some 0x2D then .error (.badForm a)
      else match flags.find? (·.name == name) with
        | none => .error (.unknown name)
        | some f =>
          match value with
          | some v => do readFlags flags (← f.set s v) as
          | none =>
            if f.isSwitch then do readFlags flags (← f.set s switchedOn) as
            else match as with
              | [] => .error (.valueMissing name)
              | v :: as => do readFlags flags (← f.set s v) as

end AisScript.Command
