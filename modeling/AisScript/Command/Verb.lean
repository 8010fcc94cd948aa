import AisScript.Text.Lower
import AisScript.Command.Flag

/-!
# Commands

The word that says what to do, and how it is found among the arguments: flags may stand in front
of it, and whether the argument behind a flag is its value depends on the flag.

* `Verb`          what can be asked for
* `resolve`       the command of a list of arguments, and what is left of them
* `suggestions`   the commands that a mistyped word may mean
-/

namespace AisScript.Command

/-- A shell that command lines can be completed in. -/
inductive Shell where
  | bash | fish | powershell | zsh
deriving DecidableEq, Repr, Inhabited

namespace Shell

/-- The name of a shell. -/
def name : Shell → Text
  | .bash => "bash"
  | .fish => "fish"
  | .powershell => "powershell"
  | .zsh => "zsh"

/-- The shell with a given name. -/
def ofName? (t : Text) : Option Shell := [bash, fish, powershell, zsh].find? (·.name == t)

end Shell

/-- What can be asked for. -/
inductive Verb where
  /-- No command. -/
  | none
  | build | tokenize | parse | check | version | help | completion
  /-- The completions for one shell. -/
  | script (shell : Shell)
deriving DecidableEq, Repr, Inhabited

namespace Verb

/-- The word of a command. -/
def name : Verb → Text
  | .none => "reduxc"
  | .build => "build"
  | .tokenize => "tokenize"
  | .parse => "parse"
  | .check => "check"
  | .version => "version"
  | .help => "help"
  | .completion => "completion"
  | .script shell => shell.name

/-- The words that lead to a command. -/
def path : Verb → Text
  | .none => none.name
  | .script shell => none.name ++ " " ++ completion.name ++ " " ++ shell.name
  | v => none.name ++ " " ++ v.name

/-- The commands that stand for themselves, in the order in which they are suggested. -/
def all : List Verb := [.build, .tokenize, .parse, .check, .version, .help, .completion]

/-- The command of a word. -/
def ofName? (t : Text) : Option Verb := all.find? (·.name == t)

/-- The flags of a command. -/
def flags : Verb → List Flag
  | .build => Flag.building ++ Flag.shared
  | .tokenize => Flag.format :: Flag.shared
  | .version => Flag.versioning ++ Flag.shared
  | .script _ => Flag.undescribed :: Flag.shared
  | _ => Flag.shared

/-- The flags of a command with those that ask for help or, without a command, for the version. -/
def allFlags (v : Verb) : List Flag :=
  v.flags ++ [Flag.help] ++ if v = .none then [Flag.version] else []

/-- The number of arguments that a command has to have. -/
def arity? : Verb → Option Nat
  | .tokenize | .parse | .check => some 1
  | .script _ => some 0
  | _ => Option.none

/-- Whether there is more to a command than its help. -/
def runs : Verb → Bool
  | .none | .completion => false
  | _ => true

end Verb

/-- The number of bytes to insert, to delete or to change on the way from one text to another. -/
def distance (s t : Text) : Nat :=
  (s.foldl (fun row a => nextRow a row t) (List.range (t.length + 1))).getLast?.getD 0
where
  /-- The distances from one byte more of the first text. -/
  nextRow (a : UInt8) (row : List Nat) (t : Text) : List Nat :=
    let first := (row.head?.getD 0) + 1
    first :: fill a first row t
  /-- The distances behind the first, given the one to the left. -/
  fill (a : UInt8) (left : Nat) : List Nat → Text → List Nat
    | corner :: above :: row, b :: t =>
      let here := if a = b then corner else 1 + min corner (min above left)
      here :: fill a here (above :: row) t
    | _, _ => []

/-- The commands that a word may mean: it begins them, or is at most two bytes away. -/
def suggestions (word : Text) : List Text :=
  let typed := word.toLower
  (Verb.all.filter fun v => v ≠ .help && (distance typed v.name ≤ 2 || typed.isPrefixOf v.name)).map Verb.name

/-- Whether the argument behind this one is its value, as far as can be told before the command is
known: letters and unknown flags count as if they had one. -/
def takesValue (a : Text) : Bool :=
  let long := ("--" : Text).isPrefixOf a
  !a.contains 0x3D && ((long && !(Flag.shared.any fun f => f.name == a.drop 2 && f.isSwitch))
    || (a.head? = some 0x2D && a.length = 2))

/-- The arguments that are neither flags nor their values. -/
def words : List Text → List Text
  | [] => []
  | a :: as =>
    if a = ("--" : Text) then []
    else if takesValue a then
      match as with
      | [] | [_] => []
      | _ :: as => words as
    else if !a.isEmpty && a.head? ≠ some 0x2D then a :: words as
    else words as

/-- The arguments without the first one that is a given word and no value of a flag. -/
def without (word : Text) : List Text → List Text
  | [] => []
  | a :: as =>
    if a = ("--" : Text) then a :: as
    else if takesValue a then
      match as with
      | [] => [a]
      | v :: as => a :: v :: without word as
    else if a = word then as
    else a :: without word as

/-- Why nothing is run. -/
inductive UsageError where
  | unknownCommand (word : Text)
  /-- A word behind a command that takes none. -/
  | unexpected (word : Text) (path : Text)
  | flag (cause : FlagError)
  | argumentCount (wanted given : Nat)
deriving DecidableEq, Repr

/-- The words of an error. -/
def UsageError.message : UsageError → Text
  | .unknownCommand w =>
    let guesses := suggestions w
    let row (g : Text) : Text := "\t" ++ g ++ "\n"
    "unknown command " ++ w.quote ++ " for " ++ Verb.none.name.quote
      ++ Text.when (!guesses.isEmpty) ("\n\nDid you mean this?\n" ++ guesses.flatMap row)
  | .unexpected w path => "unknown command " ++ w.quote ++ " for " ++ path.quote
  | .flag cause => cause.message
  | .argumentCount wanted given =>
    "accepts " ++ Text.ofNat wanted ++ " arg(s), received " ++ Text.ofNat given

/-- The shell named among the arguments of a completion, if one is. -/
def resolveShell (args : List Text) : Verb × List Text :=
  match words args with
  | [] => (.completion, args)
  | w :: _ =>
    match Shell.ofName? w with
    | some shell => (.script shell, without w args)
    | none => (.completion, args)

/-- The command among arguments, and the arguments without it. -/
def resolve (args : List Text) : Except UsageError (Verb × List Text) :=
  match words args with
  | [] => .ok (.none, args)
  | w :: _ =>
    match Verb.ofName? w with
    | some .completion => .ok (resolveShell (without w args))
    | some v => .ok (v, without w args)
    | none => .error (.unknownCommand w)

end AisScript.Command
