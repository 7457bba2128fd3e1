/-
The command line.

A command is a name with options and places behind it. An option is a flag or
takes a value, which may follow an equals sign or be the next word; two dashes
end the options. What is read last is set down only when the next option or
place begins, or at the end of the line, and that is when it turns out that a
value is missing or that an option is given twice.
-/
import LocaleKeys.Files.Path

set_option autoImplicit false

namespace LocaleKeys

/-- The options of the commands that look at a project (`CommonArgs`). -/
structure CommonOptions where
  locale : Option String := none
  root : Option Path := none
  verbose : Bool := false
deriving Repr, DecidableEq, Inhabited

/-- What is to be done. -/
inductive Command where
  | check (paths : List Path) (showResolved : Bool) (options : CommonOptions)
  | keys (file : Path) (options : CommonOptions)
  | watch (paths : List Path) (options : CommonOptions)
  | init
deriving Repr, DecidableEq, Inhabited

/-- Why a command line names nothing to be done. -/
inductive Refusal where
  | helpWanted
  | versionWanted
  | unknownArgument
  | unknownCommand
  | missingArgument
  /-- An option has no value, or a path has no text. -/
  | missingValue
  | unwantedValue
  | givenTwice
deriving Repr, DecidableEq, Inhabited

/-- The exit code of a refusal. Help and version are what was asked for. -/
def Refusal.code : Refusal → Nat
  | helpWanted | versionWanted => 0
  | _ => 2

namespace Arguments

/-! ## What commands take

Which options and how many places a command takes is a table. The reader below
goes by it and knows nothing of the commands themselves. -/

/-- An option, flag or not. -/
inductive Choice where
  | locale
  | root
  | verbose
  | showResolved
  | help
deriving Repr, DecidableEq, Inhabited

/-- How many places a command has. -/
inductive Places where
  | none
  | one
  | many
deriving Repr, DecidableEq, Inhabited

/-- A command before its arguments are read. -/
inductive Name where
  | check
  | keys
  | watch
  | init
deriving Repr, DecidableEq, Inhabited

/-- The command of this name. -/
def Name.ofString? : String → Option Name
  | "check" => some .check
  | "keys" => some .keys
  | "watch" => some .watch
  | "init" => some .init
  | _ => none

/-- The options of a command. -/
def Name.choices : Name → List Choice
  | .check => [.locale, .root, .verbose, .showResolved, .help]
  | .keys | .watch => [.locale, .root, .verbose, .help]
  | .init => [.help]

/-- The places of a command. -/
def Name.places : Name → Places
  | .check | .watch => .many
  | .keys => .one
  | .init => .none

/-- The name of an option behind two dashes. -/
def Choice.long : Choice → String
  | .locale => "locale"
  | .root => "root"
  | .verbose => "verbose"
  | .showResolved => "show-resolved"
  | .help => "help"

/-- The letter of an option behind one dash. -/
def Choice.letter? : Choice → Option Char
  | .verbose => some 'v'
  | .help => some 'h'
  | _ => none

/-- The option takes a value. -/
def Choice.takesValue : Choice → Bool
  | .locale | .root => true
  | _ => false

/-- The value may be without text. -/
def Choice.admitsEmpty : Choice → Bool
  | .root => false
  | _ => true

/-! ## Setting down

A value that was read is set down only when it is clear that nothing more
belongs to it. Faults come out at that moment, in the order in which the words
would have been set down, and the first of them is the one that is reported. -/

/-- What has been read last and is not set down yet. -/
inductive Waiting where
  | nothing
  /-- An option whose value is the next word. -/
  | option (choice : Choice)
  | value (choice : Choice) (text : String)
  | places (words : List String)
deriving Repr, DecidableEq, Inhabited

/-- What has been read of the arguments of a command. -/
structure Reading where
  values : List (Choice × String) := []
  flags : List Choice := []
  places : List String := []
  waiting : Waiting := .nothing
deriving Repr, DecidableEq, Inhabited

/-- Sets down a value. -/
def Reading.set (r : Reading) (choice : Choice) (text : String) : Except Refusal Reading :=
  if r.values.any (·.1 == choice) then .error .givenTwice
  else if text.isEmpty && !choice.admitsEmpty then .error .missingValue
  else .ok { r with values := r.values ++ [(choice, text)] }

/-- Sets down what has been read last. -/
def Reading.settle (r : Reading) : Except Refusal Reading :=
  let free := { r with waiting := .nothing }
  match r.waiting with
  | .nothing => .ok r
  | .option _ => .error .missingValue
  | .value choice text => free.set choice text
  | .places words =>
    if words.any (·.isEmpty) then .error .missingValue
    else .ok { free with places := r.places ++ words }

/-- Reads a flag. -/
def Reading.flag (r : Reading) (choice : Choice) : Except Refusal Reading := do
  let r ← r.settle
  if choice = .help then throw .helpWanted
  if r.flags.contains choice then throw .givenTwice
  return { r with flags := r.flags ++ [choice] }

/-- Reads what stands behind two dashes. -/
def Reading.long (r : Reading) (name : Name) (word : String) : Except Refusal Reading :=
  let (title, value) := match Text.piecesOf '=' word with
    | title :: value :: more => (title, some ("=".intercalate (value :: more)))
    | _ => (word, none)
  match name.choices.find? (·.long == title) with
  | none => .error .unknownArgument
  | some choice =>
    match choice.takesValue, value with
    | true, some text => do (← r.settle).set choice text
    | true, none => do return { ← r.settle with waiting := .option choice }
    | false, some _ => .error .unwantedValue
    | false, none => r.flag choice

/-- Reads letters behind one dash. -/
def Reading.letters (name : Name) : Reading → List Char → Except Refusal Reading
  | r, [] => .ok r
  | r, c :: cs =>
    match name.choices.find? (·.letter? == some c) with
    | none => .error .unknownArgument
    | some choice =>
      match r.flag choice with
      | .ok r => letters name r cs
      | .error refusal => .error refusal

/-- Reads a word that is in a place of its own. -/
def Reading.place (r : Reading) (name : Name) (word : String) : Except Refusal Reading :=
  match name.places, r.waiting with
  | .none, _ => .error .unknownArgument
  | .many, .places words => .ok { r with waiting := .places (words ++ [word]) }
  | .one, .places _ => .error .unknownArgument
  | .many, _ => do return { ← r.settle with waiting := .places [word] }
  | .one, _ =>
    if r.places.isEmpty then do return { ← r.settle with waiting := .places [word] }
    else .error .unknownArgument

/-- What follows a dash or two at the front of a word. -/
inductive Dashed where
  | long (word : String)
  | letters (cs : List Char)
  /-- Two dashes alone. -/
  | stop
  | plain
deriving Repr, DecidableEq, Inhabited

/-- How a word begins. A dash alone is a word like others. -/
def Dashed.of (word : String) : Dashed :=
  match word.toList with
  | ['-', '-'] => .stop
  | '-' :: '-' :: cs => .long (String.ofList cs)
  | '-' :: c :: cs => .letters (c :: cs)
  | _ => .plain

/-- Reads the arguments of a command. The flag says that options have ended. -/
def Reading.words (name : Name) : Reading → (ended : Bool) → List String → Except Refusal Reading
  | r, _, [] => r.settle
  | r, true, word :: rest => do words name (← r.place name word) true rest
  | r, false, word :: rest =>
    match Dashed.of word with
    | .stop => words name r true rest
    | .long w => do words name (← r.long name w) false rest
    | .letters cs => do words name (← Reading.letters name r cs) false rest
    | .plain => do
      match r.waiting with
      | .option choice => words name { r with waiting := .value choice word } false rest
      | _ => words name (← r.place name word) false rest

/-- The options that were read. -/
def Reading.options (r : Reading) : CommonOptions where
  locale := r.values.lookup .locale
  root := (r.values.lookup .root).map Path.mk
  verbose := r.flags.contains .verbose

/-- The command that was read. -/
def Reading.command (r : Reading) : Name → Except Refusal Command
  | .check => .ok (.check (r.places.map Path.mk) (r.flags.contains .showResolved) r.options)
  | .watch => .ok (.watch (r.places.map Path.mk) r.options)
  | .init => .ok .init
  | .keys =>
    match r.places with
    | [] => .error .missingArgument
    | file :: _ => .ok (.keys ⟨file⟩ r.options)

/-! ## The whole line

In front of the command only help and version can be asked for. Behind it the
words are its own. -/

/-- The refusal of words that ask for help on a command. -/
def helpOn : List String → Refusal
  | [] => .helpWanted
  | [word] =>
    if word == "help" || (Name.ofString? word).isSome then .helpWanted else .unknownCommand
  | _ => .unknownCommand

/-- The refusal of letters in front of any command. -/
def topLetters : List Char → Refusal
  | 'h' :: _ => .helpWanted
  | 'V' :: _ => .versionWanted
  | _ => .unknownArgument

/-- The refusal of a long option in front of any command. -/
def topLong (word : String) : Refusal :=
  match Text.piecesOf '=' word with
  | ["help"] => .helpWanted
  | ["version"] => .versionWanted
  | "help" :: _ | "version" :: _ => .unwantedValue
  | _ => .unknownArgument

/-- The refusal of a word behind two dashes where a command should be. -/
def behindStop (word : String) : Refusal :=
  if word == "help" || (Name.ofString? word).isSome then .unknownArgument else .unknownCommand

/-- The command that a command line names. An empty one names none and is not
refused. -/
def read : List String → Except Refusal (Option Command)
  | [] | ["--"] => .ok none
  | "--" :: word :: _ => .error (behindStop word)
  | "help" :: rest => .error (helpOn rest)
  | word :: rest =>
    match Name.ofString? word with
    | some name => do
      let r ← Reading.words name {} false rest
      return some (← r.command name)
    | none =>
      match Dashed.of word with
      | .long w => .error (topLong w)
      | .letters cs => .error (topLetters cs)
      | _ => .error .unknownCommand

end Arguments

end LocaleKeys
