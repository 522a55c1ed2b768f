import Hmsdk.Bwprof.Config

/-! # The command line

argp goes through the arguments in order and hands each of them to
`parse_option`: an option with its key from the table, a word with the key
`ARGP_KEY_ARG`, and the end of the line with a key of its own. The switch over
the keys does not tell an option with the key 0 from a word. The other events
of argp have keys that the switch does not know, and argp goes on.
-/

namespace Hmsdk.Bwprof

structure ArgpOption where
  name : Text
  key : Int
  arg : Option Text
  deriving Repr, DecidableEq

def ARGP_KEY_ARG : Int := 0
def ARGP_KEY_END : Int := 0x1000001

def charKey (c : Char) : Int := c.toNat

def helpOption : ArgpOption := ⟨"help".toList, charKey 'h', none⟩
def intervalOption : ArgpOption := ⟨"interval".toList, charKey 'i', some "seconds".toList⟩
def socketOption : ArgpOption := ⟨"socket".toList, charKey 's', some "socket number".toList⟩
def dataDirOption : ArgpOption := ⟨"data-dir".toList, charKey 'd', some "directory".toList⟩
def topOption : ArgpOption := ⟨"top".toList, 0, none⟩

def options : List ArgpOption :=
  [helpOption, intervalOption, socketOption, dataDirOption, topOption]

/-- Why parsing goes no further: the process ends with the message of
    `argp_error` or after the help text, or the key is not known. -/
inductive ParseEnd where
  | argpError (message : Text)
  | argpStateHelp
  | ARGP_ERR_UNKNOWN
  deriving Repr, DecidableEq

def commandType (cmd : Text) : Option CommandType :=
  if cmd = "record".toList then some .RECORD
  else if cmd = "top".toList then some .TOP
  else if cmd = "dump".toList then some .DUMP
  else if cmd = "report".toList then some .REPORT
  else if cmd = "info".toList then some .INFO
  else if cmd = "help".toList then some .HELP
  else none

/-- Modes that take no command to run. -/
def CommandType.reads : CommandType → Bool
  | .DUMP | .REPORT | .INFO | .HELP => true
  | .RECORD | .TOP | .INVALID => false

/-- The body of the `try`; `none` when it throws. A string made of a null
    pointer throws, as do numbers that cannot be read. -/
def parseKey (key : Int) (arg : Option Text) (argNum : Nat) (config : Config) :
    Option (Except ParseEnd Config) :=
  if key = charKey 'h' then some (.error .argpStateHelp)
  else if key = charKey 'i' then do
    let interval ← stoi (← arg)
    return if interval ≤ 0 then .error (.argpError "Interval must be positive".toList)
      else .ok { config with interval }
  else if key = charKey 's' then do
    let socket ← stoi (← arg)
    return if socket < 0 then .error (.argpError "Socket number must be non-negative".toList)
      else .ok { config with socket }
  else if key = charKey 'd' then do
    let dataDir ← arg
    return if dataDir = [] then .error (.argpError "Data directory name cannot be empty".toList)
      else .ok { config with dataDir }
  else if key = ARGP_KEY_ARG then do
    let arg ← arg
    return if argNum = 0 then
        -- First argument is command type
        match commandType arg with
        | some command => .ok { config with command }
        | none => .error (.argpError ("Unknown command: ".toList ++ arg))
      else .ok { config with commandArgs := config.commandArgs ++ [arg] }
  else if key = ARGP_KEY_END then
    some (if config.command.reads ∧ config.commandArgs ≠ [] then
        .error (.argpError "No command expected for dump/report/info/help mode".toList)
      else .ok config)
  else some (.error .ARGP_ERR_UNKNOWN)

def parseOption (key : Int) (arg : Option Text) (argNum : Nat) (config : Config) :
    Except ParseEnd Config :=
  match parseKey key arg argNum config with
  | some parsed => parsed
  | none => .error (.argpError
      ("Invalid argument for option '".toList ++ [Char.ofNat key.toNat] ++ ['\'']))

/-- One argument as argp reads it: an option, with what is given for it, or a
    word that belongs to no option. -/
inductive Argument where
  | interval (seconds : Text)
  | socket (number : Text)
  | dataDir (directory : Text)
  | top
  | word (word : Text)
  deriving Repr, DecidableEq

namespace Argument

def key : Argument → Int
  | .interval _ => intervalOption.key
  | .socket _ => socketOption.key
  | .dataDir _ => dataDirOption.key
  | .top => topOption.key
  | .word _ => ARGP_KEY_ARG

def arg : Argument → Option Text
  | .interval given | .socket given | .dataDir given | .word given => some given
  | .top => none

def text : Argument → Option Text
  | .word given => some given
  | .interval _ | .socket _ | .dataDir _ | .top => none

def Valid : Argument → Prop
  | .interval seconds => ∃ interval, stoi seconds = some interval ∧ 0 < interval
  | .socket number => ∃ socket, stoi number = some socket ∧ 0 ≤ socket
  | .dataDir directory => directory ≠ []
  | .top | .word _ => True

end Argument

/-- The words of a command line, in order. -/
def wordsOf (arguments : List Argument) : List Text := arguments.filterMap Argument.text

/-- argp's calls; `argNum` counts the words so far. -/
def deliver : List Argument → Nat → Config → Except ParseEnd Config
  | [], argNum, config => parseOption ARGP_KEY_END none argNum config
  | argument :: rest, argNum, config => do
      let config ← parseOption argument.key argument.arg argNum config
      deliver rest (argNum + (wordsOf [argument]).length) config

def argpParse (arguments : List Argument) : Except ParseEnd Config := deliver arguments 0 {}

/-- What an option may change: neither the command, nor its arguments, nor
    whether there is live output. -/
structure Keeps (before after : Config) : Prop where
  command : after.command = before.command
  commandArgs : after.commandArgs = before.commandArgs
  showRealtime : after.showRealtime = before.showRealtime

section

variable {argument : Argument} {argNum : Nat} {config : Config}

theorem parseOption_option (argNum : Nat) (config : Config) (valid : argument.Valid)
    (notTop : argument ≠ .top) (notWord : argument.text = none) :
    ∃ after, parseOption argument.key argument.arg argNum config = .ok after ∧
      Keeps config after := by
  cases argument with
  | top => exact absurd rfl notTop
  | word given => cases notWord
  | interval seconds =>
      obtain ⟨interval, read, positive⟩ := valid
      refine ⟨{ config with interval }, ?_, rfl, rfl, rfl⟩
      rw [Argument.key, parseOption, parseKey, if_neg (by decide), if_pos (by decide)]
      simp only [Argument.arg, Option.bind_eq_bind, Option.bind_some, read,
        if_neg (not_le.mpr positive)]
      rfl
  | socket number =>
      obtain ⟨socket, read, nonneg⟩ := valid
      refine ⟨{ config with socket }, ?_, rfl, rfl, rfl⟩
      rw [Argument.key, parseOption, parseKey, if_neg (by decide), if_neg (by decide),
        if_pos (by decide)]
      simp only [Argument.arg, Option.bind_eq_bind, Option.bind_some, read,
        if_neg (not_lt.mpr nonneg)]
      rfl
  | dataDir directory =>
      have named : directory ≠ [] := valid
      refine ⟨{ config with dataDir := directory }, ?_, rfl, rfl, rfl⟩
      rw [Argument.key, parseOption, parseKey, if_neg (by decide), if_neg (by decide),
        if_neg (by decide), if_pos (by decide)]
      simp only [Argument.arg, Option.bind_eq_bind, Option.bind_some, if_neg named]
      rfl

/-- A word is the command, or an argument of the command to run. -/
theorem parseKey_word (word : Text) :
    parseKey ARGP_KEY_ARG (some word) argNum config =
      some (if argNum = 0 then
        match commandType word with
        | some command => .ok { config with command }
        | none => .error (.argpError ("Unknown command: ".toList ++ word))
      else .ok { config with commandArgs := config.commandArgs ++ [word] }) := by
  rw [parseKey, if_neg (by decide), if_neg (by decide), if_neg (by decide), if_neg (by decide),
    if_pos rfl]
  rfl

theorem parseOption_command {word : Text} {command : CommandType}
    (known : commandType word = some command) :
    parseOption ARGP_KEY_ARG (some word) 0 config = .ok { config with command } := by
  rw [parseOption, parseKey_word, if_pos rfl, known]

theorem parseOption_word (later : 0 < argNum) (word : Text) :
    parseOption ARGP_KEY_ARG (some word) argNum config =
      .ok { config with commandArgs := config.commandArgs ++ [word] } := by
  rw [parseOption, parseKey_word, if_neg later.ne']

/-- `--top` is taken for a word, and there is none. -/
theorem parseOption_top (argNum : Nat) (config : Config) : ∃ message,
    parseOption topOption.key none argNum config = .error (.argpError message) := ⟨_, rfl⟩

theorem parseOption_end :
    parseOption ARGP_KEY_END none argNum config =
      if config.command.reads ∧ config.commandArgs ≠ [] then
        .error (.argpError "No command expected for dump/report/info/help mode".toList)
      else .ok config := by
  rw [parseOption, parseKey, if_neg (by decide), if_neg (by decide), if_neg (by decide),
    if_neg (by decide), if_neg (by decide), if_pos rfl]

end

/-- What the configuration holds after the words `seen`: the first is the
    command, the others are its arguments. -/
structure Collected (seen : List Text) (argNum : Nat) (config : Config) : Prop where
  argNum : argNum = seen.length
  command : ∀ word ∈ seen.head?, commandType word = some config.command
  commandArgs : config.commandArgs = seen.tail
  showRealtime : config.showRealtime = false

section

variable {arguments : List Argument} {argument : Argument} {seen : List Text} {argNum : Nat}
  {config : Config}

theorem Collected.start : Collected [] 0 {} := ⟨rfl, by simp, rfl, rfl⟩

theorem Collected.keeps (collected : Collected seen argNum config) {after : Config}
    (keeps : Keeps config after) : Collected seen argNum after where
  argNum := collected.argNum
  command := by
    rw [keeps.command]
    exact collected.command
  commandArgs := keeps.commandArgs.trans collected.commandArgs
  showRealtime := keeps.showRealtime.trans collected.showRealtime

theorem Collected.word (collected : Collected seen argNum config) {word : Text}
    (known : ∀ first ∈ (seen ++ [word]).head?, (commandType first).isSome) :
    ∃ after, parseOption ARGP_KEY_ARG (some word) argNum config = .ok after ∧
      Collected (seen ++ [word]) (argNum + 1) after := by
  cases seen with
  | nil =>
      obtain ⟨command, named⟩ := Option.isSome_iff_exists.mp (known word rfl)
      have first : argNum = 0 := collected.argNum
      subst first
      refine ⟨_, parseOption_command named, rfl, ?_, collected.commandArgs,
        collected.showRealtime⟩
      intro other member
      cases member
      exact named
  | cons first rest =>
      have later : 0 < argNum := by
        rw [collected.argNum]
        exact Nat.succ_pos _
      refine ⟨_, parseOption_word later word, ?_, ?_, ?_, collected.showRealtime⟩
      · rw [collected.argNum, List.length_append, List.length_singleton]
      · exact collected.command
      · exact congrArg (· ++ [word]) collected.commandArgs

/-- One argument, unless it is `--top`. -/
theorem Collected.step (collected : Collected seen argNum config) (valid : argument.Valid)
    (notTop : argument ≠ .top)
    (known : ∀ first ∈ (seen ++ wordsOf [argument]).head?, (commandType first).isSome) :
    ∃ after, parseOption argument.key argument.arg argNum config = .ok after ∧
      Collected (seen ++ wordsOf [argument]) (argNum + (wordsOf [argument]).length) after := by
  cases argument with
  | word given => exact collected.word known
  | top => exact absurd rfl notTop
  | interval given | socket given | dataDir given =>
      obtain ⟨after, accepted, keeps⟩ :=
        parseOption_option argNum config valid notTop rfl
      refine ⟨after, accepted, ?_⟩
      change Collected (seen ++ []) argNum after
      rw [List.append_nil]
      exact collected.keeps keeps

theorem Collected.run (collected : Collected seen argNum config)
    (valid : ∀ argument ∈ arguments, argument.Valid) (noTop : .top ∉ arguments)
    (known : ∀ first ∈ (seen ++ wordsOf arguments).head?, (commandType first).isSome) :
    ∃ argNum' after,
      deliver arguments argNum config = parseOption ARGP_KEY_END none argNum' after ∧
      Collected (seen ++ wordsOf arguments) argNum' after := by
  induction arguments generalizing seen argNum config with
  | nil =>
      rw [show wordsOf [] = [] from rfl, List.append_nil]
      exact ⟨argNum, config, rfl, collected⟩
  | cons argument rest ih =>
      obtain ⟨notTop, noTopLater⟩ := List.ne_and_not_mem_of_not_mem_cons noTop
      have split : wordsOf (argument :: rest) = wordsOf [argument] ++ wordsOf rest := by
        rw [wordsOf, wordsOf, wordsOf, ← List.filterMap_append]
        rfl
      rw [split, ← List.append_assoc] at known ⊢
      have knownHere : ∀ first ∈ (seen ++ wordsOf [argument]).head?,
          (commandType first).isSome := by
        intro first member
        apply known
        rw [List.head?_append, Option.mem_def.mp member]
        rfl
      obtain ⟨middle, accepted, still⟩ :=
        collected.step (valid argument List.mem_cons_self) notTop.symm knownHere
      have validLater : ∀ argument ∈ rest, argument.Valid :=
        fun other member => valid other (List.mem_cons_of_mem argument member)
      obtain ⟨argNum', after, delivered, words⟩ := ih still validLater noTopLater known
      refine ⟨argNum', after, ?_, words⟩
      rw [deliver, accepted]
      exact delivered

/-- No line with `--top` gets through. -/
theorem deliver_top (top : .top ∈ arguments) (after : Config) :
    deliver arguments argNum config ≠ .ok after := by
  induction arguments generalizing argNum config with
  | nil => cases top
  | cons argument rest ih =>
      rw [deliver]
      cases accepted : parseOption argument.key argument.arg argNum config with
      | error stopped =>
          intro same
          cases same
      | ok middle =>
          rcases List.mem_cons.mp top with rfl | later
          · obtain ⟨message, rejected⟩ := parseOption_top argNum config
            rw [Argument.key, Argument.arg, rejected] at accepted
            cases accepted
          · exact ih later

end

/-- Without `--top` only the check at the end can fail. -/
theorem argpParse_eq {arguments : List Argument}
    (valid : ∀ argument ∈ arguments, argument.Valid) (noTop : .top ∉ arguments) {word : Text}
    {args : List Text} (words : wordsOf arguments = word :: args) {command : CommandType}
    (known : commandType word = some command) :
    ∃ config, argpParse arguments =
        (if command.reads ∧ args ≠ [] then
          .error (.argpError "No command expected for dump/report/info/help mode".toList)
        else .ok config) ∧
      config.showRealtime = false ∧ config.command = command ∧ config.commandArgs = args := by
  obtain ⟨argNum, config, delivered, collected⟩ :=
    Collected.start.run valid noTop (by simp [words, known])
  rw [words] at collected
  have named : config.command = command := by
    have same := collected.command word rfl
    rw [known] at same
    exact (Option.some.inj same).symm
  refine ⟨config, ?_, collected.showRealtime, named, collected.commandArgs⟩
  rw [argpParse, delivered, parseOption_end, named, collected.commandArgs]
  rfl

/-- The line is accepted, with live output on request, the command word and its
    arguments. -/
def ParsedAsGiven (arguments : List Argument) (command : CommandType) (args : List Text) : Prop :=
  ∃ config, argpParse arguments = .ok config ∧
    (config.showRealtime = true ↔ .top ∈ arguments) ∧ config.command = command ∧
    config.commandArgs = args

/-- Valid options, a command word and further words, in any order: they are
    taken as given exactly when there is no `--top`, and no further word after
    a command that runs nothing. -/
theorem parsedAsGiven_iff {arguments : List Argument}
    (valid : ∀ argument ∈ arguments, argument.Valid) {word : Text} {args : List Text}
    (words : wordsOf arguments = word :: args) {command : CommandType}
    (known : commandType word = some command) :
    ParsedAsGiven arguments command args ↔
      .top ∉ arguments ∧ (command.reads = true → args = []) := by
  constructor
  · rintro ⟨config, parsed, -⟩
    have noTop : .top ∉ arguments := fun top => deliver_top top config parsed
    refine ⟨noTop, fun reads => ?_⟩
    by_contra some
    obtain ⟨other, result, -⟩ := argpParse_eq valid noTop words known
    rw [if_pos ⟨reads, some⟩, parsed] at result
    cases result
  · rintro ⟨noTop, alone⟩
    obtain ⟨config, result, live, named, commandArgs⟩ := argpParse_eq valid noTop words known
    have allowed : ¬ (command.reads = true ∧ args ≠ []) := fun both => both.2 (alone both.1)
    rw [if_neg allowed] at result
    exact ⟨config, result, by simp [live, noTop], named, commandArgs⟩

/-- `bwprof -i 5 record ls`. -/
theorem parsedAsGiven_record :
    ParsedAsGiven [.interval "5".toList, .word "record".toList, .word "ls".toList] .RECORD
      ["ls".toList] := by
  refine (@parsedAsGiven_iff _ ?_ "record".toList _ rfl _ rfl).mpr (by decide)
  simp only [List.forall_mem_cons, Argument.Valid]
  exact ⟨⟨5, by decide, by decide⟩, trivial, trivial, by simp⟩

/-- `bwprof record --top ls`, as in the help text, is not accepted. -/
theorem record_top_rejected :
    ¬ ParsedAsGiven [.word "record".toList, .top, .word "ls".toList] .RECORD ["ls".toList] := by
  rintro ⟨config, parsed, -⟩
  cases parsed

end Hmsdk.Bwprof
