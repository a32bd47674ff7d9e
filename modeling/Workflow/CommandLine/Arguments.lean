import Workflow.Table
/-!
# Arguments

Reads the arguments of the program.  An option has a long name behind two hyphens, and may have a
letter behind one; letters can be joined.  A value follows its option as the next argument, behind
an equals sign or directly behind the letter.  Shared options may stand before or behind the name
of the command.
-/
namespace Workflow.CommandLine

/-- What the program is asked to do. -/
inductive Command where
  | run (file : String) (input : Option String) (cap : Option Nat)
  | validate (file : String) (json : Bool)
  | nodes
  | init (output : String)
  | help
  deriving DecidableEq

/-- A command with the file of its settings. -/
structure Invocation where
  config : Option String
  command : Command
  deriving DecidableEq

/-- What can be wrong with the arguments. -/
inductive Misuse where
  | unexpected (word : String)
  | unknownCommand (name : String)
  | noCommand
  | repeated (name : String)
  | missing (name : String)
  | missingValue (name : String)
  | needlessValue (name : String)
  | badValue (name value : String)
  deriving DecidableEq

def Misuse.message : Misuse → String
  | .unexpected word => "unexpected argument '" ++ word ++ "' found"
  | .unknownCommand name => "unrecognized subcommand '" ++ name ++ "'"
  | .noCommand => "a subcommand is required"
  | .repeated name => "the argument '" ++ name ++ "' cannot be used multiple times"
  | .missing name => "the required argument '" ++ name ++ "' was not provided"
  | .missingValue name => "a value is required for '" ++ name ++ "' but none was supplied"
  | .needlessValue name => "no value is allowed for '" ++ name ++ "'"
  | .badValue name value => "invalid value '" ++ value ++ "' for '" ++ name ++ "'"

structure Switch where
  name : String
  letter : Option Char
  hasValue : Bool

/-- The option as messages show it. -/
def Switch.shown (s : Switch) : String := "--" ++ s.name

/-- The options of every command. -/
def sharedSwitches : List Switch :=
  [⟨"config", some 'c', true⟩, ⟨"verbose", some 'v', false⟩, ⟨"help", some 'h', false⟩]

/-- The options of a command. -/
def switchesOf? : String → Option (List Switch)
  | "run" =>
    some [⟨"file", some 'f', true⟩, ⟨"input", some 'i', true⟩, ⟨"max-iterations", none, true⟩]
  | "validate" => some [⟨"json", none, false⟩]
  | "nodes" => some []
  | "init" => some [⟨"output", some 'o', true⟩]
  | "help" => some []
  | _ => none

/-- What has been given so far. -/
structure Given where
  command : Option String
  switches : List Switch
  /-- The options given since the name of the command, or since the start. -/
  seen : List String
  values : Table String
  operands : List String
  /-- Whether everything from now on is an operand. -/
  plain : Bool

namespace Given

def start : Given := ⟨none, sharedSwitches, [], .empty, [], false⟩

/-- Takes an option with its value; an option without one has the empty text. -/
def takeSwitch (g : Given) (s : Switch) (value : String) : Except Misuse Given :=
  if g.seen.contains s.name then .error (.repeated s.shown)
  else .ok { g with seen := s.name :: g.seen, values := g.values.insert s.name value }

/-- Takes an argument that is no option: the name of the command, then its operands. -/
def takeOperand (g : Given) (word : String) : Except Misuse Given :=
  match g.command with
  | some _ => .ok { g with operands := g.operands ++ [word] }
  | none =>
    match switchesOf? word with
    | none => .error (.unknownCommand word)
    | some l => .ok { g with command := some word, switches := l ++ sharedSwitches, seen := [] }

/-- Takes joined letters.  Gives back the option whose value is still to come. -/
def takeLetters (g : Given) : List Char → Except Misuse (Given × Option Switch)
  | [] => .ok (g, none)
  | c :: rest =>
    match g.switches.find? (fun s => s.letter == some c) with
    | none => .error (.unexpected ("-" ++ String.singleton c))
    | some s =>
      if s.hasValue then
        match rest with
        | [] => .ok (g, some s)
        | '=' :: value => (g.takeSwitch s (String.ofList value)).map (·, none)
        | value => (g.takeSwitch s (String.ofList value)).map (·, none)
      else
        match g.takeSwitch s "" with
        | .error e => .error e
        | .ok g' => g'.takeLetters rest

/-- Takes a long name, behind which a value may stand.  Gives back the option whose value is still
to come. -/
def takeName (g : Given) (cs : List Char) : Except Misuse (Given × Option Switch) :=
  let name := String.ofList (cs.takeWhile (· != '='))
  match g.switches.find? (fun s => s.name == name) with
  | none => .error (.unexpected ("--" ++ name))
  | some s =>
    match cs.dropWhile (· != '='), s.hasValue with
    | [], true => .ok (g, some s)
    | [], false => (g.takeSwitch s "").map (·, none)
    | _ :: value, true => (g.takeSwitch s (String.ofList value)).map (·, none)
    | _ :: _, false => .error (.needlessValue s.shown)

/-- Whether an argument stands for options; a single hyphen does not. -/
def isSwitch (word : String) : Bool :=
  match word.toList with
  | '-' :: _ :: _ => true
  | _ => false

/-- Takes the options of an argument. -/
def takeSwitches (g : Given) (word : String) : Except Misuse (Given × Option Switch) :=
  match word.toList with
  | '-' :: '-' :: cs => g.takeName cs
  | _ :: cs => g.takeLetters cs
  | [] => .ok (g, none)

def takeAll (g : Given) : List String → Except Misuse Given
  | [] => .ok g
  | word :: rest =>
    if word = "--" ∧ !g.plain then { g with plain := true }.takeAll rest
    else if g.plain || !isSwitch word then
      match g.takeOperand word with
      | .error e => .error e
      | .ok g' => g'.takeAll rest
    else
      match g.takeSwitches word with
      | .error e => .error e
      | .ok (g', none) => g'.takeAll rest
      | .ok (g', some s) =>
        match rest with
        | [] => .error (.missingValue s.shown)
        | value :: rest' =>
          if isSwitch value then .error (.missingValue s.shown)
          else
            match g'.takeSwitch s value with
            | .error e => .error e
            | .ok g'' => g''.takeAll rest'

/-- The value of an option that is a path; a path is not empty. -/
def path? (g : Given) (name : String) : Except Misuse (Option String) :=
  match g.values.get? name with
  | some "" => .error (.badValue ("--" ++ name) "")
  | v => .ok v

/-- A whole number of 32 bits in decimal digits, which may stand behind a plus sign. -/
def readWhole? (text : String) : Option Nat :=
  let digits := match text.toList with
    | '+' :: cs => cs
    | cs => cs
  if digits.isEmpty || !digits.all Char.isDigit then none
  else
    let n := digits.foldl (fun n c => 10 * n + (c.toNat - 48)) 0
    if n < Nat.pow 2 32 then some n else none

/-- The cap that the options ask for. -/
def cap? (g : Given) : Except Misuse (Option Nat) :=
  match g.values.get? "max-iterations" with
  | none => .ok none
  | some text =>
    match readWhole? text with
    | some n => .ok (some n)
    | none => .error (.badValue "--max-iterations" text)

/-- Gives a command unless there are operands. -/
def withoutOperands (g : Given) (c : Command) : Except Misuse Command :=
  match g.operands with
  | [] => .ok c
  | word :: _ => .error (.unexpected word)

/-- The command that has been asked for. -/
def commandNamed (g : Given) : String → Except Misuse Command
  | "run" =>
    match g.path? "file", g.cap? with
    | .error e, _ | _, .error e => .error e
    | .ok none, _ => .error (.missing "--file <FILE>")
    | .ok (some file), .ok cap => g.withoutOperands (.run file (g.values.get? "input") cap)
  | "validate" =>
    match g.operands with
    | [] => .error (.missing "<FILE>")
    | [""] => .error (.badValue "<FILE>" "")
    | [file] => .ok (.validate file (g.values.contains "json"))
    | _ :: word :: _ => .error (.unexpected word)
  | "nodes" => g.withoutOperands .nodes
  | "init" =>
    match g.path? "output" with
    | .error e => .error e
    | .ok output => g.withoutOperands (.init (output.getD "workflow.json"))
  | _ => .ok .help

/-- What has been asked for. -/
def invocation (g : Given) : Except Misuse Invocation :=
  if g.values.contains "help" then .ok ⟨none, .help⟩
  else
    match g.command with
    | none => .error .noCommand
    | some name =>
      match g.commandNamed name, g.path? "config" with
      | .error e, _ | _, .error e => .error e
      | .ok command, .ok config => .ok ⟨config, command⟩

end Given

def Invocation.ofArguments (words : List String) : Except Misuse Invocation :=
  match Given.start.takeAll words with
  | .error e => .error e
  | .ok g => g.invocation

example : (Invocation.ofArguments ["run", "-vf", "w.json", "--max-iterations=3"]).toOption =
    some ⟨none, .run "w.json" none (some 3)⟩ := by decide +kernel

example : (Invocation.ofArguments ["-c", "c.json", "validate", "w.json", "--json"]).toOption =
    some ⟨some "c.json", .validate "w.json" true⟩ := by decide +kernel

end Workflow.CommandLine
