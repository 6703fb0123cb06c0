import LanguageHub.Text.Split
import LanguageHub.Wire.Frame

/-!
# Small programs

What a few standard programs do with their input and output, alone or one after the other
in a line for the shell.
-/

namespace LanguageHub

/-- A step of a program. -/
inductive ProgramAction where
  | print (text : String)
  /-- Copies the input to the output until the input ends. -/
  | copy
  /-- Goes on for a long time. -/
  | linger
  /-- The status so far. -/
  | set (status : Nat)
  | exit (status : Option Nat)
  deriving DecidableEq, Repr, Inhabited

/-- Where a program runs. -/
structure ProgramContext where
  directory : String
  environment : List (String × String)

namespace Shell

/-! ## Words -/

def isNameChar (c : Char) : Bool := Char.isAlphanum c || c = '_'

def valueOf (x : ProgramContext) (name : List Char) : List Char :=
  ((List.lookup (String.ofList name) x.environment).getD "").toList

/-- A variable's value at the start of a text that follows a dollar sign, and the rest. -/
def expansion (x : ProgramContext) (s : List Char) : List Char × List Char :=
  match s with
  | '\x7b' :: t => (valueOf x (t.takeWhile isNameChar), (t.dropWhile isNameChar).drop 1)
  | t =>
    let name := t.takeWhile isNameChar
    (if name.isEmpty then ['$'] else valueOf x name, t.drop name.length)

/-- How the characters of a word are meant. -/
inductive Quoting where
  | bare
  | single
  | double
  deriving DecidableEq, Repr

/-- The commands of a line, each as its words. A word that was begun is kept. -/
def split (x : ProgramContext) : Nat → Quoting → Option (List Char) → List String → List Char →
    List (List String)
  | 0, _, _, words, _ => [words]
  | fuel + 1, quoting, word, words, s =>
    let ended := words ++ (word.map String.ofList).toList
    let add := fun (cs : List Char) => some ((word.getD []) ++ cs)
    match quoting, s with
    | _, [] => [ended]
    | .single, '\'' :: t => split x fuel .bare word words t
    | .single, c :: t => split x fuel .single (add [c]) words t
    | .double, '"' :: t => split x fuel .bare word words t
    | .bare, '\'' :: t => split x fuel .single (add []) words t
    | .bare, '"' :: t => split x fuel .double (add []) words t
    | .bare, '\\' :: c :: t => split x fuel .bare (add [c]) words t
    | quoting, '$' :: t =>
      let (value, rest) := expansion x t
      split x fuel quoting (add value) words rest
    | .bare, '&' :: '&' :: t => ended :: split x fuel .bare none [] t
    | .bare, c :: t =>
      if c = ';' ∨ c = '\n' then ended :: split x fuel .bare none [] t
      else if c = ' ' ∨ c = '\t' then split x fuel .bare none ended t
      else split x fuel .bare (add [c]) words t
    | quoting, c :: t => split x fuel quoting (add [c]) words t

/-! ## Commands -/

/-- A format with its places filled in order. -/
def format : List String → List Char → List Char
  | arg :: args, '%' :: 's' :: t => arg.toList ++ format args t
  | [], '%' :: 's' :: t => format [] t
  | args, '\\' :: 'n' :: t => '\n' :: format args t
  | args, c :: t => c :: format args t
  | _, [] => []

def line (words : List String) : String := " ".intercalate words ++ "\n"

/-- The programs that there are. -/
def names : List String :=
  ["cat", "echo", "printf", "pwd", "printenv", "env", "true", "false", "sleep", "sh", "exec"]

/-- What a command other than the shell does. -/
def command (x : ProgramContext) : List String → List ProgramAction
  | [] => []
  | "exec" :: words => command x words
  | "cat" :: _ => [.copy, .set 0]
  | "exit" :: args => [.exit (args.head?.bind fun n => Text.natural? n.toList)]
  | "echo" :: "-n" :: args => [.print (" ".intercalate args), .set 0]
  | "echo" :: args => [.print (line args), .set 0]
  | "printf" :: template :: args => [.print (String.ofList (format args template.toList)), .set 0]
  | "pwd" :: _ => [.print (x.directory ++ "\n"), .set 0]
  | ["printenv", name] =>
    match List.lookup name x.environment with
    | some value => [.print (value ++ "\n"), .set 0]
    | none => [.set 1]
  | name :: _ =>
    if name = "sleep" then [.linger]
    else if name = "true" ∨ name = ":" then [.set 0]
    else if name = "false" then [.set 1]
    else [.set 127]

/-- A command whose output does not go where it usually does prints nothing there. -/
def redirected (x : ProgramContext) (words : List String) : List ProgramAction :=
  if words.any fun w => w = ">&2" ∨ w = "1>&2" ∨ w = ">/dev/null" then
    (command x words).filter fun
      | .print _ => false
      | _ => true
  else command x words

/-- What a command does; the shell runs a line. -/
def actions (x : ProgramContext) : List String → List ProgramAction
  | "sh" :: "-c" :: script :: _ =>
    (split x (script.length + 1) .bare none [] script.toList).flatMap (redirected x)
  | words => command x words

end Shell

/-! ## Running -/

/-- A program that was started. -/
structure RunningProgram where
  /-- What it printed and nobody has read yet. -/
  output : Frame.Bytes
  /-- What it still has to do; nothing once it has ended. -/
  rest : List ProgramAction
  status : Nat
  deriving Repr, Inhabited

namespace RunningProgram

/-- The program has more to do. -/
def isRunning (p : RunningProgram) : Bool := !p.rest.isEmpty

/-- Goes on until the program has to wait or ends. -/
def advance (output : Frame.Bytes) (status : Nat) : List ProgramAction → RunningProgram
  | [] => ⟨output, [], status⟩
  | .print text :: rest => advance (output ++ Frame.bytesOf text.toList) status rest
  | .set status :: rest => advance output status rest
  | .exit status' :: _ => ⟨output, [], status'.getD status⟩
  | rest => ⟨output, rest, status⟩

def start (actions : List ProgramAction) : RunningProgram := advance [] 0 actions

/-- The program gets input. -/
def write (bytes : Frame.Bytes) (p : RunningProgram) : RunningProgram :=
  match p.rest with
  | .copy :: _ => { p with output := p.output ++ bytes }
  | _ => p

/-- The input ends. -/
def closeInput (p : RunningProgram) : RunningProgram :=
  match p.rest with
  | .copy :: rest => advance p.output p.status rest
  | _ => p

/-- Reads exactly so many bytes, when there are as many. -/
def read? (count : Nat) (p : RunningProgram) : Option Frame.Bytes × RunningProgram :=
  if count ≤ p.output.length then
    (some (p.output.take count), { p with output := p.output.drop count })
  else (none, p)

end RunningProgram

end LanguageHub
