/-!
Arguments of a command line: options with one or two leading hyphens, operands, and commands that have
options and operands of their own. Options with a value take it after an equals sign or from the next
argument, unless that looks like an option; a lone pair of hyphens ends the options.
-/

namespace MonitorExport.CommandLine

/-- Why no command is started. -/
inductive Refusal where
  /-- The arguments are none that the program takes. -/
  | usage
  | help
  | version
deriving DecidableEq

/-- An option. -/
structure Flag where
  name : String
  letter : Option Char
  /-- The values that it takes, if it takes one. -/
  accepts : Option (String → Bool)

namespace Flag

def switch (name : String) (letter : Option Char) : Flag :=
  ⟨name, letter, none⟩

def text (name : String) : Flag :=
  ⟨name, none, some fun _ => true⟩

/-- An option with a path for a value, which is never empty. -/
def path (name : String) : Flag :=
  ⟨name, none, some fun v => !v.isEmpty⟩

/-- Whether a value can be given. -/
def takes (f : Flag) (v : String) : Bool :=
  match f.accepts with
  | some accepts => accepts v
  | none => false

end Flag

/-- What a program or one of its commands takes: options, operands, all of them required, or commands,
one of them required. -/
inductive Grammar where
  | node (flags : List Flag) (operands : List (String → Bool)) (commands : List (String × Grammar))

namespace Grammar

def flags : Grammar → List Flag
  | node flags _ _ => flags

def operands : Grammar → List (String → Bool)
  | node _ operands _ => operands

def commands : Grammar → List (String × Grammar)
  | node _ _ commands => commands

end Grammar

/-- What arguments give: the names of commands, and options and operands in order. An option of an inner
command comes before those of an outer one. -/
structure Given where
  commands : List String
  options : List (String × String)
  operands : List String

namespace Given

def empty : Given := ⟨[], [], []⟩

def option? (g : Given) (name : String) : Option String :=
  g.options.lookup name

def has (g : Given) (name : String) : Bool :=
  (g.option? name).isSome

end Given

/-- The command whose arguments are read, the options that it was given, and all that was given. -/
structure Reading where
  grammar : Grammar
  seen : List String
  given : Given

namespace Reading

/-- Takes an option, which may be given once only. -/
def takeFlag (r : Reading) (f : Flag) (value : String) : Except Refusal Reading :=
  if r.seen.contains f.name then .error .usage
  else
    .ok { r with
      seen := f.name :: r.seen
      given := { r.given with options := (f.name, value) :: r.given.options } }

def takeValue (r : Reading) (f : Flag) (value : String) : Except Refusal Reading :=
  if f.takes value then r.takeFlag f value else .error .usage

/-- Takes an operand. -/
def takeOperand (r : Reading) (value : String) : Except Refusal Reading :=
  match r.grammar.operands[r.given.operands.length]? with
  | some accepts =>
    if accepts value then
      .ok { r with given := { r.given with operands := r.given.operands ++ [value] } }
    else .error .usage
  | none => .error .usage

/-- Takes an option without a value. Those for help and for the version start no command. -/
def takeSwitch (r : Reading) (f : Flag) : Except Refusal Reading :=
  if f.name = "help" then .error .help
  else if f.name = "version" then .error .version
  else r.takeFlag f ""

/-- Takes options of one letter each. None of them takes a value. -/
def takeLetters (r : Reading) : List Char → Except Refusal Reading
  | [] => .ok r
  | c :: rest =>
    match r.grammar.flags.find? fun f => f.letter = some c with
    | none => .error .usage
    | some f =>
      match r.takeSwitch f with
      | .error refusal => .error refusal
      | .ok r => r.takeLetters rest

/-- Goes on with the arguments of a command. -/
def enter (r : Reading) (name : String) (g : Grammar) : Reading where
  grammar := g
  seen := []
  given := { r.given with commands := r.given.commands ++ [name] }

/-- What the arguments give, if nothing is missing. -/
def finish (r : Reading) : Except Refusal Given :=
  if r.grammar.commands.isEmpty ∧ r.given.operands.length = r.grammar.operands.length then .ok r.given
  else .error .usage

/-- Takes all arguments as operands. -/
def takeOperands (r : Reading) : List String → Except Refusal Given
  | [] => r.finish
  | value :: rest =>
    match r.takeOperand value with
    | .error refusal => .error refusal
    | .ok r => r.takeOperands rest

end Reading

/-- What a single argument is. -/
inductive Argument where
  /-- The end of the options. -/
  | separator
  /-- An option with its name and perhaps a value. -/
  | long (name : String) (value : Option String)
  | letters (cs : List Char)
  | word (s : String)
deriving DecidableEq

/-- The kind of an argument. A lone hyphen is a word. -/
def Argument.ofString (s : String) : Argument :=
  match s.toList with
  | ['-', '-'] => .separator
  | '-' :: '-' :: cs =>
    let name := String.ofList (cs.takeWhile (· ≠ '='))
    match cs.dropWhile (· ≠ '=') with
    | [] => .long name none
    | _ :: value => .long name (some (String.ofList value))
  | '-' :: c :: cs => .letters (c :: cs)
  | _ => .word s

/-- Whether an argument can be the value of the option before it. -/
def isValue (s : String) : Bool :=
  match Argument.ofString s with
  | .word _ => true
  | _ => false

/-- Whether words name a command, one within the other. -/
def namesCommand (g : Grammar) : List String → Bool
  | [] => true
  | name :: rest =>
    match g.commands.lookup name with
    | some inner => namesCommand inner rest
    | none => name = "help" && !g.commands.isEmpty && rest.isEmpty

/-- Reads the arguments of a command. -/
def Reading.readAll (r : Reading) : List String → Except Refusal Given
  | [] => r.finish
  | s :: rest =>
    match Argument.ofString s with
    | .separator => r.takeOperands rest
    | .letters cs =>
      match r.takeLetters cs with
      | .error refusal => .error refusal
      | .ok r => r.readAll rest
    | .word name =>
      if r.grammar.commands.isEmpty then
        match r.takeOperand name with
        | .error refusal => .error refusal
        | .ok r => r.readAll rest
      else
        match r.grammar.commands.lookup name with
        | some g => (r.enter name g).readAll rest
        | none =>
          if name = "help" ∧ namesCommand r.grammar rest = true then .error .help else .error .usage
    | .long name value =>
      match r.grammar.flags.find? fun f => f.name = name with
      | none => .error .usage
      | some f =>
        match f.accepts, value, rest with
        | none, none, rest =>
          match r.takeSwitch f with
          | .error refusal => .error refusal
          | .ok r => r.readAll rest
        | none, some _, _ => .error .usage
        | some _, some value, rest =>
          match r.takeValue f value with
          | .error refusal => .error refusal
          | .ok r => r.readAll rest
        | some _, none, value :: rest =>
          if isValue value then
            match r.takeValue f value with
            | .error refusal => .error refusal
            | .ok r => r.readAll rest
          else .error .usage
        | some _, none, [] => .error .usage

def Grammar.read (g : Grammar) (arguments : List String) : Except Refusal Given :=
  Reading.readAll ⟨g, [], .empty⟩ arguments

end MonitorExport.CommandLine
