/-
# ClassWeave.CommandLine -- the arguments of the program

The program puts a printing probe into one class file.  An argument is the name of
the input, or an option that begins with two hyphens; the value of an option is the
next argument, or what follows an equals sign.  After two hyphens alone nothing is an
option any more.

`Request.parse` reads the arguments as a whole or says what is wrong with them.  Only
the class path may be given more than once.
-/
import ClassWeave.Transform

set_option autoImplicit false

namespace ClassWeave

/-- An option, and what its value is called. -/
structure Flag where
  name : String
  value : String
deriving DecidableEq, Repr

namespace Flag

def output : Flag := ⟨"output", "PATH"⟩
def classpath : Flag := ⟨"classpath", "DIR"⟩
def «class» : Flag := ⟨"class", "CLASS"⟩
def method : Flag := ⟨"method", "METHOD"⟩
def kind : Flag := ⟨"kind", "KIND"⟩
def placement : Flag := ⟨"where", "PLACEMENT"⟩
def line : Flag := ⟨"line", "LINE"⟩
def targetClass : Flag := ⟨"target-class", "TARGET_CLASS"⟩
def targetMethod : Flag := ⟨"target-method", "TARGET_METHOD"⟩
def field : Flag := ⟨"field", "FIELD"⟩
def type : Flag := ⟨"type", "TYPE_NAME"⟩
def message : Flag := ⟨"message", "MESSAGE"⟩

def all : List Flag :=
  [output, classpath, «class», method, kind, placement, line, targetClass, targetMethod, field,
    type, message]

def display (flag : Flag) : String := "--" ++ flag.name ++ " <" ++ flag.value ++ ">"

end Flag

inductive UsageError
  | unexpected (argument : String)
  | noValue (flag : Flag)
  | repeated (flag : Flag)
  | missing (arguments : List String)
  | invalid (flag : Flag) (value reason : String)
deriving DecidableEq, Repr

def UsageError.message : UsageError → String
  | unexpected argument => "unexpected argument '" ++ argument ++ "' found"
  | noValue flag =>
    "a value is required for '" ++ flag.display ++ "' but none was supplied"
  | repeated flag =>
    "the argument '" ++ flag.display ++ "' cannot be used multiple times"
  | missing arguments =>
    "the following required arguments were not provided:"
      ++ String.join (arguments.map ("\n  " ++ ·))
  | invalid flag value reason =>
    "invalid value '" ++ value ++ "' for '" ++ flag.display ++ "': " ++ reason

/-- An argument, together with the next one if that is its value. -/
inductive Argument
  | operand (text : String)
  | setting (flag : Flag) (value : String)
deriving DecidableEq, Repr

namespace Argument

/-- A hyphen alone is a name like any other. -/
def looksLikeOption (text : String) : Bool :=
  text.length > 1 && text.toList.head? == some '-'

/-- The option that an argument names, and the value if the argument holds it. -/
def option? (text : String) : Option (Flag × Option String) :=
  match text.toList with
  | '-' :: '-' :: rest =>
    let name := String.ofList (rest.takeWhile (· != '='))
    let value := match rest.dropWhile (· != '=') with
      | _ :: value => some (String.ofList value)
      | [] => none
    (Flag.all.find? (·.name == name)).map fun flag => (flag, value)
  | _ => none

def readAll : List String → Except UsageError (List Argument)
  | [] => .ok []
  | text :: rest =>
    if text = "--" then .ok (rest.map .operand)
    else if !looksLikeOption text then do return .operand text :: (← readAll rest)
    else
      match option? text, rest with
      | none, _ => .error (.unexpected text)
      | some (flag, some value), rest => do return .setting flag value :: (← readAll rest)
      | some (flag, none), [] => .error (.noValue flag)
      | some (flag, none), value :: rest =>
        if looksLikeOption value then .error (.noValue flag)
        else do return .setting flag value :: (← readAll rest)

def operand? : Argument → Option String
  | operand text => some text
  | setting _ _ => none

def valueOf? (flag : Flag) : Argument → Option String
  | setting other value => if other = flag then some value else none
  | operand _ => none

/-- The value of an option that may be given once. -/
def single? (arguments : List Argument) (flag : Flag) : Except UsageError (Option String) :=
  match arguments.filterMap (valueOf? flag) with
  | [] => .ok none
  | [value] => .ok (some value)
  | _ => .error (.repeated flag)

/-- That value read, or another one for an option that is not given. -/
def single {α : Type} (arguments : List Argument) (flag : Flag) (otherwise : α)
    (read : String → Except String α) : Except UsageError α := do
  match ← single? arguments flag with
  | none => return otherwise
  | some value =>
    match read value with
    | .ok result => return result
    | .error reason => throw (.invalid flag value reason)

def text (arguments : List Argument) (flag : Flag) (otherwise : String) :
    Except UsageError String :=
  single arguments flag otherwise .ok

def readKind (value : String) : Except String Kind :=
  match Kind.parse? value with
  | some kind => .ok kind
  | none => .error (Kind.unknown value)

def readSide (value : String) : Except String Side :=
  match Side.parse? value with
  | some side => .ok side
  | none => .error (Side.unknown value)

/-- A decimal number, with or without a plus sign. -/
def readLine (value : String) : Except String UInt32 :=
  let digits := match value.toList with
    | '+' :: digits => digits
    | digits => digits
  if value.isEmpty then .error "cannot parse integer from empty string"
  else if digits.isEmpty || digits.any (!·.isDigit) then .error "invalid digit found in string"
  else
    let number := digits.foldl (fun number digit => number * 10 + (digit.toNat - 48)) 0
    if number < UInt32.size then .ok (UInt32.ofNat number)
    else .error (toString number ++ " is not in 0..=4294967295")

end Argument

/-- What the program is asked to do. -/
structure Request where
  input : String
  output : String
  /-- Where the classes are that the input refers to. -/
  directories : List String
  /-- The class to rewrite, if it is not the input whatever its name. -/
  pattern : Option String
  method : String
  location : Location
  message : String

namespace Request

def ofArguments (arguments : List Argument) : Except UsageError Request := do
  let output ← Argument.single? arguments .output
  let pattern ← Argument.single? arguments .class
  let method ← Argument.text arguments .method ""
  let kind ← Argument.single arguments .kind .entry Argument.readKind
  let side ← Argument.single arguments .placement .before Argument.readSide
  let line ← Argument.single arguments .line 0 Argument.readLine
  let className ← Argument.text arguments .targetClass ""
  let targetMethod ← Argument.text arguments .targetMethod ""
  let field ← Argument.text arguments .field ""
  let type ← Argument.text arguments .type ""
  let message ← Argument.text arguments .message "probe hit"
  let location : Location := ⟨className, targetMethod, type, field, line, kind, side⟩
  let directories := arguments.filterMap (Argument.valueOf? .classpath)
  match arguments.filterMap Argument.operand?, output with
  | [input], some output =>
    return ⟨input, output, directories, pattern, method, location, message⟩
  | [], some _ => throw (.missing ["<INPUT>"])
  | [], none => throw (.missing [Flag.output.display, "<INPUT>"])
  | [_], none => throw (.missing [Flag.output.display])
  | _ :: second :: _, _ => throw (.unexpected second)

def parse (arguments : List String) : Except UsageError Request := do
  ofArguments (← Argument.readAll arguments)

/-- The class to rewrite: the one asked for, or else the input. -/
def target (request : Request) (bytes : Bytes) : Except ReadError String :=
  match request.pattern with
  | some pattern => .ok pattern
  | none => do (← ClassFile.read bytes).name

def transformer (request : Request) (target : String) : Transformer :=
  ⟨[⟨target, request.method, none, request.location,
    (Snippet.print request.message).probeCode⟩], .standard⟩

/-- What is seen of other classes: one loader, over all directories. -/
def sources (classes : ClassTable) : Sources := ⟨none, [⟨⟨1, 0⟩, classes⟩]⟩

/-- The bytes to put out for the bytes of the input, with the given classes at hand. -/
def answer (request : Request) (classes : ClassTable) (bytes : Bytes) :
    Except WeaveError Bytes :=
  match request.target bytes with
  | .error cause => .error (.read cause)
  | .ok target =>
    match ((request.transformer target).transform? (sources classes) bytes ClassCache.empty).1 with
    | .ok rewritten => .ok (rewritten.getD bytes)
    | .error cause => .error cause

end Request

end ClassWeave
