/-
  EmbeddedExpr.Command.Arguments
  ──────────────────────────────
  **THE COMMANDS AND THEIR ARGUMENTS.**

  A command is a word, one positional argument and options, in any order after the word.  An
  option may be shortened as long as it is clear which one is meant, and its value may stand
  after an equals sign.  Of two values of an option the last one holds.  After two hyphens
  nothing is an option.
-/
import EmbeddedExpr.Text.Digits
import EmbeddedExpr.Text.Lines

namespace EmbeddedExpr.Command

/-! ## §1. Requests. -/

/-- What the program is asked for. -/
inductive Request where
  /-- The expressions of a document. -/
  | scan (file : String) (opening closing : Option String) (force : Bool) (root : Option String)
  /-- The manifest and the package roots of a file. -/
  | manifest (file : String) (root : Option String)
  /-- The attributes whose values are expressions. -/
  | attributes (root : Option String)
  deriving DecidableEq, Repr

/-- An option. -/
inductive Flag where
  | help | opening | closing | force | root
  deriving DecidableEq, Repr

/-- The options of all commands. -/
def commonFlags : List (String × Flag) := [("-h", .help), ("--help", .help), ("--root", .root)]

/-- The options of the command that scans. -/
def scanFlags : List (String × Flag) :=
  commonFlags ++ [("--start", .opening), ("--end", .closing), ("--force", .force)]

/-! ## §2. Single arguments. -/

/-- What an argument is taken for. -/
inductive Reading where
  | positional
  /-- An option, with the value after its equals sign. -/
  | flag (f : Flag) (value : Option String)
  /-- No option, but written like one. -/
  | unknown
  deriving DecidableEq, Repr

/-- A text before and after its first equals sign. -/
def atEquals? (s : List Char) : Option (List Char × List Char) :=
  match s.dropWhile (· ≠ '=') with
  | _ :: value => some (s.takeWhile (· ≠ '='), value)
  | [] => none

/-- At least one decimal digit, and no other character. -/
def isDigits (s : List Char) : Bool := !s.isEmpty && s.all Text.isDecimalDigit

/-- A number with a minus sign. -/
def isNegativeNumber (s : List Char) : Bool :=
  match Text.withoutLineEnd s with
  | '-' :: rest =>
    isDigits rest
      || (match rest.dropWhile Text.isDecimalDigit with
        | '.' :: more => isDigits more
        | _ => false)
  | _ => false

/-- The options that begin with the given text. -/
def startingWith (flags : List (String × Flag)) (s : List Char) : List (String × Flag) :=
  flags.filter fun f => s.isPrefixOf f.1.toList

/-- The options that an argument may mean when it is none of them as written. -/
def meant (flags : List (String × Flag)) (s : List Char) :
    List (Flag × Option String) :=
  match s with
  | '-' :: '-' :: _ =>
    match atEquals? s with
    | some (name, value) =>
      (startingWith flags name).map fun f => (f.2, some (String.ofList value))
    | none => (startingWith flags s).map fun f => (f.2, none)
  | '-' :: c :: more =>
    (flags.filter fun f => f.1 = String.ofList ['-', c]).map
      fun f => (f.2, some (String.ofList more))
  | _ => []

/-- What an argument is taken for; none when it may mean several options. -/
def classify? (flags : List (String × Flag)) (arg : String) : Option Reading :=
  let s := arg.toList
  let exact := fun (name : List Char) => (flags.lookup (String.ofList name))
  if s.head? ≠ some '-' || s.length = 1 then some .positional
  else match exact s with
    | some f => some (.flag f none)
    | none =>
      match (atEquals? s).bind fun (name, value) => (exact name).map fun f => (f, value) with
      | some (f, value) => some (.flag f (some (String.ofList value)))
      | none =>
        match meant flags s with
        | _ :: _ :: _ => none
        | [(f, value)] => some (.flag f value)
        | [] =>
          if isNegativeNumber s || s.contains ' ' then some .positional else some .unknown

/-! ## §3. Rows of arguments. -/

/-- What has been given to a command. -/
structure Given where
  positional : Option String
  opening : Option String
  closing : Option String
  root : Option String
  force : Bool
  deriving Repr

/-- Nothing has been given. -/
def Given.none : Given := ⟨Option.none, Option.none, Option.none, Option.none, false⟩

/-- What is given with an option that has a value. -/
def Given.set (g : Given) (f : Flag) (value : String) : Option Given :=
  match f with
  | .opening => some { g with opening := some value }
  | .closing => some { g with closing := some value }
  | .root => some { g with root := some value }
  | .force => Option.none
  | .help => Option.none

/-- What is given with the arguments from here on.  `adjacent` says that the positional one
stands right before them. -/
def gather (flags : List (String × Flag)) (g : Given) (adjacent : Bool) :
    List String → Option Given
  | [] => some g
  | "--" :: rest =>
    match g.positional, rest with
    | Option.none, [value] => some { g with positional := some value }
    | some _, [] => if adjacent then some g else Option.none
    | _, _ => Option.none
  | arg :: rest =>
    match classify? flags arg with
    | some .positional =>
      if g.positional.isNone then gather flags { g with positional := some arg } true rest
      else Option.none
    | some (.flag .force Option.none) => gather flags { g with force := true } false rest
    | some (.flag f (some value)) => (g.set f value).bind fun g => gather flags g false rest
    | some (.flag f Option.none) =>
      match rest with
      | value :: rest =>
        if value ≠ "--" && classify? flags value = some .positional then
          (g.set f value).bind fun g => gather flags g false rest
        else Option.none
      | [] => Option.none
    | _ => Option.none

/-- What a row of arguments asks for; none when it asks for nothing that there is. -/
def request? (args : List String) : Option Request :=
  match args with
  | "scan" :: rest => do
    let g ← gather scanFlags .none false rest
    let file ← g.positional
    pure (.scan file g.opening g.closing g.force g.root)
  | "manifest" :: rest => do
    let g ← gather commonFlags .none false rest
    let file ← g.positional
    pure (.manifest file g.root)
  | "list" :: rest => do
    let g ← gather commonFlags .none false rest
    if g.positional = some "attributes" then pure (.attributes g.root) else Option.none
  | _ => Option.none

end EmbeddedExpr.Command
