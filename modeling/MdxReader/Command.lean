import MdxReader.Check
import MdxReader.Guide

/-!
# The command line

`mdx check [QUERY]`, `mdx docs` and `mdx doc CATEGORY`.  `Invocation.ofArgs?` makes sense of the
arguments and `Invocation.run` does what they ask for: it computes what is printed and the exit code
from the arguments and from the bytes of the standard input.

Options may stand anywhere behind their command, each at most once; behind `--` nothing is an
option.  `--log-level` is taken before the command and behind it.
-/

namespace MdxReader

/-- What the user asks for. -/
inductive Invocation where
  | version
  /-- Without a query, the standard input is checked. -/
  | check (query : Option String) (mode : CheckMode) (wantsTree : Bool) (layout : Json.Layout)
      (limit : Option Nat)
  | overview
  | topic (name : String)

namespace Invocation

/-! ### Arguments -/

/-- What was found behind a command. -/
structure Arguments where
  /-- The flags, by their long names. -/
  flags : List String
  /-- The options with their values, by their long names. -/
  values : List (String × String)
  /-- All other arguments, newest first. -/
  positionals : List String

/-- What a command accepts. -/
structure Accepted where
  /-- Flags by their long names, and by a letter if they have one. -/
  flags : List (String × Option Char)
  /-- Options that take a value. -/
  options : List String

/-- Sets a flag that is not set yet. -/
def Arguments.setFlag? (found : Arguments) (flag : String) : Option Arguments :=
  if found.flags.contains flag then none else some { found with flags := flag :: found.flags }

/-- Sets an option that has no value yet. -/
def Arguments.setValue? (found : Arguments) (option value : String) : Option Arguments :=
  if (found.values.lookup option).isSome then none
  else some { found with values := (option, value) :: found.values }

/-- Sets the flags that a cluster of letters stands for. -/
def Arguments.setLetters? (accepted : Accepted) (found : Arguments) : List Char → Option Arguments
  | [] => some found
  | letter :: letters =>
    match accepted.flags.find? (·.2 == some letter) with
    | some (flag, _) => (found.setFlag? flag).bind (setLetters? accepted · letters)
    | none => none

/-- Splits an option with an attached value, `name=value`. -/
def splitValue (option : List Char) : String × Option String :=
  let name := String.ofList (option.takeWhile (· != '='))
  match option.dropWhile (· != '=') with
  | _ :: value => (name, some (String.ofList value))
  | [] => (name, none)

/-- The argument cannot be a value or a positional: it begins with a dash and has more to it. -/
def isDashed (arg : String) : Bool :=
  match arg.toList with
  | '-' :: _ :: _ => true
  | _ => false

/-- Makes sense of what stands behind a command.  None if something is unknown, repeated, or lacks
its value. -/
def Arguments.read? (accepted : Accepted) (found : Arguments) : List String → Option Arguments
  | [] => some found
  | arg :: args =>
    match arg.toList with
    | ['-', '-'] => some { found with positionals := args.reverse ++ found.positionals }
    | '-' :: '-' :: option =>
      let (name, attached) := splitValue option
      if accepted.options.contains name then
        match attached, args with
        | some value, args => (found.setValue? name value).bind (read? accepted · args)
        | none, value :: args =>
          if isDashed value then none
          else (found.setValue? name value).bind (read? accepted · args)
        | none, [] => none
      else if attached.isNone && accepted.flags.any (·.1 == name) then
        (found.setFlag? name).bind (read? accepted · args)
      else none
    | '-' :: letter :: letters =>
      (found.setLetters? accepted (letter :: letters)).bind (read? accepted · args)
    | _ => read? accepted { found with positionals := arg :: found.positionals } args

/-- Limits have 64 bits. -/
def limitBound : Nat := Nat.pow 2 64

/-- A limit: decimal digits, perhaps behind a plus sign. -/
def limitOf? (text : String) : Option Nat :=
  let digits := match text.toList with
    | '+' :: digits => digits
    | digits => digits
  if digits.isEmpty || !digits.all Char.isDigit then none
  else
    let limit := digits.foldl (fun value c => value * 10 + (c.toNat - '0'.toNat)) 0
    if limit < limitBound then some limit else none

/-- What `check` accepts. -/
def checkAccepts : Accepted :=
  ⟨[("expression", none), ("statement", none), ("json", some 'j'), ("pretty", some 'p')],
    ["max-depth", "log-level"]⟩

/-- What every command accepts. -/
def allAccept : Accepted := ⟨[], ["log-level"]⟩

/-- No arguments yet. -/
def Arguments.none : Arguments := ⟨[], [], []⟩

/-- What `check` is asked for.  The two flags for the mode exclude each other. -/
def checkOf? (found : Arguments) : Option Invocation := do
  let has := found.flags.contains
  let mode ← match has "expression", has "statement" with
    | true, true => Option.none
    | true, false => some .expression
    | false, true => some .statement
    | false, false => some CheckMode.auto
  let limit ← match found.values.lookup "max-depth" with
    | Option.none => some Option.none
    | some value => (limitOf? value).map some
  let query ← match found.positionals with
    | [] => some Option.none
    | [query] => some (some query)
    | _ => Option.none
  let layout := if has "pretty" then Json.Layout.indented else .compact
  return .check query mode (has "json" || has "pretty") layout limit

/-- Makes sense of a command and what stands behind it. -/
def ofCommand? (command : String) (args : List String) : Option Invocation :=
  if command = "check" then (Arguments.none.read? checkAccepts args).bind checkOf?
  else if command = "docs" then
    match Arguments.none.read? allAccept args with
    | some ⟨_, _, []⟩ => some .overview
    | _ => none
  else if command = "doc" then
    match Arguments.none.read? allAccept args with
    | some ⟨_, _, [name]⟩ => some (.topic name)
    | _ => none
  else none

/-- The argument asks for the version, which is answered at once. -/
def asksVersion (arg : String) : Bool :=
  match arg.toList with
  | '-' :: 'V' :: _ => true
  | _ => arg == "--version"

/-- Makes sense of all arguments; `levelSet` tells whether the log level was given already. -/
def ofArgsFrom? (levelSet : Bool) : List String → Option Invocation
  | [] => none
  | arg :: args =>
    if asksVersion arg then some .version
    else
      match arg.toList with
      | '-' :: '-' :: option =>
        let (name, attached) := splitValue option
        if name = "log-level" ∧ levelSet = false then
          match attached, args with
          | some _, args => ofArgsFrom? true args
          | none, value :: args => if isDashed value then none else ofArgsFrom? true args
          | none, [] => none
        else none
      | _ => ofCommand? arg args

/-- Makes sense of the arguments of the program.  None if they are wrong. -/
def ofArgs? (args : List String) : Option Invocation := ofArgsFrom? false args

/-! ### Answers -/

end Invocation

/-- What the program prints, and its exit code. -/
structure Output where
  exit : Nat
  out : String
  err : String

namespace Invocation

/-- The program is named and numbered like this. -/
def versionText : String := "mdx 0.1.0\n"

/-- Success. -/
def succeed (out : String) : Output := ⟨0, out, ""⟩

/-- Failure; the message goes to the error output. -/
def fail (error : CommandError) : Output := ⟨1, "", error.message.push '\n'⟩

/-- Whether the standard input is needed. -/
def needsInput : Invocation → Bool
  | check none _ _ _ _ => true
  | _ => false

/-- The text to be checked: the query, or else what the bytes of the input spell. -/
def queryText (query : Option String) (input : ByteArray) : Except CommandError String :=
  match query with
  | some text => .ok text
  | none =>
    match String.fromUTF8? input with
    | some text => .ok text
    | none => .error .notText

/-- What the program answers. -/
def run (input : ByteArray) : Invocation → Output
  | version => succeed versionText
  | overview => succeed Guide.overview
  | topic name =>
    match Topic.ofName? name with
    | some found => succeed found.text
    | none => fail (.unknownTopic name)
  | check query mode wantsTree layout limit =>
    match queryText query input with
    | .error e => fail e
    | .ok text =>
      match MdxReader.check ⟨text, mode, wantsTree, limit⟩ with
      | .ok .valid => succeed "Syntax is valid\n"
      | .ok (.tree tree) => succeed ((tree.render layout).push '\n')
      | .error e => fail e

end Invocation

end MdxReader
